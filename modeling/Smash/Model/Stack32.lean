import Smash.Model.Engine

/-!
# Stack accounting with 32-bit integers (`engine.c`)

`Model.Engine` keeps `stack_depth` as an unbounded integer. Here `ACT_CALL` and `ACT_RETURN` compute it in a
32-bit `int`, which wraps round; the rest of the step is as before.
-/

set_option autoImplicit false

namespace Smash

/-- `ACT_CALL`. -/
def actCall32 (sc : Scenario) (w : World) (tid arg : Int) : Outcome :=
  let depth := wrap32 ((w.threads tid).stackDepth + argOr arg 1)
  let called := w.modThread tid fun t =>
    { t with stackDepth := depth, stackWatermark := if t.stackWatermark < depth then depth else t.stackWatermark }
  let limit := sc.stackSizes tid
  if 0 < limit ∧ limit < depth then
    .fail called s!"T{tid} stack overflow: depth={depth} limit={limit}"
      [⟨.stackOverflow, tid, -1, depth⟩]
  else (Outcome.ok (called.advance tid) [⟨.call, tid, -1, depth⟩] true).finish

/-- `ACT_RETURN`. -/
def actReturn32 (w : World) (tid arg : Int) : Outcome :=
  let units := argOr arg 1
  let left := wrap32 ((w.threads tid).stackDepth - units)
  let depth := if left < 0 then 0 else left
  (Outcome.ok ((w.modThread tid fun t => { t with stackDepth := depth }).advance tid)
    [⟨.ret, tid, -1, depth⟩] true).finish

/-- The `switch`. -/
def World.dispatch32 (sc : Scenario) (w : World) (tid : Int) (act : Action) : Outcome :=
  match act.type with
  | .call => actCall32 sc w tid act.arg
  | .ret => actReturn32 w tid act.arg
  | _ => w.dispatch sc tid act

/-- What `smash_execute_step` does after the clock. -/
def World.runThread32 (sc : Scenario) (w : World) (tid : Int) : Outcome :=
  let t := w.threads tid
  if t.state ≠ .ready then .ok w [] false
  else
    match sc.actionAt tid t.pc with
    | none => .ok (w.modThread tid fun t => { t with state := .done }) [⟨.threadDone, tid, -1, 0⟩] true
    | some act =>
      if act.resourceId ≠ smashNoResource ∧ (act.resourceId < 0 ∨ sc.resourceCount ≤ act.resourceId) then
        .fail w
          s!"T{tid} step {t.pc}: resource_id {act.resourceId} out of range [0,{sc.resourceCount})" []
      else (w.dispatch32 sc tid act).afterLog [⟨.schedule, tid, -1, t.priority⟩]

/-- `smash_execute_step`. -/
def World.executeStep32 (sc : Scenario) (w : World) (tid : Int) : Outcome :=
  let ticked := w.tick sc
  (ticked.1.runThread32 sc tid).afterLog ticked.2

end Smash
