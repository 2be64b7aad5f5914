import Smash.Model.Dpor

/-!
# The post-hoc analysis (`dpor.c`)

The other half of `smash_dpor_t`: a history of what was executed, and the points to come back to that
`smash_dpor_analyze` finds in it. `explore_dfs` does not call these functions; they are there for a caller who
records a run of his own and asks which choices to make otherwise.

The analysis judges every step by where the threads stand at the end of the run, not at that step.
-/

set_option autoImplicit false

namespace Smash

def smashMaxBacktrack : Nat := 4096

/-- `smash_backtrack_t`. -/
structure BacktrackPoint where
  depth : Nat
  tid : Int
  deriving DecidableEq

/-- An entry of `history`. -/
structure Recorded where
  tid : Int
  resourceId : Int
  type : ActionType
  deriving DecidableEq

/-- The history and the backtrack set of `smash_dpor_t`. -/
structure DporHistory where
  backtrack : LiveArray BacktrackPoint
  history : LiveArray Recorded

/-- `smash_dpor_reset`: the cells keep what they held. -/
def DporHistory.reset (d : DporHistory) : DporHistory :=
  { backtrack := d.backtrack.clear, history := d.history.clear }

/-- `smash_dpor_record`. -/
def DporHistory.record (d : DporHistory) (r : Recorded) : DporHistory :=
  { d with history := d.history.pushWithin smashMaxDepth r }

/-- The tests of the inner loop of `smash_dpor_analyze`: `t` could have run instead, and that matters. -/
def isAlternative (sc : Scenario) (w : World) (executed : Recorded) (t : Int) : Bool :=
  if t = executed.tid then false
  else if (w.threads t).blocked then false
  else
    match sc.actionAt t (w.threads t).pc with
    | none => false
    | some alt => dependent executed.type executed.resourceId alt.type alt.resourceId

/-- The inner loop, at entry `i`. -/
def DporHistory.analyzeEntry (sc : Scenario) (w : World) (d : DporHistory) (i : Nat) : DporHistory :=
  sc.threadIds.foldl
    (fun d t =>
      if isAlternative sc w (d.history.cell i) t then
        { d with backtrack := d.backtrack.pushWithin smashMaxBacktrack ⟨i, t⟩ }
      else d)
    d

/-- `smash_dpor_analyze`: the entries from the last to the first. -/
def DporHistory.analyze (sc : Scenario) (w : World) (d : DporHistory) : DporHistory :=
  (List.range d.history.count).reverse.foldl (DporHistory.analyzeEntry sc w) d

/-- `smash_dpor_next_backtrack`: the context after it and the point, when there is one. -/
def DporHistory.nextBacktrack (d : DporHistory) : Option (DporHistory × BacktrackPoint) :=
  if d.backtrack.count = 0 then none
  else some ({ d with backtrack := d.backtrack.dropLast }, d.backtrack.cell (d.backtrack.count - 1))

/-- The points that calls of `smash_dpor_next_backtrack` give, until it returns `false`; `n` calls at most. -/
def DporHistory.backtracks : Nat → DporHistory → List BacktrackPoint
  | 0, _ => []
  | n + 1, d =>
    match d.nextBacktrack with
    | none => []
    | some (rest, point) => point :: rest.backtracks n

end Smash
