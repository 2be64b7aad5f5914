import Mathlib.Data.Finset.Filter
import Mathlib.Data.Finset.Insert
import Smash.Model.Engine

/-!
# Dependence, persistent sets and sleep sets (`dpor.c`, and `compute_persistent_set`)

A C bitmask over thread ids is a `Finset Int`. Of the DPOR context only the sleep sets are kept:
the history and the backtrack set belong to `smash_dpor_analyze` (`Model.Analyze`), which the explorer never
calls.
-/

set_option autoImplicit false

namespace Smash

/-- `ACT_YIELD` or `ACT_NOP`. -/
def ActionType.idle (a : ActionType) : Bool := a = .yield || a = .nop

/-- `smash_dpor_dependent`. -/
def dependent (aType : ActionType) (aRes : Int) (bType : ActionType) (bRes : Int) : Bool :=
  if aRes ≠ bRes ∨ aRes < 0 then false
  else if aType.idle && bType.idle then false
  else true

/-! ## Persistent sets -/

/-- `thread_next_action`. -/
def threadNextAction (sc : Scenario) (w : World) (tid : Int) : Action :=
  (sc.actionAt tid (w.threads tid).pc).getD { type := .done, resourceId := -1 }

/-- The next actions of two threads are dependent. -/
def nextDependent (sc : Scenario) (w : World) (p q : Int) : Bool :=
  let pAct := threadNextAction sc w p
  let qAct := threadNextAction sc w q
  dependent pAct.type pAct.resourceId qAct.type qAct.resourceId

/-- One sweep of the fixpoint over the runnable threads. The set grows under the sweep, so a
thread added early can pull in one further on. -/
def persistentSweep (sc : Scenario) (w : World) (runnable : List Int) (set : Finset Int) : Finset Int :=
  runnable.foldl
    (fun set q =>
      if q ∈ set then set
      else if runnable.any (fun p => p ∈ set && nextDependent sc w p q) then insert q set
      else set)
    set

/-- The `while (changed && set != full_set)` loop. A sweep that changes something adds a runnable
thread, so a turn for each of them is enough. -/
def persistentLoop (sc : Scenario) (w : World) (runnable : List Int) : Nat → Finset Int → Finset Int
  | 0, set => set
  | fuel + 1, set =>
    if set = runnable.toFinset then set
    else
      let swept := persistentSweep sc w runnable set
      if swept = set then set else persistentLoop sc w runnable fuel swept

/-- `compute_persistent_set`, of a non-empty list. -/
def computePersistentSet (sc : Scenario) (w : World) (runnable : List Int) : Finset Int :=
  match runnable with
  | [] => ∅
  | first :: _ => persistentLoop sc w runnable runnable.length {first}

/-! ## Sleep sets -/

/-- The sleep sets of `smash_dpor_t`. -/
structure Dpor where
  sleepSet : Nat → Finset Int
  sleepSetMaxDepth : Nat

/-- `smash_dpor_init` and `smash_dpor_reset`, which leave the same sleep sets. -/
def Dpor.reset : Dpor := { sleepSet := fun _ => ∅, sleepSetMaxDepth := 0 }

/-- `smash_dpor_sleep_contains`. -/
def Dpor.sleepContains (d : Dpor) (depth : Nat) (tid : Int) : Bool :=
  if smashMaxDepth ≤ depth then false else tid ∈ d.sleepSet depth

/-- `smash_dpor_sleep_add`. -/
def Dpor.sleepAdd (d : Dpor) (depth : Nat) (tid : Int) : Dpor :=
  if smashMaxDepth ≤ depth then d
  else
    { sleepSet := Function.update d.sleepSet depth (insert tid (d.sleepSet depth))
      sleepSetMaxDepth := if d.sleepSetMaxDepth < depth then depth else d.sleepSetMaxDepth }

/-- `smash_dpor_sleep_propagate`. -/
def Dpor.sleepPropagate (d : Dpor) (depth : Nat) (runnable : List Int) : Dpor :=
  if smashMaxDepth - 1 ≤ depth then d
  else if d.sleepSet depth = ∅ then d
  else
    runnable.foldl
      (fun d' tid => if tid ∈ d.sleepSet depth then d'.sleepAdd (depth + 1) tid else d') d

end Smash
