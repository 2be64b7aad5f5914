import Smash.Lib.ExchangeSort
import Smash.Model.Smt

/-!
# The symbolic engine (`sym_engine.c`)

`smash_verify_no_deadlock_bmc` encodes a scenario as constraints, asks the solver, and reads its answer as a
verdict. The solver is a parameter: a function from the constraints asserted to an answer. The constants of
the solver are told apart by their names, so a `SymVar` is what the format string of a name is filled with.

The encoders of priority inheritance and of deadlock are not called by the verifier. That of circular wait is
not either, and is left out: its calls of `mk_var` have an argument too many.
-/

set_option autoImplicit false

namespace Smash

open OrderConstraints ExchangeSort

def smashSymMaxSteps : Nat := 100
def smashSymMaxThreads : Nat := 16
def smashSymMaxResources : Nat := 16

/-! ## The engine -/

/-- The constants that the encoders name. -/
inductive SymVar where
  | step (v : StepVar)
  | progOrder (t : Int) (s : Nat)
  | progOrderNext (t : Int) (s : Nat)
  deriving DecidableEq

def SymVar.name : SymVar → String
  | .step v => v.name
  | .progOrder t s => s!"prog_order_T{t}_{s}"
  | .progOrderNext t s => s!"prog_order_T{t}_{s}_next"

/-- What `Z3_solver_check` answers; a model gives numerals to some constants. -/
inductive SolverAnswer where
  | sat (model : SymVar → Option Int)
  | unsat
  | unknown

/-- The solver, applied to what has been asserted. -/
abbrev Solver := List (Constraint SymVar) → SolverAnswer

/-- `smash_sym_engine_t` with its solver's assertions and model. -/
structure SymEngine where
  scenario : Scenario
  maxBound : Int
  assertions : List (Constraint SymVar)
  assertionCount : Nat
  isSat : Bool
  model : Option (SymVar → Option Int)
  counterexample : List Int
  errorMsg : String

/-- `smash_sym_engine_init`, when memory and the solver's context can be had. -/
def symEngineInit (sc : Scenario) (maxBound : Int) : Option SymEngine :=
  if (smashSymMaxThreads : Int) < sc.threadCount then none
  else if (smashSymMaxResources : Int) < sc.resourceCount then none
  else
    some
      { scenario := sc
        maxBound := if 0 < maxBound then maxBound else smashSymMaxSteps
        assertions := []
        assertionCount := 0
        isSat := false
        model := none
        counterexample := []
        errorMsg := "" }

/-- `z3_assert` for each constraint in turn, counted. -/
def SymEngine.assertAll (e : SymEngine) (cs : List (Constraint SymVar)) : SymEngine :=
  { e with
    assertions := e.assertions ++ cs
    assertionCount := e.assertionCount + cs.length }

/-! ## The encoders -/

/-- Per-thread program order. -/
def symProgramOrder (sc : Scenario) : List (Constraint SymVar) :=
  sc.threadIds.flatMap fun t =>
    ((sc.stepIds t).filter fun s => s + 1 < (sc.stepCount t).toNat).map fun s =>
      -- The constants are not those of the steps, and those of one line are in no other.
      .less (.progOrder t s) (.progOrderNext t s)

/-- Non-overlap of lock-unlock pairs, mutex by mutex. -/
def symMutexExclusivity (sc : Scenario) : List (Constraint SymVar) :=
  sc.resourceIds.flatMap fun m =>
    if sc.resTypes m ≠ .mutex then []
    else
      sc.threadIds.flatMap fun t1 => (sc.stepIds t1).flatMap fun s1 =>
        -- Any lock of `t1` will do here, of `m` or not.
        if (sc.steps t1 s1).type ≠ .mutexLock then []
        else
          match sc.matchingUnlock t1 s1 m with
          | none => []
          | some u1 =>
            (sc.threadIds.filter fun t2 => t1 < t2).flatMap fun t2 => (sc.stepIds t2).flatMap fun s2 =>
              if (sc.steps t2 s2).type ≠ .mutexLock then []
              else if (sc.steps t2 s2).resourceId ≠ m then []
              else
                match sc.matchingUnlock t2 s2 m with
                | none => []
                | some u2 => [.anyLess [(.step ⟨t1, u1⟩, .step ⟨t2, s2⟩), (.step ⟨t2, u2⟩, .step ⟨t1, s1⟩)]]

/-- A prior signal for each wait on an initially empty semaphore. -/
def symSemaphoreOrdering (sc : Scenario) : List (Constraint SymVar) :=
  sc.threadIds.flatMap fun t1 => (sc.stepIds t1).flatMap fun s1 =>
    if (sc.steps t1 s1).type ≠ .semWait then []
    else
      let res := (sc.steps t1 s1).resourceId
      if 0 < sc.semInit res then []
      else
        let signals := (sc.signalsOn res).map SymVar.step
        if signals = [] then []
        else [.anyLess (signals.map fun sig => (sig, .step ⟨t1, s1⟩))]

def SymEngine.encodeProgramOrder (e : SymEngine) : SymEngine := e.assertAll (symProgramOrder e.scenario)

def SymEngine.encodeMutexExclusivity (e : SymEngine) : SymEngine :=
  e.assertAll (symMutexExclusivity e.scenario)

def SymEngine.encodeSemaphoreOrdering (e : SymEngine) : SymEngine :=
  e.assertAll (symSemaphoreOrdering e.scenario)

/-- A position above `-1` for the last step of each thread that has one. -/
def symNoDeadlock (sc : Scenario) : List (Constraint SymVar) :=
  sc.threadIds.filterMap fun t =>
    if sc.stepCount t - 1 < 0 then none
    else some (.nonneg (.step ⟨t, (sc.stepCount t - 1).toNat⟩))

def SymEngine.encodeNoDeadlock (e : SymEngine) : SymEngine := e.assertAll (symNoDeadlock e.scenario)

/-- `smash_sym_encode_priority_inheritance`: its loops look for a waiter that is more urgent than an owner, and
where they find one there is only a comment. -/
def SymEngine.encodePriorityInheritance (e : SymEngine) : SymEngine := e

/-- `smash_sym_engine_reset`. -/
def SymEngine.reset (e : SymEngine) : SymEngine :=
  { e with assertions := [], assertionCount := 0, isSat := false, model := none, counterexample := [], errorMsg := "" }

/-- The three encoders that the verifier calls. -/
def SymEngine.encode (e : SymEngine) : SymEngine :=
  e.encodeProgramOrder.encodeMutexExclusivity.encodeSemaphoreOrdering

/-! ## Solving -/

/-- `smash_sym_check`: the engine after it, and what it returns. -/
def SymEngine.check (solver : Solver) (e : SymEngine) : SymEngine × Bool :=
  match solver e.assertions with
  | .sat model => ({ e with isSat := true, model := some model }, true)
  | .unsat => ({ e with isSat := false }, false)
  | .unknown => ({ e with errorMsg := "Z3 returned unknown (timeout or resource limit)" }, false)

/-- The steps that the model places, with their positions, in the order of the loops. -/
def modelPositions (sc : Scenario) (model : SymVar → Option Int) : List (StepVar × Int) :=
  sc.threadIds.flatMap fun t =>
    ((sc.stepIds t).filter fun s => s < smashSymMaxSteps).filterMap fun s =>
      (model (.step ⟨t, s⟩)).map fun position => (⟨t, s⟩, position)

/-- `smash_sym_get_counterexample`: the threads in the order of the positions of their steps. -/
def SymEngine.getCounterexample (e : SymEngine) : SymEngine × Option (List Int) :=
  if e.isSat = false then (e, none)
  else
    match e.model with
    | none => (e, none)
    | some model =>
      let schedule := (exchangeSort Prod.snd (modelPositions e.scenario model)).map fun p => p.1.tid
      ({ e with counterexample := schedule }, some schedule)

/-! ## The verifier -/

/-- What `smash_verify_no_deadlock_bmc` returns and writes; a buffer it does not write is `none`. -/
structure BmcResult where
  noDeadlock : Bool
  schedule : Option (List Int)
  errorMsg : Option String
  deriving DecidableEq

/-- `smash_verify_no_deadlock_bmc`. -/
def verifyNoDeadlockBmc (solver : Solver) (sc : Scenario) (boundK : Int) : BmcResult :=
  match symEngineInit sc boundK with
  | none =>
    { noDeadlock := false, schedule := none, errorMsg := some "Failed to initialize symbolic engine" }
  | some e =>
    let (checked, found) := e.encode.check solver
    if found then
      { noDeadlock := false
        schedule := checked.getCounterexample.2.filter fun schedule => 0 < schedule.length
        errorMsg := some "Deadlock found via BMC" }
    else { noDeadlock := true, schedule := none, errorMsg := none }

end Smash
