import Smash.Lib.OrderConstraints
import Smash.Model.Types

/-!
# The SMT export (`smt.c`)

`smash_smt_export` prints the scheduling constraints of a scenario for a solver. The model lists the
lines it prints, and keeps what an `assert` says as a `Constraint` over the step variables; `SmtLine.render`
is the text of a line. The scenario's name and the trace's length only appear in comments.
-/

set_option autoImplicit false

namespace Smash

open OrderConstraints

/-! ## The variables -/

/-- `step_T<tid>_<step>`, the position of a step in the global order. -/
structure StepVar where
  tid : Int
  step : Nat
  deriving DecidableEq

def StepVar.name (v : StepVar) : String := s!"step_T{v.tid}_{v.step}"

/-- The step indices of a thread. -/
def Scenario.stepIds (sc : Scenario) (t : Int) : List Nat := List.range (sc.stepCount t).toNat

/-- The step variables, in the order of the loops. -/
def Scenario.stepVars (sc : Scenario) : List StepVar :=
  sc.threadIds.flatMap fun t => (sc.stepIds t).map fun s => ⟨t, s⟩

/-- The search for a matching unlock: the first unlock of `res` after step `s`. -/
def Scenario.matchingUnlock (sc : Scenario) (t : Int) (s : Nat) (res : Int) : Option Nat :=
  ((sc.stepIds t).drop (s + 1)).find? fun k =>
    (sc.steps t k).type = .mutexUnlock ∧ (sc.steps t k).resourceId = res

/-- The steps that signal `res`. -/
def Scenario.signalsOn (sc : Scenario) (res : Int) : List StepVar :=
  sc.threadIds.flatMap fun t =>
    ((sc.stepIds t).filter fun s =>
      (sc.steps t s).type = .semSignal ∧ (sc.steps t s).resourceId = res).map fun s => ⟨t, s⟩

/-! ## The lines -/

/-- What the export prints. -/
inductive SmtLine where
  | blank
  | comment (text : String)
  | setLogic
  | declare (v : StepVar)
  | assert (c : Constraint StepVar)
  | checkSat
  | getModel

/-- `(< a b)`. -/
def renderLess (p : StepVar × StepVar) : String := s!"(< {p.1.name} {p.2.name})"

/-- The term inside an `assert`. -/
def renderConstraint : Constraint StepVar → String
  | .nonneg v => s!"(>= {v.name} 0)"
  | .less a b => renderLess (a, b)
  | .distinct vs => "(distinct" ++ String.join (vs.map fun v => " " ++ v.name) ++ ")"
  | .anyLess pairs => "(or" ++ String.join (pairs.map fun p => " " ++ renderLess p) ++ ")"

def SmtLine.render : SmtLine → String
  | .blank => ""
  | .comment text => "; " ++ text
  | .setLogic => "(set-logic QF_LIA)"
  | .declare v => s!"(declare-const {v.name} Int)"
  | .assert c => s!"(assert {renderConstraint c})"
  | .checkSat => "(check-sat)"
  | .getModel => "(get-model)"

/-- The constraint that a line asserts. -/
def SmtLine.constraint : SmtLine → Option (Constraint StepVar)
  | .assert c => some c
  | _ => none

/-! ## The constraints -/

/-- Per-thread program order. -/
def smtProgramOrder (sc : Scenario) : List SmtLine :=
  sc.threadIds.flatMap fun t =>
    ((sc.stepIds t).filter fun s => s + 1 < (sc.stepCount t).toNat).map fun s =>
      .assert (.less ⟨t, s⟩ ⟨t, s + 1⟩)

/-- Non-overlap of the lock-unlock pairs of two threads on the same mutex. -/
def smtMutexExclusivity (sc : Scenario) : List SmtLine :=
  sc.threadIds.flatMap fun t1 => (sc.stepIds t1).flatMap fun s1 =>
    if (sc.steps t1 s1).type ≠ .mutexLock then []
    else
      let res1 := (sc.steps t1 s1).resourceId
      match sc.matchingUnlock t1 s1 res1 with
      | none => []
      | some u1 =>
        (sc.threadIds.filter fun t2 => t1 < t2).flatMap fun t2 => (sc.stepIds t2).flatMap fun s2 =>
          if (sc.steps t2 s2).type ≠ .mutexLock then []
          else if (sc.steps t2 s2).resourceId ≠ res1 then []
          else
            match sc.matchingUnlock t2 s2 res1 with
            | none => []
            | some u2 => [.assert (.anyLess [(⟨t1, u1⟩, ⟨t2, s2⟩), (⟨t2, u2⟩, ⟨t1, s1⟩)])]

/-- A prior signal for each wait on an initially empty semaphore. The array of signals has room for every
step of every thread. -/
def smtSemaphoreOrdering (sc : Scenario) : List SmtLine :=
  sc.threadIds.flatMap fun t1 => (sc.stepIds t1).flatMap fun s1 =>
    if (sc.steps t1 s1).type ≠ .semWait then []
    else
      let res := (sc.steps t1 s1).resourceId
      if 0 < sc.semInit res then []
      else
        let signals := (sc.signalsOn res).take (smashMaxThreads * smashMaxSteps)
        if signals = [] then []
        else
          [.comment s!"SEM {res}: wait T{t1}_{s1} requires a prior signal",
            .assert (.anyLess (signals.map fun sig => (sig, ⟨t1, s1⟩)))]

/-- `smash_smt_export`, for a scenario called `name`. -/
def smtExport (sc : Scenario) (name : String) (trace : Trace) : List SmtLine :=
  [.comment "SMASH SMT-LIB2 export", .comment s!"Scenario: {name}",
    .comment s!"Schedule length: {trace.schedule.count}", .blank, .setLogic, .blank] ++
  sc.stepVars.map .declare ++ [.blank] ++
  sc.stepVars.map (fun v => .assert (.nonneg v)) ++ [.blank] ++
  [.comment "Program order"] ++ smtProgramOrder sc ++ [.blank] ++
  [.comment "Distinctness", .assert (.distinct sc.stepVars), .blank] ++
  [.comment "Mutex exclusivity constraints"] ++ smtMutexExclusivity sc ++ [.blank] ++
  [.comment "Semaphore ordering constraints"] ++ smtSemaphoreOrdering sc ++
  [.blank, .checkSat, .getModel]

/-- The text of the file. -/
def smtText (lines : List SmtLine) : String := String.join (lines.map fun line => line.render ++ "\n")

/-- The constraints that lines assert. -/
def asserted (lines : List SmtLine) : List (Constraint StepVar) := lines.filterMap SmtLine.constraint

end Smash
