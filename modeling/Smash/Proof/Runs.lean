import Mathlib.Logic.Function.Basic
import Smash.Lib.Transition
import Smash.Model.Spec

/-!
# Runs

Three systems over the live state, for three ways of driving the engine.

* `callSystem`: any call of `smash_execute_step` on a thread of the scenario, READY or not, as
  long as it does not set `failed`. "Every state reached from reset before a failure" is
  `(callSystem sc).Reach`.
* `cleanSystem`: what the explorer does. It chooses a READY thread, and goes on only if the step
  neither fails nor leaves a state that `smash_check_all` rejects.

* `readySystem`: in between, READY threads and no check.

A clean step is a call (`cleanSystem_reach`), so what is proved of the first holds of the second.
-/

set_option autoImplicit false

namespace Smash

/-! ## Accepted scenarios -/

/-- `smash_scenario_validate` accepts. -/
def Scenario.Valid (sc : Scenario) : Prop := scenarioValidate sc = none

instance (sc : Scenario) : Decidable sc.Valid := inferInstanceAs (Decidable (_ = none))

/-- What the acceptance says. -/
structure Scenario.Bounds (sc : Scenario) : Prop where
  threadCount_pos : 0 < sc.threadCount
  threadCount_le : sc.threadCount ≤ 16
  resourceCount_nonneg : 0 ≤ sc.resourceCount
  resourceCount_le : sc.resourceCount ≤ 16
  stepCount_nonneg : ∀ t, sc.IsThread t → 0 ≤ sc.stepCount t
  stepCount_le : ∀ t, sc.IsThread t → sc.stepCount t ≤ 255
  resourceId_ok : ∀ t, sc.IsThread t → ∀ pc a, sc.actionAt t pc = some a →
    a.resourceId = -1 ∨ sc.IsResource a.resourceId

theorem Scenario.Valid.bounds {sc : Scenario} (h : sc.Valid) : sc.Bounds := by
  unfold Scenario.Valid scenarioValidate at h
  split at h
  · exact absurd h (by simp)
  · rename_i htc
    split at h
    · exact absurd h (by simp)
    · rename_i hrc
      have hthread : ∀ t, sc.IsThread t →
          0 ≤ sc.stepCount t ∧ sc.stepCount t ≤ 255 ∧ ∀ s < (sc.stepCount t).toNat,
            (sc.steps t s).resourceId = -1 ∨ sc.IsResource (sc.steps t s).resourceId := by
        intro t ht
        have hone := List.findSome?_eq_none_iff.mp h t (Scenario.mem_threadIds.mpr ht)
        split at hone
        · exact absurd hone (by simp)
        · rename_i hcount
          refine ⟨by omega, by simp only [smashMaxSteps] at hcount; omega, fun s hs => ?_⟩
          have hstep := List.findSome?_eq_none_iff.mp hone s (List.mem_range.mpr hs)
          simp only [ite_eq_right_iff, reduceCtorEq, imp_false, smashNoResource] at hstep
          unfold Scenario.IsResource
          omega
      refine ⟨by omega, by simp only [smashMaxThreads] at htc; omega, by omega,
        by simp only [smashMaxResources] at hrc; omega, fun t ht => (hthread t ht).1,
        fun t ht => (hthread t ht).2.1, fun t ht pc a ha => ?_⟩
      unfold Scenario.actionAt at ha
      split at ha
      · cases ha
        exact (hthread t ht).2.2 pc (by omega)
      · exact absurd ha (by simp)

/-- A scenario as the tests write them: `memset` to zero, priorities 10, then the step lists, the
resource types and the initial semaphore counts. -/
def Scenario.ofSteps (steps : List (List Action)) (types : List ResourceType)
    (semInit : List Int) : Scenario where
  threadCount := steps.length
  resourceCount := types.length
  priorities i := if 0 ≤ i ∧ i < steps.length then 10 else 0
  steps t pc := ((steps.getD t.toNat []).getD pc ⟨.nop, 0, 0⟩)
  stepCount t := (steps.getD t.toNat []).length
  resTypes r := types.getD r.toNat .mutex
  semInit r := semInit.getD r.toNat 0
  associatedMutex _ := 0
  mbCapacity _ := 0
  stackSizes _ := 0

/-- `abba_deadlock` of `test_mutex_deadlock.c`. -/
def abbaDeadlock : Scenario :=
  .ofSteps
    [[⟨.mutexLock, 0, 0⟩, ⟨.mutexLock, 1, 0⟩, ⟨.mutexUnlock, 1, 0⟩, ⟨.mutexUnlock, 0, 0⟩],
      [⟨.mutexLock, 1, 0⟩, ⟨.mutexLock, 0, 0⟩, ⟨.mutexUnlock, 0, 0⟩, ⟨.mutexUnlock, 1, 0⟩]]
    [.mutex, .mutex] []

/-- One thread waits on a semaphore, the other signals it. -/
def signalWait : Scenario :=
  .ofSteps [[⟨.semWait, 0, 0⟩], [⟨.semSignal, 0, 0⟩]] [.semaphore] [0]

/-! ## The three systems -/

/-- A thread of the scenario that is READY. -/
def Scenario.Ready (sc : Scenario) (w : World) (t : Int) : Prop :=
  sc.IsThread t ∧ (w.threads t).state = .ready

instance (sc : Scenario) (w : World) (t : Int) : Decidable (sc.Ready w t) :=
  inferInstanceAs (Decidable (_ ∧ _))

/-- Calls of `smash_execute_step` from reset, before a failure. -/
def callSystem (sc : Scenario) : TransitionSystem World Int where
  init w := ∃ before : World, w = before.reset sc
  step w t w' := sc.IsThread t ∧ (w.executeStep sc t).fault = none ∧
    w' = (w.executeStep sc t).world

/-- The step of `t` sets `failed`, or leaves a state a check rejects. -/
def stepFails (sc : Scenario) (w : World) (t : Int) : Bool :=
  (w.executeStep sc t).fault.isSome || (checkAll sc (w.executeStep sc t).world).isSome

/-- The live state of a freshly initialised engine. -/
def startWorld (sc : Scenario) : World := World.zero.reset sc

/-- READY choices from a fresh engine, as long as nothing fails. -/
def cleanSystem (sc : Scenario) : TransitionSystem World Int where
  init w := w = startWorld sc
  step w t w' := sc.Ready w t ∧ stepFails sc w t = false ∧ w' = (w.executeStep sc t).world

/-- READY choices from any reset, before a failure; `smash_check_all` is not asked. -/
def readySystem (sc : Scenario) : TransitionSystem World Int :=
  (callSystem sc).restrict fun w t => (w.threads t).state = .ready

/-- The schedule `s` leads from a fresh engine to `w` without failing. -/
abbrev CleanRun (sc : Scenario) (s : List Int) (w : World) : Prop :=
  (cleanSystem sc).Run (startWorld sc) s w

variable {sc : Scenario}

theorem cleanRun_nil : CleanRun sc [] (startWorld sc) := TransitionSystem.Run.nil _

theorem fault_eq_none_of_not_fails {w : World} {t : Int} (h : stepFails sc w t = false) :
    (w.executeStep sc t).fault = none := by
  simp only [stepFails, Bool.or_eq_false_iff, Option.isSome_eq_false_iff,
    Option.isNone_iff_eq_none] at h
  exact h.1

theorem cleanSystem_reach {w : World} (h : (cleanSystem sc).Reach w) : (callSystem sc).Reach w := by
  induction h with
  | init hi => exact .init ⟨World.zero, hi⟩
  | step _ hst ih =>
    obtain ⟨hready, hok, heq⟩ := hst
    exact .step ih ⟨hready.1, fault_eq_none_of_not_fails hok, heq⟩

theorem readySystem_reach {w : World} (h : (readySystem sc).Reach w) : (callSystem sc).Reach w :=
  TransitionSystem.Reach.of_restrict h

/-- What the explorer does is done with READY threads. -/
theorem clean_ready {w w' : World} {ts : List Int} (h : (cleanSystem sc).Run w ts w') :
    (readySystem sc).Run w ts w' := by
  induction h with
  | nil => exact .nil _
  | cons hst _ ih =>
    obtain ⟨hready, hok, heq⟩ := hst
    exact .cons ⟨⟨hready.1, fault_eq_none_of_not_fails hok, heq⟩, hready.2⟩ ih

theorem CleanRun.reach {s : List Int} {w : World} (h : CleanRun sc s w) : (cleanSystem sc).Reach w :=
  TransitionSystem.Run.reach h (.init rfl)

/-- A schedule leads to one state only. -/
theorem CleanRun.unique {s : List Int} {w w' : World} (h : CleanRun sc s w)
    (h' : CleanRun sc s w') : w = w' := by
  suffices ∀ {u : World}, (cleanSystem sc).Run u s w → (cleanSystem sc).Run u s w' → w = w' from
    this h h'
  clear h h'
  intro u h h'
  induction h with
  | nil => cases h'; rfl
  | cons hst _ ih =>
    cases h' with
    | cons hst' hr' =>
      rw [hst'.2.2, ← hst.2.2] at hr'
      exact ih hr'

/-- The live state after calls on the threads of `ts`, in order. -/
def World.calls (sc : Scenario) (w : World) (ts : List Int) : World :=
  ts.foldl (fun w t => (w.executeStep sc t).world) w

/-- None of these calls leaves the scenario or sets `failed`. -/
def callsOk (sc : Scenario) (w : World) : List Int → Bool
  | [] => true
  | t :: ts => decide (sc.IsThread t) && (w.executeStep sc t).fault.isNone &&
      callsOk sc (w.executeStep sc t).world ts

theorem callSystem_run {w : World} {ts : List Int} (h : callsOk sc w ts = true) :
    (callSystem sc).Run w ts (w.calls sc ts) := by
  induction ts generalizing w with
  | nil => exact .nil w
  | cons t ts ih =>
    simp only [callsOk, Bool.and_eq_true, decide_eq_true_eq, Option.isNone_iff_eq_none] at h
    exact .cons ⟨h.1.1, h.1.2, rfl⟩ (ih h.2)

/-- The state that some calls make of a fresh engine is reached. -/
theorem reach_calls {ts : List Int} (h : callsOk sc (startWorld sc) ts = true) :
    (callSystem sc).Reach ((startWorld sc).calls sc ts) :=
  (callSystem_run h).reach (.init ⟨World.zero, rfl⟩)

/-- `C` holds of each of these calls. -/
def callsMeet (sc : Scenario) (C : World → Int → Bool) (w : World) : List Int → Bool
  | [] => true
  | t :: ts => C w t && callsMeet sc C (w.executeStep sc t).world ts

theorem restrict_run {C : World → Int → Prop} [∀ w t, Decidable (C w t)] {w : World}
    {ts : List Int} (h : callsOk sc w ts = true)
    (hC : callsMeet sc (fun w t => decide (C w t)) w ts = true) :
    ((callSystem sc).restrict C).Run w ts (w.calls sc ts) := by
  induction ts generalizing w with
  | nil => exact .nil w
  | cons t ts ih =>
    simp only [callsOk, Bool.and_eq_true, decide_eq_true_eq, Option.isNone_iff_eq_none] at h
    simp only [callsMeet, Bool.and_eq_true, decide_eq_true_eq] at hC
    exact .cons ⟨⟨h.1.1, h.1.2, rfl⟩, hC.1⟩ (ih h.2 hC.2)

/-- The state that calls which meet `C` make of a fresh engine is reached by such calls. -/
theorem restrict_reach_calls {C : World → Int → Prop} [∀ w t, Decidable (C w t)] {ts : List Int}
    (h : callsOk sc (startWorld sc) ts = true)
    (hC : callsMeet sc (fun w t => decide (C w t)) (startWorld sc) ts = true) :
    ((callSystem sc).restrict C).Reach ((startWorld sc).calls sc ts) :=
  (restrict_run h hC).reach (.init ⟨World.zero, rfl⟩)

/-- What holds of all threads, or of all resources, of a concrete scenario can be checked one by one. -/
theorem Scenario.forall_isThread {P : Int → Prop} (h : ∀ t ∈ sc.threadIds, P t) :
    ∀ t, sc.IsThread t → P t := fun t ht => h t (Scenario.mem_threadIds.mpr ht)

theorem Scenario.forall_isResource {P : Int → Prop} (h : ∀ r ∈ sc.resourceIds, P r) :
    ∀ r, sc.IsResource r → P r := fun r hr => h r (Scenario.mem_resourceIds.mpr hr)

/-- What holds of each entry of the step lists holds of the action at any `pc`. -/
theorem forall_actionAt {P : Int → Action → Prop}
    (h : ∀ t ∈ sc.threadIds, ∀ pc ∈ List.range (sc.stepCount t).toNat, P t (sc.steps t pc)) :
    ∀ t, sc.IsThread t → ∀ pc a, sc.actionAt t pc = some a → P t a := by
  intro t ht pc a ha
  unfold Scenario.actionAt at ha
  split at ha
  · cases ha
    exact h t (Scenario.mem_threadIds.mpr ht) pc (List.mem_range.mpr (by omega))
  · exact absurd ha (by simp)

theorem steps_of_actionAt {t : Int} {n : Nat} {a : Action} (h : sc.actionAt t n = some a) :
    sc.steps t n = a ∧ n < (sc.stepCount t).toNat := by
  unfold Scenario.actionAt at h
  split at h
  · exact ⟨Option.some.inj h, by omega⟩
  · exact absurd h (by simp)

/-! ## READY threads and DONE threads -/

theorem mem_collectRunnable (hv : sc.Valid) {w : World} {t : Int} :
    t ∈ collectRunnable sc w smashMaxThreads ↔ sc.Ready w t := by
  have hb := hv.bounds
  have hlen : (sc.threadIds.filter fun i => (w.threads i).state = .ready).length ≤ smashMaxThreads :=
    le_trans (List.length_filter_le _ _) (by
      have := hb.threadCount_le
      simp only [Scenario.threadIds, length_upTo, smashMaxThreads]
      omega)
  rw [collectRunnable, List.take_of_length_le hlen]
  simp [Scenario.Ready]

theorem sorted_collectRunnable (w : World) (max : Nat) : (collectRunnable sc w max).Pairwise (· < ·) :=
  ((sorted_upTo _).filter _).sublist (List.take_sublist _ _)

theorem nodup_collectRunnable (w : World) (max : Nat) : (collectRunnable sc w max).Nodup :=
  (sorted_collectRunnable w max).imp fun h => h.ne

/-- No thread is READY. -/
def Stuck (sc : Scenario) (w : World) : Prop := ∀ t, ¬ sc.Ready w t

theorem collectRunnable_eq_nil (hv : sc.Valid) {w : World} :
    collectRunnable sc w smashMaxThreads = [] ↔ Stuck sc w := by
  rw [List.eq_nil_iff_forall_not_mem]
  exact forall_congr' fun t => not_congr (mem_collectRunnable hv)

theorem allDone_iff {w : World} :
    allDone sc w = true ↔ ∀ t, sc.IsThread t → (w.threads t).state = .done := by
  simp [allDone]

theorem stuck_of_allDone {w : World} (h : allDone sc w = true) : Stuck sc w := by
  intro t ht
  have := allDone_iff.mp h t ht.1
  rw [ht.2] at this
  exact absurd this (by simp)

end Smash
