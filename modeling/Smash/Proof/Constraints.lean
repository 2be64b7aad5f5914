import Mathlib.Algebra.Group.Action.Defs
import Mathlib.Algebra.Order.BigOperators.Group.List
import Mathlib.Algebra.Order.Ring.Nat
import Smash.Model.Smt

/-!
# What the exported constraints say

Each loop of `smash_smt_export` prints one assertion for each combination of steps that passes its tests.
`satisfies_export` says the same of the positions, without the loops.
-/

set_option autoImplicit false

namespace Smash

open OrderConstraints

variable {sc : Scenario} {σ : StepVar → Int}

/-! ## Steps -/

/-- `t` has a step `s`. -/
def Scenario.HasStep (sc : Scenario) (t : Int) (s : Nat) : Prop :=
  sc.IsThread t ∧ s < (sc.stepCount t).toNat

theorem Scenario.mem_stepIds {t : Int} {s : Nat} : s ∈ sc.stepIds t ↔ s < (sc.stepCount t).toNat :=
  List.mem_range

theorem Scenario.mem_stepVars {v : StepVar} : v ∈ sc.stepVars ↔ sc.HasStep v.tid v.step := by
  obtain ⟨t, s⟩ := v
  simp [Scenario.stepVars, Scenario.HasStep, Scenario.mem_stepIds]

theorem Scenario.nodup_stepVars (sc : Scenario) : sc.stepVars.Nodup := by
  refine List.nodup_flatMap.mpr ⟨fun t _ => ?_, ?_⟩
  · exact List.nodup_range.map fun s s' h => congrArg StepVar.step h
  · refine (nodup_upTo sc.threadCount).imp fun {t t'} hne => ?_
    intro v hv hv'
    obtain ⟨s, _, rfl⟩ := List.mem_map.mp hv
    obtain ⟨s', _, heq⟩ := List.mem_map.mp hv'
    exact hne (congrArg StepVar.tid heq).symm

/-- A critical section of `t` on `r`: a lock at `s` and the first unlock after it. -/
structure LockPair (sc : Scenario) (r t : Int) (s u : Nat) : Prop where
  step : sc.HasStep t s
  lock : (sc.steps t s).type = .mutexLock
  resource : (sc.steps t s).resourceId = r
  unlock : sc.matchingUnlock t s r = some u

/-- The matching unlock is the first one after the lock. -/
theorem matchingUnlock_eq_some {t r : Int} {s u : Nat} (h : sc.matchingUnlock t s r = some u) :
    s < u ∧ u < (sc.stepCount t).toNat ∧ (sc.steps t u).type = .mutexUnlock ∧
      (sc.steps t u).resourceId = r ∧ ∀ k, s < k → k < u →
        ¬ ((sc.steps t k).type = .mutexUnlock ∧ (sc.steps t k).resourceId = r) := by
  unfold Scenario.matchingUnlock Scenario.stepIds at h
  rw [List.find?_eq_some_iff_getElem] at h
  obtain ⟨hunlock, i, hi, hu, hfirst⟩ := h
  rw [List.length_drop, List.length_range] at hi
  simp only [List.getElem_drop, List.getElem_range] at hu hfirst
  refine ⟨by omega, by omega, (of_decide_eq_true hunlock).1, (of_decide_eq_true hunlock).2,
    fun k hk hku => ?_⟩
  have hnot := hfirst (k - (s + 1)) (by omega)
  rw [show s + 1 + (k - (s + 1)) = k by omega] at hnot
  rintro ⟨htype, hr⟩
  simp [htype, hr] at hnot

/-- A signal on `r`. -/
structure SignalStep (sc : Scenario) (r : Int) (v : StepVar) : Prop where
  step : sc.HasStep v.tid v.step
  signal : (sc.steps v.tid v.step).type = .semSignal
  resource : (sc.steps v.tid v.step).resourceId = r

theorem Scenario.mem_signalsOn {r : Int} {v : StepVar} : v ∈ sc.signalsOn r ↔ SignalStep sc r v := by
  obtain ⟨t, s⟩ := v
  simp only [Scenario.signalsOn, List.mem_flatMap, List.mem_map, List.mem_filter, decide_eq_true_eq,
    Scenario.mem_threadIds, Scenario.mem_stepIds, StepVar.mk.injEq]
  constructor
  · rintro ⟨t', ht, s', ⟨hs, htype, hr⟩, rfl, rfl⟩
    exact ⟨⟨ht, hs⟩, htype, hr⟩
  · rintro ⟨⟨ht, hs⟩, htype, hr⟩
    exact ⟨t, ht, s, ⟨hs, htype, hr⟩, rfl, rfl⟩

theorem Scenario.signalsOn_eq_nil {r : Int} : sc.signalsOn r = [] ↔ ¬ ∃ sig, SignalStep sc r sig := by
  rw [List.eq_nil_iff_forall_not_mem, not_exists]
  exact forall_congr' fun v => not_congr Scenario.mem_signalsOn

/-- A wait on the initially empty semaphore `r`. -/
structure EmptyWait (sc : Scenario) (r : Int) (v : StepVar) : Prop where
  step : sc.HasStep v.tid v.step
  wait : (sc.steps v.tid v.step).type = .semWait
  resource : (sc.steps v.tid v.step).resourceId = r
  empty : sc.semInit r ≤ 0

/-! ## Lines -/

theorem satisfies_asserted_append {ls ms : List SmtLine} :
    Satisfies σ (asserted (ls ++ ms)) ↔ Satisfies σ (asserted ls) ∧ Satisfies σ (asserted ms) := by
  rw [asserted, List.filterMap_append]
  exact satisfies_append

theorem satisfies_asserted_flatMap {α : Type} {xs : List α} {f : α → List SmtLine} :
    Satisfies σ (asserted (xs.flatMap f)) ↔ ∀ x ∈ xs, Satisfies σ (asserted (f x)) := by
  induction xs with
  | nil => simp [asserted, Satisfies]
  | cons x xs ih => rw [List.flatMap_cons, satisfies_asserted_append, List.forall_mem_cons, ih]

theorem satisfies_asserted_map {α : Type} {xs : List α} {f : α → Constraint StepVar} :
    Satisfies σ (asserted (xs.map fun x => .assert (f x))) ↔ ∀ x ∈ xs, (f x).holds σ := by
  rw [asserted, List.filterMap_map]
  simp [Satisfies, SmtLine.constraint, Function.comp_def]

theorem satisfies_asserted_assert {c : Constraint StepVar} :
    Satisfies σ (asserted [.assert c]) ↔ c.holds σ := by
  simp [asserted, SmtLine.constraint, Satisfies]

theorem satisfies_asserted_nil : Satisfies σ (asserted []) := by simp [asserted, Satisfies]

/-! ## The blocks -/

/-- Steps of a thread in their order. -/
def InProgramOrder (sc : Scenario) (σ : StepVar → Int) : Prop :=
  ∀ t s, sc.HasStep t (s + 1) → σ ⟨t, s⟩ < σ ⟨t, s + 1⟩

/-- Critical sections of different threads on the same mutex do not overlap. -/
def Exclusive (sc : Scenario) (σ : StepVar → Int) : Prop :=
  ∀ r t₁ s₁ u₁ t₂ s₂ u₂, LockPair sc r t₁ s₁ u₁ → LockPair sc r t₂ s₂ u₂ → t₁ < t₂ →
    σ ⟨t₁, u₁⟩ < σ ⟨t₂, s₂⟩ ∨ σ ⟨t₂, u₂⟩ < σ ⟨t₁, s₁⟩

/-- Each wait on an initially empty semaphore that is signalled at all comes after a signal. -/
def Signalled (sc : Scenario) (σ : StepVar → Int) : Prop :=
  ∀ r v, EmptyWait sc r v → (∃ sig, SignalStep sc r sig) → ∃ sig, SignalStep sc r sig ∧ σ sig < σ v

theorem satisfies_programOrder :
    Satisfies σ (asserted (smtProgramOrder sc)) ↔ InProgramOrder sc σ := by
  rw [smtProgramOrder, satisfies_asserted_flatMap]
  simp only [satisfies_asserted_map, List.mem_filter, Scenario.mem_threadIds, Scenario.mem_stepIds,
    decide_eq_true_eq, Constraint.holds]
  constructor
  · intro h t s hs
    exact h t hs.1 s ⟨Nat.lt_of_succ_lt hs.2, hs.2⟩
  · intro h t ht s hs
    exact h t s ⟨ht, hs.2⟩

theorem satisfies_mutexExclusivity :
    Satisfies σ (asserted (smtMutexExclusivity sc)) ↔ Exclusive sc σ := by
  rw [smtMutexExclusivity, satisfies_asserted_flatMap]
  constructor
  · intro h r t₁ s₁ u₁ t₂ s₂ u₂ hfirst hsecond hlt
    obtain ⟨⟨ht₁, hs₁⟩, hlock₁, hres₁, hunlock₁⟩ := hfirst
    obtain ⟨⟨ht₂, hs₂⟩, hlock₂, hres₂, hunlock₂⟩ := hsecond
    have houter := satisfies_asserted_flatMap.mp (h t₁ (Scenario.mem_threadIds.mpr ht₁)) s₁
      (Scenario.mem_stepIds.mpr hs₁)
    rw [if_neg (not_not_intro hlock₁), hres₁] at houter
    dsimp only at houter
    rw [hunlock₁] at houter
    have hinner := satisfies_asserted_flatMap.mp (satisfies_asserted_flatMap.mp houter t₂
      (List.mem_filter.mpr ⟨Scenario.mem_threadIds.mpr ht₂, decide_eq_true hlt⟩)) s₂
      (Scenario.mem_stepIds.mpr hs₂)
    rw [if_neg (not_not_intro hlock₂), if_neg (not_not_intro hres₂), hunlock₂,
      satisfies_asserted_assert] at hinner
    simpa [Constraint.holds] using hinner
  · intro h t₁ ht₁
    refine satisfies_asserted_flatMap.mpr fun s₁ hs₁ => ?_
    by_cases hlock₁ : (sc.steps t₁ s₁).type ≠ .mutexLock
    · rw [if_pos hlock₁]
      exact satisfies_asserted_nil
    rw [if_neg hlock₁]
    dsimp only
    cases hunlock₁ : sc.matchingUnlock t₁ s₁ (sc.steps t₁ s₁).resourceId with
    | none => exact satisfies_asserted_nil
    | some u₁ =>
      have hfirst : LockPair sc _ t₁ s₁ u₁ := ⟨⟨Scenario.mem_threadIds.mp ht₁,
        Scenario.mem_stepIds.mp hs₁⟩, not_not.mp hlock₁, rfl, hunlock₁⟩
      refine satisfies_asserted_flatMap.mpr fun t₂ ht₂ => satisfies_asserted_flatMap.mpr fun s₂ hs₂ => ?_
      obtain ⟨hthread₂, hlt⟩ := List.mem_filter.mp ht₂
      by_cases hlock₂ : (sc.steps t₂ s₂).type ≠ .mutexLock
      · rw [if_pos hlock₂]
        exact satisfies_asserted_nil
      rw [if_neg hlock₂]
      by_cases hres₂ : (sc.steps t₂ s₂).resourceId ≠ (sc.steps t₁ s₁).resourceId
      · rw [if_pos hres₂]
        exact satisfies_asserted_nil
      rw [if_neg hres₂]
      cases hunlock₂ : sc.matchingUnlock t₂ s₂ (sc.steps t₁ s₁).resourceId with
      | none => exact satisfies_asserted_nil
      | some u₂ =>
        have hsecond : LockPair sc _ t₂ s₂ u₂ := ⟨⟨Scenario.mem_threadIds.mp hthread₂,
          Scenario.mem_stepIds.mp hs₂⟩, not_not.mp hlock₂, not_not.mp hres₂, hunlock₂⟩
        rw [satisfies_asserted_assert]
        simpa [Constraint.holds] using
          h _ t₁ s₁ u₁ t₂ s₂ u₂ hfirst hsecond (of_decide_eq_true hlt)

/-- The array of signals is never full. -/
theorem take_signalsOn (hcount : sc.threadCount ≤ smashMaxThreads)
    (hsteps : ∀ t, sc.IsThread t → sc.stepCount t ≤ smashMaxSteps) (r : Int) :
    (sc.signalsOn r).take (smashMaxThreads * smashMaxSteps) = sc.signalsOn r := by
  refine List.take_of_length_le ?_
  unfold Scenario.signalsOn
  rw [List.length_flatMap]
  have hle : ∀ n ∈ sc.threadIds.map (fun t => (((sc.stepIds t).filter fun s =>
      (sc.steps t s).type = .semSignal ∧ (sc.steps t s).resourceId = r).map
        fun s => (⟨t, s⟩ : StepVar)).length), n ≤ smashMaxSteps := by
    intro n hn
    obtain ⟨t, ht, rfl⟩ := List.mem_map.mp hn
    rw [List.length_map]
    refine (List.length_filter_le _ _).trans ?_
    have := hsteps t (Scenario.mem_threadIds.mp ht)
    rw [Scenario.stepIds, List.length_range]
    omega
  refine (List.sum_le_card_nsmul _ _ hle).trans ?_
  rw [List.length_map, Scenario.threadIds, length_upTo, smul_eq_mul]
  have hthreads : sc.threadCount.toNat ≤ smashMaxThreads := by omega
  exact Nat.mul_le_mul_right _ hthreads

theorem satisfies_semaphoreOrdering (hcount : sc.threadCount ≤ smashMaxThreads)
    (hsteps : ∀ t, sc.IsThread t → sc.stepCount t ≤ smashMaxSteps) :
    Satisfies σ (asserted (smtSemaphoreOrdering sc)) ↔ Signalled sc σ := by
  have hsome : ∀ (r : Int) (v : StepVar),
      (Constraint.anyLess ((sc.signalsOn r).map fun sig => (sig, v))).holds σ ↔
        ∃ sig, SignalStep sc r sig ∧ σ sig < σ v := by
    intro r v
    simp [Constraint.holds, Scenario.mem_signalsOn]
  rw [smtSemaphoreOrdering, satisfies_asserted_flatMap]
  simp only [take_signalsOn hcount hsteps]
  constructor
  · rintro h r ⟨t, s⟩ ⟨⟨ht, hs⟩, hwait, rfl, hempty⟩ hsig
    have hlines := satisfies_asserted_flatMap.mp (h t (Scenario.mem_threadIds.mpr ht)) s
      (Scenario.mem_stepIds.mpr hs)
    rw [if_neg (not_not_intro hwait), if_neg (Int.not_lt.mpr hempty),
      if_neg fun hnil => Scenario.signalsOn_eq_nil.mp hnil hsig] at hlines
    exact (hsome _ _).mp (hlines _ (by simp [asserted, SmtLine.constraint]))
  · intro h t ht
    refine satisfies_asserted_flatMap.mpr fun s hs => ?_
    by_cases hwait : (sc.steps t s).type ≠ .semWait
    · rw [if_pos hwait]
      exact satisfies_asserted_nil
    rw [if_neg hwait]
    by_cases hinit : 0 < sc.semInit (sc.steps t s).resourceId
    · rw [if_pos hinit]
      exact satisfies_asserted_nil
    rw [if_neg hinit]
    by_cases hnil : sc.signalsOn (sc.steps t s).resourceId = []
    · rw [if_pos hnil]
      exact satisfies_asserted_nil
    rw [if_neg hnil]
    have hstep : EmptyWait sc _ ⟨t, s⟩ := ⟨⟨Scenario.mem_threadIds.mp ht, Scenario.mem_stepIds.mp hs⟩,
      not_not.mp hwait, rfl, Int.not_lt.mp hinit⟩
    have hsignal := not_not.mp (mt Scenario.signalsOn_eq_nil.mpr hnil)
    intro c hc
    -- The comment asserts nothing.
    obtain rfl : c = _ := List.mem_singleton.mp hc
    exact (hsome _ _).mpr (h _ _ hstep hsignal)

/-- **What the export says of the positions of the steps.** -/
theorem satisfies_smtExport (hcount : sc.threadCount ≤ smashMaxThreads)
    (hsteps : ∀ t, sc.IsThread t → sc.stepCount t ≤ smashMaxSteps) (name : String) (trace : Trace) :
    Satisfies σ (asserted (smtExport sc name trace)) ↔
      (∀ v ∈ sc.stepVars, 0 ≤ σ v) ∧ InProgramOrder sc σ ∧
        (sc.stepVars.Pairwise fun a b => σ a ≠ σ b) ∧ Exclusive sc σ ∧ Signalled sc σ := by
  have hsilent : ∀ ls : List SmtLine, asserted ls = [] → Satisfies σ (asserted ls) := fun ls hnil => by
    rw [hnil]
    exact satisfies_asserted_nil
  have hdeclare : asserted (sc.stepVars.map .declare) = [] := by
    rw [asserted, List.filterMap_map]
    exact List.filterMap_eq_nil_iff.mpr fun _ _ => rfl
  unfold smtExport
  simp only [satisfies_asserted_append, satisfies_asserted_map, satisfies_programOrder,
    satisfies_mutexExclusivity, satisfies_semaphoreOrdering hcount hsteps]
  have hdistinct : Satisfies σ (asserted [.comment "Distinctness", .assert (.distinct sc.stepVars), .blank])
      ↔ sc.stepVars.Pairwise fun a b => σ a ≠ σ b := satisfies_asserted_assert
  rw [hdistinct]
  constructor
  · rintro ⟨⟨⟨⟨⟨⟨⟨⟨⟨⟨⟨⟨⟨⟨_, _⟩, _⟩, hnonneg⟩, _⟩, _⟩, horder⟩, _⟩, hdist⟩, _⟩, hmutex⟩, _⟩, _⟩, hsem⟩, _⟩
    exact ⟨hnonneg, horder, hdist, hmutex, hsem⟩
  · rintro ⟨hnonneg, horder, hdist, hmutex, hsem⟩
    exact ⟨⟨⟨⟨⟨⟨⟨⟨⟨⟨⟨⟨⟨⟨hsilent _ rfl, hsilent _ hdeclare⟩, hsilent _ rfl⟩, hnonneg⟩, hsilent _ rfl⟩,
      hsilent _ rfl⟩, horder⟩, hsilent _ rfl⟩, hdist⟩, hsilent _ rfl⟩, hmutex⟩, hsilent _ rfl⟩,
      hsilent _ rfl⟩, hsem⟩, hsilent _ rfl⟩

end Smash
