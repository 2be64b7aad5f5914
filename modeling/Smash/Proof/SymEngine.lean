import Smash.Model.SymEngine
import Smash.Proof.Constraints
import Smash.Proof.Forcing
import Smash.Proof.LockOrder
import Smash.Proof.SmtExport

/-!
# The symbolic engine

Two facts about the constraints of `sym_engine.c` decide what its answers are worth.

* The order of the steps of a thread is asserted of constants of its own, which occur nowhere else. What is
  said of the steps themselves is that they do not overlap and that waits come after signals, and
  `early` meets all of that: unlocks and signals first, everything else next, locks and waits last
  (`early_satisfies`). So the constraints agree with those of the export only where the order of two
  successive steps is forced by a signal (`encoders_agree_iff`).
* The constraints can therefore always be met, whether the scenario deadlocks or not, and a solver that
  answers says that they can (`bmc_verdict_iff`).
-/

set_option autoImplicit false

namespace Smash

open OrderConstraints ExchangeSort

variable {sc : Scenario}

/-! ## What is asserted -/

/-- Everything that the three encoders assert. -/
def symConstraints (sc : Scenario) : List (Constraint SymVar) :=
  symProgramOrder sc ++ symMutexExclusivity sc ++ symSemaphoreOrdering sc

theorem symEngineInit_eq_some {k : Int} {e : SymEngine} (h : symEngineInit sc k = some e) :
    sc.threadCount ≤ smashSymMaxThreads ∧ sc.resourceCount ≤ smashSymMaxResources ∧
      e.encode.assertions = symConstraints sc := by
  unfold symEngineInit at h
  split at h
  · exact absurd h (by simp)
  · split at h
    · exact absurd h (by simp)
    · rename_i hthreads hresources
      obtain rfl := Option.some.inj h
      exact ⟨Int.not_lt.mp hthreads, Int.not_lt.mp hresources, rfl⟩

/-- The loops over the steps of some threads. -/
theorem mem_stepLoops {α : Type} {c : α} {f : Int → Nat → List α} {ts : List Int} :
    c ∈ (ts.flatMap fun t => (sc.stepIds t).flatMap (f t)) ↔
      ∃ t ∈ ts, ∃ s < (sc.stepCount t).toNat, c ∈ f t s := by
  simp [Scenario.mem_stepIds]

theorem mem_symProgramOrder {c : Constraint SymVar} : c ∈ symProgramOrder sc ↔
    ∃ t s, sc.HasStep t (s + 1) ∧ c = .less (.progOrder t s) (.progOrderNext t s) := by
  simp only [symProgramOrder, List.mem_flatMap, List.mem_map, List.mem_filter, Scenario.mem_threadIds,
    Scenario.mem_stepIds, decide_eq_true_eq, Scenario.HasStep]
  constructor
  · rintro ⟨t, ht, s, ⟨_, hs⟩, rfl⟩
    exact ⟨t, s, ⟨ht, hs⟩, rfl⟩
  · rintro ⟨t, s, ⟨ht, hs⟩, rfl⟩
    exact ⟨t, ht, s, ⟨Nat.lt_of_succ_lt hs, hs⟩, rfl⟩

/-- The pairs of critical sections, of which the first may begin with a lock of another mutex. -/
theorem mem_symMutexExclusivity {c : Constraint SymVar} (h : c ∈ symMutexExclusivity sc) :
    ∃ m t₁ s₁ u₁ t₂ s₂ u₂, sc.HasStep t₁ s₁ ∧ (sc.steps t₁ s₁).type = .mutexLock ∧
      sc.matchingUnlock t₁ s₁ m = some u₁ ∧ LockPair sc m t₂ s₂ u₂ ∧ t₁ < t₂ ∧
      c = .anyLess [(.step ⟨t₁, u₁⟩, .step ⟨t₂, s₂⟩), (.step ⟨t₂, u₂⟩, .step ⟨t₁, s₁⟩)] := by
  obtain ⟨m, _, hm⟩ := List.mem_flatMap.mp h
  split at hm
  · exact absurd hm List.not_mem_nil
  obtain ⟨t₁, ht₁, s₁, hs₁, hfirst⟩ := mem_stepLoops.mp hm
  split at hfirst
  · exact absurd hfirst List.not_mem_nil
  rename_i hlock₁
  cases hu₁ : sc.matchingUnlock t₁ s₁ m with
  | none => simp [hu₁] at hfirst
  | some u₁ =>
    rw [hu₁] at hfirst
    obtain ⟨t₂, ht₂, s₂, hs₂, hsecond⟩ := mem_stepLoops.mp hfirst
    obtain ⟨hthread₂, hlt⟩ := List.mem_filter.mp ht₂
    split at hsecond
    · exact absurd hsecond List.not_mem_nil
    rename_i hlock₂
    split at hsecond
    · exact absurd hsecond List.not_mem_nil
    rename_i hres₂
    cases hu₂ : sc.matchingUnlock t₂ s₂ m with
    | none => simp [hu₂] at hsecond
    | some u₂ =>
      rw [hu₂] at hsecond
      exact ⟨m, t₁, s₁, u₁, t₂, s₂, u₂, ⟨Scenario.mem_threadIds.mp ht₁, hs₁⟩, not_not.mp hlock₁, hu₁,
        ⟨⟨Scenario.mem_threadIds.mp hthread₂, hs₂⟩, not_not.mp hlock₂, not_not.mp hres₂, hu₂⟩,
        of_decide_eq_true hlt, List.mem_singleton.mp hsecond⟩

/-- The signals that a wait on an initially empty semaphore has to come after. -/
theorem mem_symSemaphoreOrdering {c : Constraint SymVar} : c ∈ symSemaphoreOrdering sc ↔
    ∃ r v, EmptyWait sc r v ∧ (∃ sig, SignalStep sc r sig) ∧
      c = .anyLess ((sc.signalsOn r).map fun sig => (.step sig, .step v)) := by
  have hsome : ∀ r, (sc.signalsOn r).map SymVar.step ≠ [] ↔ ∃ sig, SignalStep sc r sig := by
    intro r
    rw [ne_eq, List.map_eq_nil_iff, Scenario.signalsOn_eq_nil, not_not]
  rw [symSemaphoreOrdering, mem_stepLoops]
  constructor
  · rintro ⟨t, ht, s, hs, hc⟩
    split at hc
    · exact absurd hc List.not_mem_nil
    rename_i hwait
    dsimp only at hc
    split at hc
    · exact absurd hc List.not_mem_nil
    rename_i hempty
    split at hc
    · exact absurd hc List.not_mem_nil
    rename_i hsignals
    refine ⟨_, ⟨t, s⟩, ⟨⟨Scenario.mem_threadIds.mp ht, hs⟩, not_not.mp hwait, rfl,
      Int.not_lt.mp hempty⟩, (hsome _).mp hsignals, ?_⟩
    rw [List.mem_singleton.mp hc, List.map_map]
    rfl
  · rintro ⟨r, ⟨t, s⟩, ⟨⟨ht, hs⟩, hwait, rfl, hempty⟩, hsig, rfl⟩
    refine ⟨t, Scenario.mem_threadIds.mpr ht, s, hs, ?_⟩
    rw [if_neg (not_not_intro hwait)]
    dsimp only
    rw [if_neg (Int.not_lt.mpr hempty), if_neg ((hsome _).mpr hsig), List.map_map]
    exact List.mem_singleton.mpr rfl

/-! ## Positions that meet it -/

/-- Positions under which unlocks and signals come early, and locks and waits late. -/
def early (sc : Scenario) (v : StepVar) : Int :=
  match (sc.steps v.tid v.step).type with
  | .mutexUnlock | .semSignal => 0
  | .mutexLock | .semWait => 2
  | _ => 1

/-- `early`, but `x` and `y` stand level between the others. -/
def level (sc : Scenario) (x y v : StepVar) : Int := if v = x ∨ v = y then 1 else early sc v

/-- The positions of the steps, and an order of the constants that stand for it. -/
def withOrder (σ : StepVar → Int) : SymVar → Int
  | .step v => σ v
  | .progOrder _ _ => 0
  | .progOrderNext _ _ => 1

theorem withOrder_programOrder (σ : StepVar → Int) : Satisfies (withOrder σ) (symProgramOrder sc) := by
  intro c hc
  obtain ⟨t, s, _, rfl⟩ := mem_symProgramOrder.mp hc
  exact Int.zero_lt_one

/-- What the constants of the steps have to meet. -/
structure MeetsSteps (sc : Scenario) (σ : StepVar → Int) : Prop where
  exclusive : ∀ m t₁ s₁ u₁ t₂ s₂ u₂, sc.HasStep t₁ s₁ → (sc.steps t₁ s₁).type = .mutexLock →
    sc.matchingUnlock t₁ s₁ m = some u₁ → LockPair sc m t₂ s₂ u₂ → t₁ < t₂ →
    σ ⟨t₁, u₁⟩ < σ ⟨t₂, s₂⟩ ∨ σ ⟨t₂, u₂⟩ < σ ⟨t₁, s₁⟩
  signalled : Signalled sc σ

theorem MeetsSteps.satisfies {σ : StepVar → Int} (h : MeetsSteps sc σ) :
    Satisfies (withOrder σ) (symConstraints sc) := by
  refine satisfies_append.mpr ⟨satisfies_append.mpr ⟨withOrder_programOrder σ, ?_⟩, ?_⟩
  · intro c hc
    obtain ⟨m, t₁, s₁, u₁, t₂, s₂, u₂, hstep, hlock, hunlock, hpair, hlt, rfl⟩ :=
      mem_symMutexExclusivity hc
    simpa [Constraint.holds, withOrder] using
      h.exclusive m t₁ s₁ u₁ t₂ s₂ u₂ hstep hlock hunlock hpair hlt
  · intro c hc
    obtain ⟨r, v, hwait, hsig, rfl⟩ := mem_symSemaphoreOrdering.mp hc
    obtain ⟨sig, hsignal, hbefore⟩ := h.signalled r v hwait hsig
    exact ⟨(.step sig, .step v), List.mem_map.mpr ⟨sig, Scenario.mem_signalsOn.mpr hsignal, rfl⟩, hbefore⟩

/-- A model says the waits come after signals. -/
theorem signalled_of_model {σ : StepVar → Int} {ρ : SymVar → Int} (hσ : ∀ v, ρ (.step v) = σ v)
    (h : Satisfies ρ (symConstraints sc)) : Signalled sc σ := by
  intro r v hwait hsig
  obtain ⟨p, hp, hlt⟩ := h _ (List.mem_append_right _
    (mem_symSemaphoreOrdering.mpr ⟨r, v, hwait, hsig, rfl⟩))
  obtain ⟨sig, hsignal, rfl⟩ := List.mem_map.mp hp
  rw [hσ, hσ] at hlt
  exact ⟨sig, Scenario.mem_signalsOn.mp hsignal, hlt⟩

theorem early_satisfies (sc : Scenario) : MeetsSteps sc (early sc) where
  exclusive m t₁ s₁ u₁ t₂ s₂ u₂ _ _ hunlock hpair _ := by
    obtain ⟨_, _, htype, _⟩ := matchingUnlock_eq_some hunlock
    refine .inl ?_
    simp [early, htype, hpair.lock]
  signalled r v hwait hsig := by
    obtain ⟨sig, hsignal⟩ := hsig
    refine ⟨sig, hsignal, ?_⟩
    simp [early, hsignal.signal, hwait.wait]

/-- The constraints can always be met. -/
theorem symConstraints_satisfiable (sc : Scenario) : Satisfiable (symConstraints sc) :=
  ⟨_, (early_satisfies sc).satisfies⟩

/-! ## The two encoders -/

/-- Step `s` of `t` signals what the next one waits for, and nothing else does. -/
def ForcedPair (sc : Scenario) (t : Int) (s : Nat) : Prop :=
  ∃ r, SignalStep sc r ⟨t, s⟩ ∧ EmptyWait sc r ⟨t, s + 1⟩ ∧ ∀ sig, SignalStep sc r sig → sig = ⟨t, s⟩

theorem level_of_ne {x y v : StepVar} (hx : v ≠ x) (hy : v ≠ y) : level sc x y v = early sc v :=
  if_neg (by simp [hx, hy])

/-- What comes early stays below what comes late, if one of the two is not moved. -/
theorem level_lt {x y v w : StepVar} (hv : early sc v = 0) (hw : early sc w = 2)
    (hone : (v ≠ x ∧ v ≠ y) ∨ (w ≠ x ∧ w ≠ y)) : level sc x y v < level sc x y w := by
  rcases hone with ⟨hx, hy⟩ | ⟨hx, hy⟩
  · rw [level_of_ne hx hy, hv, level]
    split <;> omega
  · rw [level_of_ne hx hy, hw, level]
    split <;> omega

theorem early_unlock {t m : Int} {s u : Nat} (h : sc.matchingUnlock t s m = some u) :
    early sc ⟨t, u⟩ = 0 := by
  obtain ⟨_, _, htype, _⟩ := matchingUnlock_eq_some h
  simp [early, htype]

theorem LockPair.early {r t : Int} {s u : Nat} (h : LockPair sc r t s u) : early sc ⟨t, s⟩ = 2 := by
  simp [Smash.early, h.lock]

theorem SignalStep.early {r : Int} {v : StepVar} (h : SignalStep sc r v) : early sc v = 0 := by
  simp [Smash.early, h.signal]

theorem EmptyWait.early {r : Int} {v : StepVar} (h : EmptyWait sc r v) : early sc v = 2 := by
  simp [Smash.early, h.wait]

/-- The order of two successive steps can be turned round, unless it is forced. -/
theorem unordered_of_not_forced {t : Int} {s : Nat} (hnot : ¬ ForcedPair sc t s) :
    ∃ σ, MeetsSteps sc σ ∧ ¬ σ ⟨t, s⟩ < σ ⟨t, s + 1⟩ := by
  by_cases hlt : early sc ⟨t, s⟩ < early sc ⟨t, s + 1⟩
  swap
  · exact ⟨early sc, early_satisfies sc, hlt⟩
  refine ⟨level sc ⟨t, s⟩ ⟨t, s + 1⟩, ⟨?_, ?_⟩, by simp [level]⟩
  · intro m t₁ s₁ u₁ t₂ s₂ u₂ _ _ hunlock hpair hne
    refine .inl (level_lt (early_unlock hunlock) hpair.early ?_)
    -- The two steps are of one thread, so they are not both of the constraint.
    by_cases ht : t₁ = t
    · exact .inr ⟨by simp; omega, by simp; omega⟩
    · exact .inl ⟨by simp [ht], by simp [ht]⟩
  · intro r v hwait hsig
    have hfirst : v ≠ ⟨t, s⟩ := by
      rintro rfl
      have hlate := hwait.early
      have hmost : early sc ⟨t, s + 1⟩ ≤ 2 := by
        unfold early
        split <;> omega
      omega
    by_cases hsecond : v = ⟨t, s + 1⟩
    · subst hsecond
      obtain ⟨sig, hsignal, hother⟩ : ∃ sig, SignalStep sc r sig ∧ sig ≠ ⟨t, s⟩ := by
        by_contra hall
        push Not at hall
        obtain ⟨sig, hsignal⟩ := hsig
        exact hnot ⟨r, hall sig hsignal ▸ hsignal, hwait, hall⟩
      have hsigned : sig ≠ ⟨t, s + 1⟩ := by
        rintro rfl
        have := hsignal.early
        have := hwait.early
        omega
      exact ⟨sig, hsignal, level_lt hsignal.early hwait.early (.inl ⟨hother, hsigned⟩)⟩
    · obtain ⟨sig, hsignal⟩ := hsig
      exact ⟨sig, hsignal, level_lt hsignal.early hwait.early (.inr ⟨hfirst, hsecond⟩)⟩

/-- The positions of the steps are those of a model of `cs`. -/
def ExtendsToModel (cs : List (Constraint SymVar)) (σ : StepVar → Int) : Prop :=
  ∃ ρ, (∀ v, ρ (.step v) = σ v) ∧ Satisfies ρ cs

/-- The positions meet the three blocks of the export. -/
def MeetsExport (sc : Scenario) (σ : StepVar → Int) : Prop :=
  Satisfies σ (asserted (smtProgramOrder sc)) ∧ Satisfies σ (asserted (smtMutexExclusivity sc)) ∧
    Satisfies σ (asserted (smtSemaphoreOrdering sc))

/-- Where all pairs are forced no thread locks anything that it unlocks. -/
theorem not_locks_of_forced (hall : ∀ t s, sc.HasStep t (s + 1) → ForcedPair sc t s) {t m : Int}
    {s u : Nat} (hstep : sc.HasStep t s) (hlock : (sc.steps t s).type = .mutexLock) :
    sc.matchingUnlock t s m ≠ some u := by
  intro hunlock
  obtain ⟨hlt, hlast, _⟩ := matchingUnlock_eq_some hunlock
  obtain ⟨r, hsignal, _⟩ := hall t s ⟨hstep.1, by omega⟩
  have htype := hsignal.signal
  rw [hlock] at htype
  exact absurd htype (by decide)

/-- **When the two encoders agree**: where every step after the first of a thread is a wait whose only signal
is the step before it. -/
theorem encoders_agree_iff {k : Int} {e : SymEngine} (hinit : symEngineInit sc k = some e)
    (hsteps : ∀ t, sc.IsThread t → sc.stepCount t ≤ smashSymMaxSteps) :
    (∀ σ, ExtendsToModel e.encode.assertions σ ↔ MeetsExport sc σ) ↔
      ∀ t s, sc.HasStep t (s + 1) → ForcedPair sc t s := by
  obtain ⟨hthreads, _, hencode⟩ := symEngineInit_eq_some hinit
  have hsteps' : ∀ t, sc.IsThread t → sc.stepCount t ≤ smashMaxSteps := fun t ht =>
    (hsteps t ht).trans (by decide)
  have hexport : ∀ σ, MeetsExport sc σ ↔ InProgramOrder sc σ ∧ Exclusive sc σ ∧ Signalled sc σ :=
    fun σ => and_congr satisfies_programOrder
      (and_congr satisfies_mutexExclusivity (satisfies_semaphoreOrdering hthreads hsteps'))
  rw [hencode]
  constructor
  · intro hagree t s hstep
    by_contra hnot
    obtain ⟨σ, hmeets, hunordered⟩ := unordered_of_not_forced hnot
    have hexported := (hagree σ).mp ⟨withOrder σ, fun _ => rfl, hmeets.satisfies⟩
    exact hunordered (((hexport σ).mp hexported).1 t s hstep)
  · intro hall σ
    rw [hexport]
    constructor
    · rintro ⟨ρ, hσ, hmodel⟩
      have hsignalled := signalled_of_model hσ hmodel
      refine ⟨fun t s hstep => ?_, ?_, hsignalled⟩
      · -- The wait comes after some signal, and there is only one.
        obtain ⟨r, hsignal, hwait, honly⟩ := hall t s hstep
        obtain ⟨sig, hsig, hbefore⟩ := hsignalled r _ hwait ⟨_, hsignal⟩
        rwa [honly sig hsig] at hbefore
      · intro r t₁ s₁ u₁ t₂ s₂ u₂ hfirst _ _
        exact absurd hfirst.unlock (not_locks_of_forced hall hfirst.step hfirst.lock)
    · rintro ⟨_, _, hsignalled⟩
      refine ⟨withOrder σ, fun _ => rfl, MeetsSteps.satisfies ⟨?_, hsignalled⟩⟩
      intro m t₁ s₁ u₁ t₂ s₂ u₂ hstep hlock hunlock _ _
      exact absurd hunlock (not_locks_of_forced hall hstep hlock)

/-- A thread that waits for what it has just signalled. -/
def selfSignal : Scenario :=
  .ofSteps [[⟨.semSignal, 0, 0⟩, ⟨.semWait, 0, 0⟩]] [.semaphore] [0]

theorem encoders_agree_iff_selfSignal : ∃ e, symEngineInit selfSignal 10 = some e ∧
    ((∀ σ, ExtendsToModel e.encode.assertions σ ↔ MeetsExport selfSignal σ) ↔
      ∀ t s, selfSignal.HasStep t (s + 1) → ForcedPair selfSignal t s) :=
  ⟨_, rfl, encoders_agree_iff (k := 10) rfl (Scenario.forall_isThread (by decide))⟩

theorem abbaDeadlock_ordered : abbaDeadlock.Ordered where
  only := forall_actionAt (P := fun _ a => a.type.ordered = true) (by decide)
  operand := abbaDeadlock_matching.operand

/-- The engine accepts positions of the steps of `abbaDeadlock` that the export rejects. -/
theorem abbaDeadlock_disagrees : ¬ ∀ sc : Scenario, sc.Ordered → ∀ k e, symEngineInit sc k = some e →
    (∀ t, sc.IsThread t → sc.stepCount t ≤ smashSymMaxSteps) →
    ∀ σ, ExtendsToModel e.encode.assertions σ ↔ MeetsExport sc σ := by
  intro hall
  have hagree := hall abbaDeadlock abbaDeadlock_ordered 10 _ rfl (Scenario.forall_isThread (by decide))
  have hexported := (hagree (early abbaDeadlock)).mp
    ⟨withOrder _, fun _ => rfl, (early_satisfies abbaDeadlock).satisfies⟩
  have hordered := satisfies_programOrder.mp hexported.1 0 0 ⟨by decide, by decide⟩
  exact absurd hordered (by decide)

/-! ## The schedule of a model -/

/-- The schedule has the threads of the steps that the model places, in the order of their positions. -/
theorem getCounterexample_schedule {e : SymEngine} {schedule : List Int}
    (h : e.getCounterexample.2 = some schedule) :
    ∃ (model : SymVar → Option Int) (placed : List (StepVar × Int)),
      e.model = some model ∧ placed.Perm (modelPositions e.scenario model) ∧
      placed.Pairwise (fun p q => p.2 ≤ q.2) ∧ schedule = placed.map fun p => p.1.tid := by
  unfold SymEngine.getCounterexample at h
  split at h
  · exact absurd h (by simp)
  · cases hmodel : e.model with
    | none => simp [hmodel] at h
    | some model =>
      rw [hmodel] at h
      exact ⟨model, _, rfl, exchangeSort_perm Prod.snd _, exchangeSort_sorted Prod.snd _,
        (Option.some.inj h).symm⟩

/-! ## The verdict -/

/-- What is known of the solver: an answer other than UNKNOWN is right. -/
structure Solver.Sound (solver : Solver) : Prop where
  sat : ∀ cs model, solver cs = .sat model → Satisfiable cs
  unsat : ∀ cs, solver cs = .unsat → ¬ Satisfiable cs

/-- Some run reaches a deadlock. -/
def CanDeadlock (sc : Scenario) : Prop := ∃ w, (callSystem sc).Reach w ∧ AtDeadlock sc w

/-- The verdict means what it says. -/
def VerdictRight (sc : Scenario) (verdict : Bool) : Prop :=
  (verdict = true → ¬ CanDeadlock sc) ∧ (verdict = false → CanDeadlock sc)

/-- The verdict is that there is no deadlock when the solver gives up, and only then. -/
theorem verifyNoDeadlockBmc_verdict {solver : Solver} (hsound : solver.Sound) {k : Int} {e : SymEngine}
    (hinit : symEngineInit sc k = some e) :
    (verifyNoDeadlockBmc solver sc k).noDeadlock = true ↔ solver (symConstraints sc) = .unknown := by
  obtain ⟨_, _, hencode⟩ := symEngineInit_eq_some hinit
  unfold verifyNoDeadlockBmc
  rw [hinit]
  dsimp only
  unfold SymEngine.check
  rw [hencode]
  cases hanswer : solver (symConstraints sc) with
  | sat model => simp
  | unsat => exact absurd (symConstraints_satisfiable sc) (hsound.unsat _ hanswer)
  | unknown => simp

/-- **When the verdict is right**: when the solver gives up on a scenario that cannot deadlock, or answers on
one that can. -/
theorem bmc_verdict_iff {solver : Solver} (hsound : solver.Sound) {k : Int} {e : SymEngine}
    (hinit : symEngineInit sc k = some e) :
    VerdictRight sc (verifyNoDeadlockBmc solver sc k).noDeadlock ↔
      (solver (symConstraints sc) = .unknown ↔ ¬ CanDeadlock sc) := by
  rw [← verifyNoDeadlockBmc_verdict hsound hinit]
  unfold VerdictRight
  cases (verifyNoDeadlockBmc solver sc k).noDeadlock <;> simp

/-- A solver that tries one assignment. -/
def tryOne (ρ : SymVar → Int) : Solver := fun cs =>
  if Satisfies ρ cs then .sat fun v => some (ρ v) else .unknown

theorem tryOne_sound (ρ : SymVar → Int) : (tryOne ρ).Sound where
  sat cs model h := by
    unfold tryOne at h
    split at h
    · exact ⟨ρ, ‹_›⟩
    · exact absurd h (by simp)
  unsat cs h := by
    unfold tryOne at h
    split at h <;> exact absurd h (by simp)

/-- `safe_mutex_ordering` of `test_sym_bmc.c`, for which the solver finds a model. -/
theorem bmc_verdict_iff_safeOrdering :
    let solver := tryOne (withOrder (early safeOrdering))
    VerdictRight safeOrdering (verifyNoDeadlockBmc solver safeOrdering 10).noDeadlock ↔
      (solver (symConstraints safeOrdering) = .unknown ↔ ¬ CanDeadlock safeOrdering) :=
  bmc_verdict_iff (k := 10) (tryOne_sound _) rfl

/-- It has no deadlock, and the verdict is that it has one. -/
theorem safeOrdering_misjudged : ¬ ∀ solver : Solver, solver.Sound → ∀ sc : Scenario, sc.Ordered →
    (∀ t, sc.IsThread t → sc.stepCount t ≤ smashSymMaxSteps) → ∀ k e, symEngineInit sc k = some e →
    VerdictRight sc (verifyNoDeadlockBmc solver sc k).noDeadlock := by
  intro hall
  have hordered : safeOrdering.Ordered :=
    ⟨forall_actionAt (P := fun _ a => a.type.ordered = true) (by decide),
      safeOrdering_lockOrdered.mutexOnly.core.operand⟩
  have hright := hall (tryOne (withOrder (early safeOrdering))) (tryOne_sound _) safeOrdering hordered
    (Scenario.forall_isThread (by decide)) 10 _ rfl
  obtain ⟨w, hw, hstuck, hnot⟩ := hright.2 (by decide +kernel)
  rw [lockOrdered_allDone safeOrdering_lockOrdered hw hstuck] at hnot
  exact absurd hnot (by decide)

end Smash
