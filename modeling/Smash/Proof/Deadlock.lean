import Smash.Proof.Exhaustive

/-!
# Deadlocks and running countdowns

`explore_dfs` counts a deadlock when no thread is READY and some thread is not DONE. The clock only ticks
inside `smash_execute_step`, and the explorer has nobody left to execute, so a countdown that is still
running is not waited for. `deadlocksFinal_iff` is the exact condition for every counted deadlock to be one,
over all configurations; the two halves are that the search records nothing but runs, and that plain
search at the largest bound records all of the runs that end this way.
-/

set_option autoImplicit false

namespace Smash

variable {sc : Scenario}

/-- At every deadlock that this search counts, no countdown is running, and however many calls follow, no
thread is READY once the clock of the next call has ticked. -/
def DeadlocksFinalAt (sc : Scenario) (cfg : Config) (stack : Nat → Saved) : Prop :=
  ∀ v ∈ (exploreSearch sc cfg stack).visits, v.kind = .deadlock →
    (∀ t, sc.IsThread t → (v.world.threads t).timed = false) ∧
    ∀ ts : List Int, (∀ u ∈ ts, sc.IsThread u) → ∀ t, sc.IsThread t →
      (((v.world.calls sc ts).tick sc).1.threads t).state ≠ .ready

/-- Every deadlock that a search of the scenario counts is one. -/
def DeadlocksFinal (sc : Scenario) : Prop :=
  ∀ (cfg : Config) (stack : Nat → Saved), DeadlocksFinalAt sc cfg stack

/-- No run of fewer than `n` steps leaves no thread READY, some thread not DONE, and some thread with ticks
to go. -/
def CountdownsEnd (sc : Scenario) (n : Nat) : Prop :=
  ∀ s w, CleanRun sc s w → s.length < n → Stuck sc w → allDone sc w = false →
    ∀ t, sc.IsThread t → (w.threads t).timed = false

/-- With no countdown running, a call on a thread that is not READY does nothing. -/
theorem executeStep_idle {w : World} {u : Int} (htimed : ∀ t, sc.IsThread t → (w.threads t).timed = false)
    (hu : (w.threads u).state ≠ .ready) : (w.executeStep sc u).world = w := by
  unfold World.executeStep World.runThread
  dsimp only
  rw [tick_eq_self htimed, if_pos hu]
  rfl

/-- A stuck state without a running countdown stays as it is. -/
theorem calls_stuck {w : World} (hstuck : Stuck sc w)
    (htimed : ∀ t, sc.IsThread t → (w.threads t).timed = false) (ts : List Int)
    (hts : ∀ u ∈ ts, sc.IsThread u) : w.calls sc ts = w := by
  induction ts with
  | nil => rfl
  | cons u ts ih =>
    have hu : (w.threads u).state ≠ .ready := fun h => hstuck u ⟨hts u List.mem_cons_self, h⟩
    show (w.executeStep sc u).world.calls sc ts = w
    rw [executeStep_idle htimed hu]
    exact ih fun x hx => hts x (List.mem_cons_of_mem _ hx)

/-- A stuck state without a running countdown is final. -/
theorem final_of_untimed {w : World} (hstuck : Stuck sc w)
    (htimed : ∀ t, sc.IsThread t → (w.threads t).timed = false) (ts : List Int)
    (hts : ∀ u ∈ ts, sc.IsThread u) {t : Int} (ht : sc.IsThread t) :
    (((w.calls sc ts).tick sc).1.threads t).state ≠ .ready := by
  intro hready
  rw [calls_stuck hstuck htimed ts hts, tick_eq_self htimed] at hready
  exact hstuck t ⟨ht, hready⟩

/-- Plain search counts a deadlock at every run that ends in one above its bound, … -/
theorem visit_of_deadlock (hv : sc.Valid) {cfg : Config} (hp : cfg.Plain) {s : List Int} {w : World}
    (hrun : CleanRun sc s w) (hlen : s.length < cfg.bound) (hstuck : Stuck sc w)
    (hdone : allDone sc w = false) : (⟨.deadlock, s, w⟩ : Visit) ∈ (exploreLedger sc cfg).visits := by
  rw [exploreLedger_visits_plain hv hp, List.mem_map]
  refine ⟨⟨.ended, s, w⟩, (Branching.mem_unfold _).mpr ⟨hrun, (collectRunnable_eq_nil hv).mpr hstuck, hlen⟩, ?_⟩
  simp [treeVisit, hdone]

/-- … and nowhere else. -/
theorem deadlock_of_visit (hv : sc.Valid) {cfg : Config} (hp : cfg.Plain) {v : Visit}
    (hmem : v ∈ (exploreLedger sc cfg).visits) (hkind : v.kind = .deadlock) :
    CleanRun sc v.schedule v.world ∧ v.schedule.length < cfg.bound ∧ Stuck sc v.world ∧
      allDone sc v.world = false := by
  rw [exploreLedger_visits_plain hv hp, List.mem_map] at hmem
  obtain ⟨⟨fate, path, state⟩, hnode, rfl⟩ := hmem
  have hok := (Branching.mem_unfold _).mp hnode
  cases fate with
  | ended =>
    by_cases hdone : allDone sc state = true
    · exact absurd hkind (by simp [treeVisit, hdone])
    · have hend : allDone sc state = false := by simpa using hdone
      simp only [treeVisit, hend]
      exact ⟨hok.1, hok.2.2, (collectRunnable_eq_nil hv).mp hok.2.1, trivial⟩
  | goesOn => exact absurd hkind (by simp [treeVisit])
  | cut =>
    refine absurd hkind ?_
    simp only [treeVisit]
    split <;> simp
  | broken t => exact absurd hkind (by simp [treeVisit])

/-- For plain search the bound is that of the search. -/
theorem deadlocksFinalAt_iff (hv : sc.Valid) {cfg : Config} (hp : cfg.Plain) (stack : Nat → Saved) :
    DeadlocksFinalAt sc cfg stack ↔ CountdownsEnd sc cfg.bound := by
  unfold DeadlocksFinalAt
  rw [exploreSearch_visits hv]
  constructor
  · intro h s w hrun hlen hstuck hdone
    exact (h _ (visit_of_deadlock hv hp hrun hlen hstuck hdone) rfl).1
  · intro h v hmem hkind
    obtain ⟨hrun, hlen, hstuck, hdone⟩ := deadlock_of_visit hv hp hmem hkind
    have htimed := h _ _ hrun hlen hstuck hdone
    exact ⟨htimed, fun ts hts t ht => final_of_untimed hstuck htimed ts hts ht⟩

/-- **Deadlocks are final exactly when no short run ends with a countdown still running**: for all
configurations together, no run of fewer than `SMASH_MAX_DEPTH` steps, and for each configuration of plain
search, no run shorter than its own bound. -/
theorem deadlocksFinal_iff (hv : sc.Valid) :
    (DeadlocksFinal sc ↔ CountdownsEnd sc smashMaxDepth) ∧
      ∀ (cfg : Config) (stack : Nat → Saved), cfg.Plain →
        (DeadlocksFinalAt sc cfg stack ↔ CountdownsEnd sc cfg.bound) := by
  refine ⟨⟨fun h => ?_, fun h cfg stack v hmem hkind => ?_⟩, fun cfg stack hp => deadlocksFinalAt_iff hv hp stack⟩
  · -- Plain search at the largest bound counts them all.
    have hp : Config.Plain ⟨false, false, smashMaxDepth, none, false⟩ := ⟨rfl, rfl, .inl rfl, rfl⟩
    exact (deadlocksFinalAt_iff hv hp fun _ => rootNode sc).mp (h _ _)
  · rw [exploreSearch_visits hv] at hmem
    have hok := exploreLedger_visitOk hv cfg v hmem
    unfold VisitOk at hok
    rw [hkind] at hok
    obtain ⟨hrun, hdone, hstuck, hlen⟩ := hok
    have htimed := h _ _ hrun hlen hstuck hdone
    exact ⟨htimed, fun ts hts t ht => final_of_untimed hstuck htimed ts hts ht⟩

/-- One thread, one timed wait of three ticks. -/
def loneTimedWait : Scenario := .ofSteps [[⟨.semTimedWait, 0, 3⟩]] [.semaphore] [0]

/-- A search of depth 1 does not come to its deadlock, and a search of depth 2 counts it. -/
theorem deadlocksFinal_iff_lone :
    (DeadlocksFinalAt loneTimedWait ⟨false, false, 1, none, false⟩ fun _ => rootNode loneTimedWait) ∧
      ¬ DeadlocksFinalAt loneTimedWait ⟨false, false, 2, none, false⟩ fun _ => rootNode loneTimedWait := by
  have hv : loneTimedWait.Valid := by decide
  have hp : ∀ n : Int, Config.Plain ⟨false, false, n, none, false⟩ := fun n => ⟨rfl, rfl, .inl rfl, rfl⟩
  refine ⟨((deadlocksFinal_iff hv).2 _ _ (hp 1)).mpr ?_, fun h => ?_⟩
  · intro s w hrun hlen hstuck
    have hbound : Config.bound ⟨false, false, 1, none, false⟩ = 1 := rfl
    rw [hbound, Nat.lt_one_iff, List.length_eq_zero_iff] at hlen
    subst hlen
    cases hrun
    exact absurd (by decide) (hstuck 0)
  · have hrun : CleanRun loneTimedWait [0] ((startWorld loneTimedWait).executeStep loneTimedWait 0).world :=
      .single ⟨by decide, by decide, rfl⟩
    have htimed := ((deadlocksFinal_iff hv).2 _ _ (hp 2)).mp h _ _ hrun (by decide)
      ((collectRunnable_eq_nil hv).mp (by decide)) (by decide) 0 (by decide)
    exact absurd htimed (by decide)

/-- The thread blocks for three ticks and the search counts a deadlock; the clock of the third call from
there makes the thread READY again. -/
theorem loneTimedWait_not_final :
    ¬ DeadlocksFinal loneTimedWait ∧
      ∃ v ∈ (exploreSearch loneTimedWait ⟨false, false, 0, none, false⟩
          fun _ => rootNode loneTimedWait).visits,
        v.kind = .deadlock ∧ (v.world.threads 0).timed = true ∧
          (((v.world.calls loneTimedWait [0, 0]).tick loneTimedWait).1.threads 0).state = .ready := by
  have hex : ∃ v ∈ (exploreSearch loneTimedWait ⟨false, false, 0, none, false⟩
      fun _ => rootNode loneTimedWait).visits,
      v.kind = .deadlock ∧ (v.world.threads 0).timed = true ∧
        (((v.world.calls loneTimedWait [0, 0]).tick loneTimedWait).1.threads 0).state = .ready := by
    decide +kernel
  refine ⟨fun h => ?_, hex⟩
  obtain ⟨v, hmem, hkind, htimed, _⟩ := hex
  have := (h _ _ v hmem hkind).1 0 (by decide)
  rw [htimed] at this
  exact absurd this (by simp)

end Smash
