import Smash.Proof.Priority

/-!
# Where priorities come from

Exact priorities (`PrioExact`) need not be the right ones: two threads that hold each other up could keep a
priority alive that nobody has of his own. That does not happen. In every reached state of a core scenario
each priority is the base priority of some thread that is held up, directly or not, by the one that has it
(`reach_sourced`). So priorities are a function of the base priorities and of who holds up whom
(`prio_determined`): each is the greatest base priority among the threads that are held up along a chain that
ends at its bearer, however long the chain is (`prio_transitive`).
-/

set_option autoImplicit false

namespace Smash

open Inheritance

variable {sc : Scenario}

/-- Every priority is somebody's own. -/
def PrioSourced (sc : Scenario) (w : World) : Prop :=
  ∀ t ∈ sc.threadSet, Sourced w.basePrio (w.heldUpBy sc) w.prio t

/-- **Blocking on a mutex**: what is lifted is lifted to the priority of the thread that blocks. -/
theorem PrioSourced.block {w : World} (hinv : CoreInv sc w) {tid r : Int} (htid : sc.IsThread tid)
    (hr : sc.IsResource r) (hown : (w.resources r).owner ≠ -1)
    (hready : (w.threads tid).state = .ready) (h : PrioSourced sc w) :
    PrioSourced sc (boost sc (w.threads tid).priority sc.threadCount.toNat (w.resources r).owner
      (w.enqueue tid r .blockedMutex)) := by
  have hnone : w.heldUpBy sc tid = none := heldUpBy_ready hready
  have hsub : ∀ u t, w.heldUpBy sc u = some t →
      Function.update (w.heldUpBy sc) tid (some (w.resources r).owner) u = some t := by
    intro u t hu
    rw [Function.update_of_ne]
    · exact hu
    · rintro rfl
      rw [hnone] at hu
      exact absurd hu (by simp)
  unfold PrioSourced
  rw [basePrio_boost, basePrio_enqueue, heldUpBy_block hinv htid hr hown,
    prio_block hinv htid hr hown]
  intro t ht
  rcases raise_cases (Function.update (w.heldUpBy sc) tid (some (w.resources r).owner)) (w.prio tid)
    sc.threadCount.toNat (w.resources r).owner w.prio t with hsame | ⟨hlift, _, hreach⟩
  · obtain ⟨u, hu, hbase⟩ := h t ht
    exact ⟨u, hu.mono hsub, by rw [hsame, hbase]⟩
  · obtain ⟨u, hu, hbase⟩ := h tid (Scenario.mem_threadSet.mpr htid)
    have hwait : Function.update (w.heldUpBy sc) tid (some (w.resources r).owner) tid
        = some (w.resources r).owner := Function.update_self ..
    exact ⟨u, (hu.mono hsub).trans (.head hwait hreach), by rw [hlift, hbase]⟩

/-- **Unlocking a mutex**: only threads held up by the one that unlocks are held up by somebody else. -/
theorem PrioSourced.unlock (hc : sc.Core) {w : World} (hw : (callSystem sc).Reach w) {tid : Int}
    {a : Action} (hk : a.type = .mutexUnlock) (htid : sc.IsThread tid)
    (hready : (w.threads tid).state = .ready)
    (hown : (w.resources a.resourceId).owner = tid) (htop : (w.threads tid).ownedTopIs a.resourceId = true)
    (hw' : (callSystem sc).Reach ((handOver (lowered sc w tid a.resourceId) a.resourceId).1.advance tid))
    (h : PrioSourced sc w) :
    PrioSourced sc ((handOver (lowered sc w tid a.resourceId) a.resourceId).1.advance tid) := by
  have hinv := core_reach hc hw
  obtain ⟨hother, hprio, hbase⟩ := unlock_elsewhere hk hown htop
  generalize (handOver (lowered sc w tid a.resourceId) a.resourceId).1.advance tid = w'
    at hw' hother hprio hbase ⊢
  have hkeep : ∀ s u t, s ≠ a.resourceId → sc.IsResource s → sc.resTypes s = .mutex → 0 ≤ t →
      (w.resources s).owner = t → u ∈ (w.resources s).waiters.toList →
      w'.heldUpBy sc u = some t := by
    intro s u t hne hs htype h0 hsown hmem
    exact (heldUpBy_eq_some hc hw').mpr ⟨h0, s, hs, htype, by rw [hother s hne]; exact hsown,
      by rw [hother s hne]; exact hmem⟩
  -- A chain to another thread does not pass the one that unlocks: that one is READY.
  have hpath : ∀ u t, Reaches (w.heldUpBy sc) u t → t ≠ tid → Reaches (w'.heldUpBy sc) u t := by
    intro u t hreach
    induction hreach with
    | refl => exact fun _ => .refl
    | @tail b c _ hbc ih =>
      intro hne
      have hb : b ≠ tid := by
        rintro rfl
        rw [heldUpBy_ready hready] at hbc
        exact absurd hbc (by simp)
      obtain ⟨h0, s, hs, htype, hsown, hmem⟩ := (heldUpBy_eq_some hc hw).mp hbc
      have hs' : s ≠ a.resourceId := by
        rintro rfl
        exact hne (hsown.symm.trans hown)
      exact .tail (ih hb) (hkeep s b c hs' hs htype h0 hsown hmem)
  intro t ht
  rw [hbase]
  by_cases hself : t = tid
  · subst hself
    have hnew : w'.prio t = recalcPriority sc w t a.resourceId := by
      rw [hprio, Function.update_self]
    rcases (recalcPriority_isGreatest sc w t a.resourceId).1 with hb | ⟨s, hs, hne, htype, hsown, u,
      hmem, hp⟩
    · exact ⟨t, .refl, by rw [hnew, hb]⟩
    · have hut := hinv.ne_of_waits hs hready hmem
      have hu := ((hinv.mem_waiters hs).mp hmem).1
      obtain ⟨v, hv, hvbase⟩ := h u (Scenario.mem_threadSet.mpr hu)
      refine ⟨v, .tail (hpath v u hv hut) ?_, by rw [hnew, hvbase, hp]⟩
      exact hkeep s u t hne hs (by rw [← reach_type hw hs]; exact htype) htid.1 hsown hmem
  · obtain ⟨u, hu, hub⟩ := h t ht
    exact ⟨u, hpath u t hu hself, by rw [hprio, Function.update_of_ne hself, hub]⟩

theorem PrioSourced.step (hc : sc.Core) {w : World} (hw : (callSystem sc).Reach w) {tid : Int}
    (htid : sc.IsThread tid) (hok : (w.executeStep sc tid).fault = none) (h : PrioSourced sc w) :
    PrioSourced sc (w.executeStep sc tid).world := by
  have hw' : (callSystem sc).Reach (w.executeStep sc tid).world := .step hw ⟨htid, hok, rfl⟩
  have hstep := core_prioStep hc hw htid hok
  generalize (w.executeStep sc tid).world = w' at hstep hw' ⊢
  cases hstep with
  | same hbase hprio hheld =>
    unfold PrioSourced
    rw [hbase, hheld, hprio]
    exact h
  | block tid r htid hready hr hown hv =>
    rw [hv]
    exact h.block (core_reach hc hw) htid hr hown hready
  | unlock tid a hk htid hready _ hown htop hv =>
    subst hv
    exact h.unlock hc hw hk htid hready hown htop hw'

theorem reach_sourced (hc : sc.Core) {w : World} (h : (callSystem sc).Reach w) :
    PrioSourced sc w := by
  induction h with
  | init hi =>
    obtain ⟨before, rfl⟩ := hi
    intro t ht
    have ht := Scenario.mem_threadSet.mp ht
    exact ⟨t, .refl, by simp [World.prio, World.basePrio, World.reset, ht, Thread.reset]⟩
  | step hr hst ih =>
    obtain ⟨htid, hok, rfl⟩ := hst
    exact ih.step hc hr htid hok

theorem heldUpBy_edges (hc : sc.Core) {w : World} (h : (callSystem sc).Reach w) (u t : Int)
    (hu : w.heldUpBy sc u = some t) : u ∈ sc.threadSet ∧ t ∈ sc.threadSet := by
  obtain ⟨hu, ht⟩ := heldUpBy_threads (core_reach hc h) hu
  exact ⟨Scenario.mem_threadSet.mpr hu, Scenario.mem_threadSet.mpr ht⟩

/-- Base priorities are the scenario's. -/
theorem reach_basePrio (hc : sc.Core) {w : World} (h : (callSystem sc).Reach w) {t : Int}
    (ht : sc.IsThread t) : w.basePrio t = sc.priorities t := by
  induction h with
  | init hi =>
    obtain ⟨before, rfl⟩ := hi
    simp [World.basePrio, World.reset, ht, Thread.reset]
  | @step w _ _ hr hst ih =>
    obtain ⟨htid, hok, rfl⟩ := hst
    have hstep := core_prioStep hc hr htid hok
    generalize (w.executeStep sc _).world = w' at hstep ⊢
    cases hstep with
    | same hbase => rw [hbase, ih]
    | block _ _ _ _ _ _ hv => rw [hv, basePrio_boost, basePrio_enqueue, ih]
    | unlock _ _ _ _ _ _ _ _ hv => rw [hv, basePrio_advance, basePrio_handOver, basePrio_lowered, ih]

/-- Exactness and sources, with the scenario's priorities for a base. -/
theorem reach_exact_sourced (hc : sc.Core) {w : World} (h : (callSystem sc).Reach w) :
    (∀ t ∈ sc.threadSet, Exact sc.priorities (w.heldUpBy sc) w.prio t) ∧
      ∀ t ∈ sc.threadSet, Sourced sc.priorities (w.heldUpBy sc) w.prio t := by
  have hbase : ∀ t ∈ sc.threadSet, w.basePrio t = sc.priorities t := fun t ht =>
    reach_basePrio hc h (Scenario.mem_threadSet.mp ht)
  refine ⟨fun t ht => ?_, fun t ht => ?_⟩
  · have hexact := reach_prioExact hc h t ht
    unfold Exact Claims at hexact ⊢
    rwa [hbase t ht] at hexact
  · obtain ⟨u, hreach, hown⟩ := reach_sourced hc h t ht
    refine ⟨u, hreach, ?_⟩
    rw [← hown, hbase]
    rcases hreach.cases_head with rfl | ⟨v, hnext, _⟩
    · exact ht
    · exact (heldUpBy_edges hc h u v hnext).1

/-- **Priorities are determined** by who holds up whom. -/
theorem prio_determined (hc : sc.Core) {w w' : World} (hw : (callSystem sc).Reach w)
    (hw' : (callSystem sc).Reach w') (hheld : w'.heldUpBy sc = w.heldUpBy sc) {t : Int}
    (ht : sc.IsThread t) : (w'.threads t).priority = (w.threads t).priority := by
  obtain ⟨hexact, hsourced⟩ := reach_exact_sourced hc hw
  obtain ⟨hexact', hsourced'⟩ := reach_exact_sourced hc hw'
  rw [hheld] at hexact' hsourced'
  exact sourced_unique (heldUpBy_edges hc hw) hexact' hsourced' hexact hsourced
    (Scenario.mem_threadSet.mpr ht)

/-- **Inheritance is transitive**: in every reached state the priority of a thread is the greatest base
priority among itself and the threads that it holds up, directly or not. -/
theorem prio_transitive (hc : sc.Core) {w : World} (hw : (callSystem sc).Reach w) {t : Int}
    (ht : sc.IsThread t) :
    IsGreatest {p | ∃ u, sc.IsThread u ∧ Reaches (w.heldUpBy sc) u t ∧ sc.priorities u = p}
      (w.threads t).priority := by
  obtain ⟨hexact, hsourced⟩ := reach_exact_sourced hc hw
  have hmem := Scenario.mem_threadSet.mpr ht
  have hgreatest := (hsourced t hmem).isGreatest (heldUpBy_edges hc hw) hexact hmem
  simp only [Scenario.mem_threadSet] at hgreatest
  exact hgreatest

/-- `T2` waits for `T0`, which waits for `T1`: the last is lifted from 10 to 20. -/
theorem prio_transitive_multihop :
    IsGreatest {p | ∃ u, multihopInheritance.IsThread u ∧
        Reaches (((startWorld multihopInheritance).calls multihopInheritance [1, 0, 0, 2]).heldUpBy
          multihopInheritance) u 1 ∧ multihopInheritance.priorities u = p}
      (((startWorld multihopInheritance).calls multihopInheritance [1, 0, 0, 2]).threads 1).priority :=
  prio_transitive multihopInheritance_core (reach_calls (by decide)) (by decide)

end Smash
