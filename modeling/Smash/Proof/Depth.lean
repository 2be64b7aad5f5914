import Mathlib.Algebra.BigOperators.Ring.Finset
import Mathlib.Algebra.Order.BigOperators.Group.Finset
import Smash.Proof.Snapshot

/-!
# The depth of a state

In a core scenario the number of steps behind a state can be read off the state. A step passes one action, or
leaves the thread that takes it blocked or DONE; a grant moves a second thread, but it takes the mark of being
blocked off the thread whose `pc` it moves, and the two cancel. So a state is met at one depth only
(`depth_determined`).
-/

set_option autoImplicit false

namespace Smash

variable {sc : Scenario}

/-- The turns that a thread has had: the actions that it has passed, and one more where it is blocked or DONE. -/
def Thread.turns (t : Thread) : Nat := t.pc + if t.blocked = true ∨ t.state = .done then 1 else 0

/-- The turns of all threads. -/
def World.turns (sc : Scenario) (w : World) : Nat := ∑ t ∈ sc.threadIds.toFinset, (w.threads t).turns

theorem Thread.turns_of_ready {t : Thread} (h : t.state = .ready) : t.turns = t.pc := by
  simp [Thread.turns, Thread.blocked, h]

theorem Thread.turns_of_not_ready {t : Thread} (h : t.state ≠ .ready) : t.turns = t.pc + 1 := by
  cases hs : t.state <;> simp_all [Thread.turns, Thread.blocked]

/-- **A step gives one turn**, to the thread that takes it. -/
theorem Paces.turns {tid u : Int} {t t' : Thread} (h : Paces sc tid u t t')
    (hready : u = tid → t.state = .ready) : t'.turns = t.turns + if u = tid then 1 else 0 := by
  by_cases hu : u = tid
  · have hawake := hready hu
    rw [if_pos hu, Thread.turns_of_ready hawake]
    cases h with
    | stays hpc _ hstate =>
      have hasleep : t'.state ≠ .ready := fun h => (hstate.mp h).2 hu
      rw [Thread.turns_of_not_ready hasleep, hpc]
    | passes b _ hpc _ hstate _ => rw [Thread.turns_of_ready hstate, hpc]
  · rw [if_neg hu, Nat.add_zero]
    cases h with
    | stays hpc _ hstate =>
      by_cases hawake : t.state = .ready
      · rw [Thread.turns_of_ready (hstate.mpr ⟨hawake, hu⟩), Thread.turns_of_ready hawake, hpc]
      · rw [Thread.turns_of_not_ready fun h => hawake (hstate.mp h).1, Thread.turns_of_not_ready hawake, hpc]
    | passes b _ hpc _ hstate hself =>
      rw [Thread.turns_of_ready hstate, Thread.turns_of_not_ready fun h => hu (hself h), hpc]

section runs

variable (hc : sc.Core) {w w' : World} {ts : List Int}
include hc

theorem turns_step (hw : (readySystem sc).Reach w) {t : Int} (hst : (readySystem sc).step w t w') :
    w'.turns sc = w.turns sc + 1 := by
  obtain ⟨⟨ht, hok, rfl⟩, hready⟩ := hst
  have hpaces := executeStep_paces hc (readySystem_reach hw) ht hok
  have hsum : (w.executeStep sc t).world.turns sc
      = ∑ u ∈ sc.threadIds.toFinset, ((w.threads u).turns + if u = t then 1 else 0) :=
    Finset.sum_congr rfl fun u _ => (hpaces u).turns fun hu => hu ▸ hready
  rw [hsum, Finset.sum_add_distrib, Finset.sum_ite_eq', if_pos]
  · rfl
  · exact List.mem_toFinset.mpr (Scenario.mem_threadIds.mpr ht)

theorem turns_run (hw : (readySystem sc).Reach w) (h : (readySystem sc).Run w ts w') :
    w'.turns sc = w.turns sc + ts.length := by
  induction h with
  | nil => rfl
  | cons hst _ ih =>
    rw [ih (.step hw hst), turns_step hc hw hst, List.length_cons]
    omega

omit hc in
theorem turns_init (h : (readySystem sc).init w) : w.turns sc = 0 := by
  obtain ⟨before, rfl⟩ := h
  refine Finset.sum_eq_zero fun t ht => ?_
  have hthread := Scenario.mem_threadIds.mp (List.mem_toFinset.mp ht)
  simp only [World.reset, if_pos hthread]
  exact Thread.turns_of_ready rfl

/-- The length of a run is the turns in the state that it ends in, … -/
theorem length_eq_turns (hinit : (readySystem sc).init w) (h : (readySystem sc).Run w ts w') :
    ts.length = w'.turns sc := by
  rw [turns_run hc (.init hinit) h, turns_init hinit, Nat.zero_add]

/-- … which are bounded by the steps of the scenario, … -/
theorem turns_le (hw : (callSystem sc).Reach w) :
    (w.turns sc : Int) ≤ ∑ t ∈ sc.threadIds.toFinset, sc.stepCount t + sc.threadCount := by
  have hone : ∀ t ∈ sc.threadIds.toFinset, ((w.threads t).turns : Int) ≤ sc.stepCount t + 1 := by
    intro t ht
    have hle := reach_pc_le hc hw (Scenario.mem_threadIds.mp (List.mem_toFinset.mp ht))
    unfold Thread.turns
    split <;> push_cast <;> omega
  have hcount : (sc.threadIds.toFinset.card : Int) = sc.threadCount := by
    rw [Scenario.threadIds, List.toFinset_card_of_nodup (nodup_upTo _), length_upTo]
    exact Int.toNat_of_nonneg hc.valid.bounds.threadCount_pos.le
  calc (w.turns sc : Int) = ∑ t ∈ sc.threadIds.toFinset, ((w.threads t).turns : Int) := by
        rw [World.turns, Nat.cast_sum]
    _ ≤ ∑ t ∈ sc.threadIds.toFinset, (sc.stepCount t + 1) := Finset.sum_le_sum hone
    _ = ∑ t ∈ sc.threadIds.toFinset, sc.stepCount t + sc.threadCount := by
        rw [Finset.sum_add_distrib, Finset.sum_const, nsmul_one, hcount]

/-- … and can be read off a snapshot. -/
theorem turns_eq_of_looksLike (hw : (callSystem sc).Reach w) (hw' : (callSystem sc).Reach w')
    (h : LooksLike sc w w') : w.turns sc = w'.turns sc := by
  have hagree := agree_of_looksLike hc hw hw' h
  refine Finset.sum_congr rfl fun t ht => ?_
  have hthread := Scenario.mem_threadIds.mp (List.mem_toFinset.mp ht)
  unfold Thread.turns
  rw [hagree.pc t hthread, hagree.state t hthread, Thread.blocked_congr (hagree.state t hthread)]

end runs

/-! ## The search -/

/-- A node at which the search looks its state up, or would with the caching on. -/
def Visit.looksUp (v : Visit) : Bool := v.kind = .expanded || v.kind = .cached

theorem reach_of_looksUp (hv : sc.Valid) {cfg : Config} {stack : Nat → Saved} {v : Visit}
    (hmem : v ∈ (exploreSearch sc cfg stack).visits) (hk : v.looksUp = true) :
    CleanRun sc v.schedule v.world := by
  rw [exploreSearch_visits hv] at hmem
  have hok := exploreLedger_visitOk hv cfg v hmem
  have hkind : v.kind = .expanded ∨ v.kind = .cached := by simpa [Visit.looksUp] using hk
  unfold VisitOk at hok
  rcases hkind with hk | hk
  · rw [hk] at hok
    exact hok.1
  · rw [hk] at hok
    exact hok.1

/-- **Depth is a function of the state.** In a core scenario a run of READY threads from reset, without a
failing step, is as long as the `pc`s in the state it ends in add up to, with one more for each thread that is
blocked or DONE; so it is no longer than all the steps and one for each thread, runs that end in states of one
snapshot are of one length, and a search that looks up states of one snapshot does so at one depth. -/
theorem depth_determined (hc : sc.Core) :
    (∀ w₀ ts w, (readySystem sc).init w₀ → (readySystem sc).Run w₀ ts w →
      ts.length = w.turns sc ∧
      (ts.length : Int) ≤ ∑ t ∈ sc.threadIds.toFinset, sc.stepCount t + sc.threadCount) ∧
    (∀ w₀ ts w w₀' ts' w', (readySystem sc).init w₀ → (readySystem sc).Run w₀ ts w →
      (readySystem sc).init w₀' → (readySystem sc).Run w₀' ts' w' →
      stateEqual (captureState sc w) (captureState sc w') = true → ts.length = ts'.length) ∧
    (∀ cfg stack, ∀ v ∈ (exploreSearch sc cfg stack).visits, ∀ v' ∈ (exploreSearch sc cfg stack).visits,
      v.looksUp = true → v'.looksUp = true →
      stateEqual (captureState sc v.world) (captureState sc v'.world) = true →
      v.schedule.length = v'.schedule.length) := by
  have hsame : ∀ w₀ ts w w₀' ts' w', (readySystem sc).init w₀ → (readySystem sc).Run w₀ ts w →
      (readySystem sc).init w₀' → (readySystem sc).Run w₀' ts' w' →
      stateEqual (captureState sc w) (captureState sc w') = true → ts.length = ts'.length := by
    intro w₀ ts w w₀' ts' w' hinit hrun hinit' hrun' hlike
    rw [length_eq_turns hc hinit hrun, length_eq_turns hc hinit' hrun']
    exact turns_eq_of_looksLike hc (readySystem_reach (hrun.reach (.init hinit)))
      (readySystem_reach (hrun'.reach (.init hinit'))) hlike
  refine ⟨fun w₀ ts w hinit hrun => ?_, hsame, fun cfg stack v hmem v' hmem' hk hk' hlike => ?_⟩
  · have hlength := length_eq_turns hc hinit hrun
    refine ⟨hlength, ?_⟩
    rw [hlength]
    exact turns_le hc (readySystem_reach (hrun.reach (.init hinit)))
  · have hinit : (readySystem sc).init (startWorld sc) := ⟨World.zero, rfl⟩
    exact hsame _ _ _ _ _ _ hinit (clean_ready (reach_of_looksUp hc.valid hmem hk)) hinit
      (clean_ready (reach_of_looksUp hc.valid hmem' hk')) hlike

/-- A wait, the signal that grants it, and both threads to their end. -/
theorem depth_determined_signalWait :
    ((startWorld signalWait).calls signalWait [0, 1, 0, 1]).turns signalWait = 4 := by
  have hrun : (readySystem signalWait).Run (startWorld signalWait) [0, 1, 0, 1]
      ((startWorld signalWait).calls signalWait [0, 1, 0, 1]) :=
    restrict_run (C := fun w t => (w.threads t).state = .ready) (by decide +kernel) (by decide +kernel)
  exact (((depth_determined signalWait_core).1 _ _ _ ⟨World.zero, rfl⟩ hrun).1).symm

end Smash
