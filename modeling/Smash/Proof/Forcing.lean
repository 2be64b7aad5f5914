import Smash.Lib.Exchange
import Smash.Proof.Caching

/-!
# Bugs that caching cannot lose

With caching the search goes on from one state of each snapshot, and which one that is depends on the order
of the search. A bug that can be *forced* does not depend on it: it is reached by choices that stay right when
each state on the way is exchanged for another one of the same snapshot. `ForcesBugs` says that of the bugs of
a scenario. It is a condition on the clean runs and on what `smash_state_equal` says of their states; the search
does not occur in it.

What the search goes on from is one `Expansion` of the clean runs (`exploreLedger_expansion`), and forced is
what every expansion shows (`forcesBugs_iff`). So caching loses no bug of a scenario that forces its bugs. In
every other scenario the search is misled by a snapshot (`Misled`): it takes two states for the same that do not
lead on alike. `caching_loses_no_bug` says both.
-/

set_option autoImplicit false

namespace Smash

open TransitionSystem

variable {sc : Scenario} {cfg : Config}

/-! ## The condition -/

/-- No thread is READY and some thread is not DONE. -/
def AtDeadlock (sc : Scenario) (w : World) : Prop := Stuck sc w ∧ allDone sc w = false

/-- Some READY thread's step fails. -/
def AtViolation (sc : Scenario) (w : World) : Prop := ∃ t, sc.Ready w t ∧ stepFails sc w t = true

/-- A bug that can be reached can be forced: by choices of READY threads that stay right, whichever states
of the same snapshot stand in for those on the way. -/
def ForcesBugs (sc : Scenario) : Prop :=
  ((∃ s, ViolationSchedule sc s) →
    (cleanSystem sc).Forces (LooksLike sc) (AtViolation sc) (startWorld sc)) ∧
  ((∃ s, DeadlockSchedule sc s) →
    (cleanSystem sc).Forces (LooksLike sc) (AtDeadlock sc) (startWorld sc))

/-- Of the bugs of each kind that can be reached, one shows in these states. -/
def ShowsBugs (sc : Scenario) (X : Set World) : Prop :=
  ((∃ s, ViolationSchedule sc s) → ∃ w ∈ X, AtViolation sc w) ∧
  ((∃ s, DeadlockSchedule sc s) → ∃ w ∈ X, AtDeadlock sc w)

/-- The search meets two states of one snapshot that do not lead on alike, and takes the second for the
first: it went on from the first and skips the second, or goes on from both with the table full. -/
def Misled (sc : Scenario) (cfg : Config) : Prop :=
  ∃ u ∈ (exploreLedger sc cfg).visits, ∃ v ∈ (exploreLedger sc cfg).visits, u.kind = .expanded ∧
    (v.kind = .cached ∨
      (v.kind = .expanded ∧ smashMaxStates < (expandedIn (exploreLedger sc cfg).visits).length)) ∧
    LooksLike sc u.world v.world ∧ ¬ (cleanSystem sc).Alike (LooksLike sc) u.world v.world

/-! ## Look-alikes among the clean runs -/

theorem equivalence_looksLike (sc : Scenario) : Equivalence (LooksLike sc) where
  refl _ := looksLike_iff.mpr ⟨fun _ _ => rfl, fun _ _ => rfl⟩
  symm h := looksLike_iff.mpr
    ⟨fun t ht => ((looksLike_iff.mp h).1 t ht).symm, fun r hr => ((looksLike_iff.mp h).2 r hr).symm⟩
  trans h h' := looksLike_iff.mpr
    ⟨fun t ht => ((looksLike_iff.mp h).1 t ht).trans ((looksLike_iff.mp h').1 t ht),
      fun r hr => ((looksLike_iff.mp h).2 r hr).trans ((looksLike_iff.mp h').2 r hr)⟩

theorem deterministic_cleanSystem (sc : Scenario) : (cleanSystem sc).Deterministic :=
  fun _ _ _ _ h h' => h.2.2.trans h'.2.2.symm

/-- Of two look-alikes, the same threads are READY. -/
theorem LooksLike.ready {w w' : World} (h : LooksLike sc w w') {t : Int} (ht : sc.Ready w t) :
    sc.Ready w' t :=
  ⟨ht.1, (state_of_look ((looksLike_iff.mp h).1 t ht.1)).symm.trans ht.2⟩

theorem LooksLike.stuck {w w' : World} (h : LooksLike sc w w') (hw : Stuck sc w) : Stuck sc w' :=
  fun t ht => hw t (LooksLike.ready ((equivalence_looksLike sc).symm h) ht)

theorem LooksLike.allDone {w w' : World} (h : LooksLike sc w w') : allDone sc w = allDone sc w' := by
  have hstate := fun t ht => state_of_look ((looksLike_iff.mp h).1 t ht)
  rw [Bool.eq_iff_iff, allDone_iff, allDone_iff]
  exact forall_congr' fun t => imp_congr_right fun ht => by rw [hstate t ht]

/-- States that lead on alike show the same bugs: a deadlock is seen in the snapshot, … -/
theorem AtDeadlock.alike {a b : World} (h : (cleanSystem sc).Alike (LooksLike sc) a b)
    (ha : AtDeadlock sc a) : AtDeadlock sc b :=
  ⟨h.looks.stuck ha.1, h.looks.allDone.symm.trans ha.2⟩

/-- … and where a step fails in one, it does not go through in the other. -/
theorem AtViolation.alike {a b : World} (h : (cleanSystem sc).Alike (LooksLike sc) a b)
    (ha : AtViolation sc a) : AtViolation sc b := by
  obtain ⟨t, hready, hfails⟩ := ha
  refine ⟨t, h.looks.ready hready, ?_⟩
  by_contra hok
  obtain ⟨_, hst, -⟩ := h.symm.next (deterministic_cleanSystem sc)
    ⟨h.looks.ready hready, by simpa using hok, rfl⟩
  exact absurd hst.2.1 (by simp [hfails])

/-- **Where look-alikes lead on alike, every bug can be forced.** -/
theorem forcesBugs_of_alike (h : ∀ a b, (cleanSystem sc).Reach a → (cleanSystem sc).Reach b →
    LooksLike sc a b → (cleanSystem sc).Alike (LooksLike sc) a b) : ForcesBugs sc := by
  have hforces : ∀ Goal : World → Prop,
      (∀ {a b}, (cleanSystem sc).Alike (LooksLike sc) a b → Goal a → Goal b) → ∀ {s w},
      CleanRun sc s w → Goal w → (cleanSystem sc).Forces (LooksLike sc) Goal (startWorld sc) :=
    fun Goal hgoal s w hrun hw => forces_of_alike (equivalence_looksLike sc)
      (deterministic_cleanSystem sc) hgoal h (.init rfl) hrun hw
  refine ⟨?_, ?_⟩
  · rintro ⟨-, s, t, w, -, hrun, hready, hfails⟩
    exact hforces _ AtViolation.alike hrun ⟨t, hready, hfails⟩
  · rintro ⟨s, w, hrun, hstuck, hdone⟩
    exact hforces _ AtDeadlock.alike hrun ⟨hstuck, hdone⟩

/-- **Forced is what shows whichever look-alikes are skipped.** -/
theorem forcesBugs_iff : ForcesBugs sc ↔
    ∀ X, (cleanSystem sc).Expansion (LooksLike sc) (startWorld sc) X → ShowsBugs sc X := by
  simp only [ForcesBugs, ShowsBugs, forces_iff (deterministic_cleanSystem sc)]
  exact ⟨fun h X hX => ⟨fun hbug => h.1 hbug X hX, fun hbug => h.2 hbug X hX⟩,
    fun h => ⟨fun hbug X hX => (h X hX).1 hbug, fun hbug X hX => (h X hX).2 hbug⟩⟩

/-! ## The search is an expansion -/

section cachingSearch

variable (hv : sc.Valid) (hp : (cfg.caching false).Plain) (hshort : RunsShorter sc cfg.bound)
include hv hshort

/-- The states that the search comes to without a failure and does not skip. -/
def goneOn (sc : Scenario) (cfg : Config) : Set World :=
  {w | ∃ v ∈ (exploreLedger sc (cfg.caching true)).visits, v.kind ≠ .violation ∧ v.kind ≠ .cached ∧
    v.world = w}

theorem expanded_of_goneOn {v : Visit} (hmem : v ∈ (exploreLedger sc (cfg.caching true)).visits)
    (hk : v.kind ≠ .violation) (hc : v.kind ≠ .cached) : v.kind = .expanded ∨ Stuck sc v.world := by
  rcases (exploreLedger_kinds hv hshort hmem hk).2 with ⟨-, hd⟩ | ⟨-, hs⟩ | ⟨hk' | hk', -⟩
  · exact .inr (stuck_of_allDone hd)
  · exact .inr hs
  · exact absurd hk' hc
  · exact .inl hk'

theorem reach_of_visit {v : Visit} (hmem : v ∈ (exploreLedger sc (cfg.caching true)).visits)
    (hk : v.kind ≠ .violation) : (cleanSystem sc).Reach v.world :=
  (exploreLedger_kinds hv hshort hmem hk).1.reach

/-- What is skipped looks like a state that the search went on from, … -/
theorem exists_lookAlike (hcol : NoCollision sc) {v : Visit}
    (hmem : v ∈ (exploreLedger sc (cfg.caching true)).visits) (hk : v.kind = .cached) :
    ∃ u ∈ (exploreLedger sc (cfg.caching true)).visits, u.kind = .expanded ∧
      LooksLike sc u.world v.world := by
  obtain ⟨u, hu, hku, hhash⟩ := exists_of_cached hv hmem hk
  exact ⟨u, hu, hku, hcol _ _ _ _ (exploreLedger_kinds hv hshort hu (by simp [hku])).1
    (exploreLedger_kinds hv hshort hmem (by simp [hk])).1 hhash⟩

/-- … so whatever it comes to has a look-alike that it does not skip. -/
theorem covered_of_visit (hcol : NoCollision sc) {v : Visit}
    (hmem : v ∈ (exploreLedger sc (cfg.caching true)).visits) (hk : v.kind ≠ .violation) :
    ∃ w ∈ goneOn sc cfg, LooksLike sc w v.world := by
  by_cases hc : v.kind = .cached
  · obtain ⟨u, hu, hku, hlike⟩ := exists_lookAlike hv hshort hcol hmem hc
    exact ⟨u.world, ⟨u, hu, by simp [hku], by simp [hku], rfl⟩, hlike⟩
  · exact ⟨v.world, ⟨v, hmem, hk, hc, rfl⟩, (equivalence_looksLike sc).refl _⟩

include hp

/-- **What the search goes on from is an expansion**: it starts, and what a READY thread leads to is
visited, or stands behind a look-alike. -/
theorem exploreLedger_expansion (hcol : NoCollision sc) :
    (cleanSystem sc).Expansion (LooksLike sc) (startWorld sc) (goneOn sc cfg) := by
  obtain ⟨k, hk, htree⟩ := exploreLedger_subtree hv hp
  have hroot := covered_of_visit hv hshort hcol htree.mem_root hk
  refine ⟨?_, hroot, ?_⟩
  · rintro w ⟨v, hmem, hkv, -, rfl⟩
    exact reach_of_visit hv hshort hmem hkv
  · rintro w ⟨v, hmem, hkv, hc, rfl⟩ t w' ⟨hready, hok, rfl⟩
    have hexp := (expanded_of_goneOn hv hshort hmem hkv hc).resolve_right fun hs => hs t hready
    obtain ⟨u, hu, hbelow⟩ := htree.unfolds v hmem hexp t hready
    rw [← hbelow.world]
    exact covered_of_visit hv hshort hcol hu (by simp [hbelow.violation, hok])

/-- **Caching loses no bug that can be forced.** -/
theorem cachingLosesNoBug_of_forces (hcol : NoCollision sc) (hforces : ForcesBugs sc) :
    CachingLosesNoBug sc cfg := by
  have hshows := forcesBugs_iff.mp hforces _ (exploreLedger_expansion hv hp hshort hcol)
  obtain ⟨_, _, htree⟩ := exploreLedger_subtree hv hp
  unfold CachingLosesNoBug
  simp only [explore_deadlocks_pos hv, explore_violations_pos hv, plain_violation_iff hv hp hshort,
    plain_deadlock_iff hv hp hshort]
  intro _ _
  refine ⟨⟨fun ⟨v, hmem, hk⟩ => ⟨_, violationSchedule_of_visit hv hmem hk⟩, fun hbug => ?_⟩,
    ⟨fun ⟨v, hmem, hk⟩ => ⟨_, deadlockSchedule_of_visit hv hmem hk⟩, fun hbug => ?_⟩⟩
  · obtain ⟨_, ⟨v, hmem, hk, hc, rfl⟩, t, hready, hfails⟩ := hshows.1 hbug
    have hexp := (expanded_of_goneOn hv hshort hmem hk hc).resolve_right fun hs => hs t hready
    obtain ⟨u, hu, hbelow⟩ := htree.unfolds v hmem hexp t hready
    exact ⟨u, hu, hbelow.violation.mpr hfails⟩
  · obtain ⟨_, ⟨v, hmem, hk, hc, rfl⟩, hstuck, hdone⟩ := hshows.2 hbug
    obtain ⟨-, hd⟩ | ⟨hk', -⟩ | ⟨-, hgo⟩ := (exploreLedger_kinds hv hshort hmem hk).2
    · exact absurd hd (by simp [hdone])
    · exact ⟨v, hmem, hk'⟩
    · exact absurd hstuck hgo

/-! ## A search that is not misled -/

section notMisled

variable (hcol : NoCollision sc) (hnot : ¬ Misled sc (cfg.caching true))
include hcol hnot

omit hp in
/-- What is skipped leads on like the state that it is skipped for, … -/
theorem alike_of_visit {v : Visit} (hmem : v ∈ (exploreLedger sc (cfg.caching true)).visits)
    (hk : v.kind ≠ .violation) :
    ∃ u ∈ goneOn sc cfg, (cleanSystem sc).Alike (LooksLike sc) u v.world := by
  by_cases hc : v.kind = .cached
  · obtain ⟨u, hu, hku, hlook⟩ := exists_lookAlike hv hshort hcol hmem hc
    refine ⟨u.world, ⟨u, hu, by simp [hku], by simp [hku], rfl⟩, ?_⟩
    by_contra hdiff
    exact hnot ⟨u, hu, v, hmem, hku, .inl hc, hlook, hdiff⟩
  · exact ⟨v.world, ⟨v, hmem, hk, hc, rfl⟩, .refl (equivalence_looksLike sc) _⟩

/-- … so of every state one is met that leads on alike, … -/
theorem alike_of_reach {w : World} (hw : (cleanSystem sc).Reach w) :
    ∃ u ∈ goneOn sc cfg, (cleanSystem sc).Alike (LooksLike sc) u w := by
  obtain ⟨k, hk, htree⟩ := exploreLedger_subtree hv hp
  refine hw.covered (equivalence_looksLike sc) (deterministic_cleanSystem sc) ?_ ?_
  · rintro s rfl
    exact alike_of_visit hv hshort hcol hnot htree.mem_root hk
  · rintro w ⟨v, hmem, hkv, hc, rfl⟩ t w' ⟨hready, hok, rfl⟩
    have hexp := (expanded_of_goneOn hv hshort hmem hkv hc).resolve_right fun hs => hs t hready
    obtain ⟨u, hu, hbelow⟩ := htree.unfolds v hmem hexp t hready
    rw [← hbelow.world]
    exact alike_of_visit hv hshort hcol hnot hu (by simp [hbelow.violation, hok])

omit hp hcol in
/-- … and of two that look alike, at most one is gone on from, unless no thread is READY there. -/
theorem alike_of_goneOn {a b : World} (ha : a ∈ goneOn sc cfg) (hb : b ∈ goneOn sc cfg)
    (h : LooksLike sc a b) : (cleanSystem sc).Alike (LooksLike sc) a b := by
  obtain ⟨u, hu, hku, hcu, rfl⟩ := ha
  obtain ⟨v, hmem, hkv, hcv, rfl⟩ := hb
  have hlike := equivalence_looksLike sc
  by_cases hstuck : Stuck sc u.world
  · exact .of_stuck hlike h (fun t _ hst => hstuck t hst.1) fun t _ hst => h.stuck hstuck t hst.1
  have hexpu := (expanded_of_goneOn hv hshort hu hku hcu).resolve_right hstuck
  have hexpv := (expanded_of_goneOn hv hshort hmem hkv hcv).resolve_right
    fun hs => hstuck (LooksLike.stuck (hlike.symm h) hs)
  by_contra hdiff
  by_cases hroom : (expandedIn (exploreLedger sc (cfg.caching true)).visits).length ≤ smashMaxStates
  · obtain rfl := eq_of_expanded hv hroom hu hexpu hmem hexpv (stateHash_eq_of_equal h)
    exact hdiff (.refl hlike _)
  · exact hnot ⟨u, hu, v, hmem, hexpu, .inr ⟨hexpv, Nat.lt_of_not_le hroom⟩, h, hdiff⟩

/-- So look-alikes lead on alike, and every bug can be forced. -/
theorem forcesBugs_of_not_misled : ForcesBugs sc := by
  have hlike := equivalence_looksLike sc
  refine forcesBugs_of_alike fun a b ha hb hab => ?_
  obtain ⟨u, hu, hua⟩ := alike_of_reach hv hp hshort hcol hnot ha
  obtain ⟨v, hmem, hvb⟩ := alike_of_reach hv hp hshort hcol hnot hb
  have huv := alike_of_goneOn hv hshort hnot hu hmem
    (hlike.trans hua.looks (hlike.trans hab hvb.symm.looks))
  exact (hua.symm.trans hlike huv).trans hlike hvb

end notMisled

/-- **When caching loses no bug**: when the bugs that can be reached can be forced. In every other scenario
the search is misled by a snapshot, and some choice of the look-alikes to skip loses a bug. -/
theorem caching_loses_no_bug (hcol : NoCollision sc) :
    (ForcesBugs sc → CachingLosesNoBug sc cfg) ∧
    (¬ ForcesBugs sc → Misled sc (cfg.caching true) ∧
      ∃ X, (cleanSystem sc).Expansion (LooksLike sc) (startWorld sc) X ∧ ¬ ShowsBugs sc X) := by
  refine ⟨cachingLosesNoBug_of_forces hv hp hshort hcol, fun hforces => ⟨?_, ?_⟩⟩
  · by_contra hnot
    exact hforces (forcesBugs_of_not_misled hv hp hshort hcol hnot)
  · by_contra hnone
    refine hforces (forcesBugs_iff.mpr fun X hX => ?_)
    by_contra hlost
    exact hnone ⟨X, hX, hlost⟩

end cachingSearch

/-! ### One thread that waits -/

/-- One thread that waits for ever. -/
def loneWait : Scenario := .ofSteps [[⟨.semWait, 0, 0⟩]] [.semaphore] [0]

/-- It is at its wait, or blocked. -/
theorem reach_loneWait {w : World} (h : (cleanSystem loneWait).Reach w) :
    w = startWorld loneWait ∨ w = ((startWorld loneWait).executeStep loneWait 0).world := by
  have hstuck : ¬ loneWait.Ready ((startWorld loneWait).executeStep loneWait 0).world 0 := by decide
  induction h with
  | init hi => exact .inl hi
  | @step w w' t _ hst ih =>
    obtain ⟨hready, -, rfl⟩ := hst
    obtain rfl : t = 0 := by
      have hlt : t < 1 := hready.1.2
      have := hready.1.1
      omega
    rcases ih with rfl | rfl
    · exact .inr rfl
    · exact absurd hready hstuck

theorem forcesBugs_loneWait : ForcesBugs loneWait := by
  have hdiff : ¬ LooksLike loneWait (startWorld loneWait)
      ((startWorld loneWait).executeStep loneWait 0).world := by decide
  have hlike := equivalence_looksLike loneWait
  refine forcesBugs_of_alike fun a b ha hb hab => ?_
  rcases reach_loneWait ha with rfl | rfl <;> rcases reach_loneWait hb with rfl | rfl
  · exact .refl hlike _
  · exact absurd hab hdiff
  · exact absurd (hlike.symm hab) hdiff
  · exact .refl hlike _

/-- Its deadlock is found with caching; the search of `countdownScenario` is misled. -/
theorem caching_loses_no_bug_loneWait_countdown :
    CachingLosesNoBug loneWait ⟨false, true, 8, none, false⟩ ∧
      Misled countdownScenario ⟨false, true, 16, none, false⟩ := by
  have hplain : ∀ n : Nat, Config.Plain ⟨false, false, n, none, false⟩ := fun _ =>
    ⟨rfl, rfl, Or.inl rfl, rfl⟩
  have hlone : loneWait.Valid := by decide
  have hshort : RunsShorter loneWait (8 : Nat) := (runsShorter_iff (show loneWait.Valid by decide)).mpr
    (by decide +kernel)
  have hcount := countdownScenario_matching.valid
  have hcountdown : (ForcesBugs countdownScenario → CachingLosesNoBug countdownScenario
      ⟨false, true, 16, none, false⟩) ∧ _ := caching_loses_no_bug hcount (hplain 16)
    countdownScenario_short (noCollision_of_visits hcount (hplain 16) countdownScenario_short
      countdownScenario_hashes)
  have hwait : (ForcesBugs loneWait → CachingLosesNoBug loneWait ⟨false, true, 8, none, false⟩) ∧ _ :=
    caching_loses_no_bug hlone (hplain 8) hshort (noCollision_of_visits hlone (hplain 8) hshort
      (by decide +kernel))
  exact ⟨hwait.1 forcesBugs_loneWait,
    (hcountdown.2 fun hforces => not_cachingLosesNoBug_countdown (hcountdown.1 hforces)).1⟩

end Smash
