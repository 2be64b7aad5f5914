import Smash.Proof.Visits

/-!
# Replaying a schedule

`smash_run_schedule` and the explorer drive the same `smash_execute_step`, one along a given list of
choices, the other along all of them. `runScheduleFrom_clean` is the joint: along a clean run the
replay stops nowhere and is in the same live state after every entry. A bug's schedule is a clean
run, with one failing step after it when the bug is a violation, so its replay ends where the bug
was reported.
-/

set_option autoImplicit false

namespace Smash

variable {sc : Scenario}

theorem not_allDone_of_ready {w : World} {t : Int} (h : sc.Ready w t) : allDone sc w = false := by
  cases hd : allDone sc w with
  | false => rfl
  | true => exact absurd h (stuck_of_allDone hd t)

/-- One entry of the replay: record it, execute it. -/
def Engine.replayStep (sc : Scenario) (e : Engine) (t : Int) : Engine :=
  ({ e with trace := { e.trace with schedule := e.trace.schedule.push t } } : Engine).executeStep sc t

@[simp] theorem replayStep_world (e : Engine) (t : Int) :
    (e.replayStep sc t).world = (e.world.executeStep sc t).world := rfl

@[simp] theorem replayStep_failed (e : Engine) (t : Int) :
    (e.replayStep sc t).failed = (e.failed || (e.world.executeStep sc t).fault.isSome) := rfl

/-- An entry that the loop comes to, whether its thread is READY or not. -/
theorem runScheduleFrom_called {e : Engine} {t : Int} (i : Nat) (rest : List Int)
    (hdone : allDone sc e.world ≠ true) (hrange : ¬ (t < 0 ∨ sc.threadCount ≤ t)) :
    runScheduleFrom sc i (t :: rest) e =
      if (e.world.executeStep sc t).ret = false then (e.replayStep sc t, false)
      else if (e.replayStep sc t).failed then (e.replayStep sc t, false)
      else runScheduleFrom sc (i + 1) rest (e.replayStep sc t) := by
  rw [runScheduleFrom, if_neg hdone, if_neg hrange]
  rfl

theorem runScheduleFrom_cons {e : Engine} {t : Int} (i : Nat) (rest : List Int)
    (hready : sc.Ready e.world t) :
    runScheduleFrom sc i (t :: rest) e =
      if (e.world.executeStep sc t).ret = false then (e.replayStep sc t, false)
      else if (e.replayStep sc t).failed then (e.replayStep sc t, false)
      else runScheduleFrom sc (i + 1) rest (e.replayStep sc t) := by
  have hrange : ¬ (t < 0 ∨ sc.threadCount ≤ t) := by
    have := hready.1
    unfold Scenario.IsThread at this
    omega
  have hdone : allDone sc e.world ≠ true := by
    rw [not_allDone_of_ready hready]
    exact Bool.false_ne_true
  exact runScheduleFrom_called i rest hdone hrange

/-- The entries of a schedule, one after the other. -/
def Engine.replaySteps (sc : Scenario) (e : Engine) (s : List Int) : Engine := s.foldl (·.replayStep sc) e

/-- **Along a clean run the replay goes through**, whatever entries follow. -/
theorem runScheduleFrom_clean {w w' : World} {s : List Int} (h : (cleanSystem sc).Run w s w') :
    ∀ {e : Engine}, e.world = w → e.failed = false →
      (e.replaySteps sc s).world = w' ∧ (e.replaySteps sc s).failed = false ∧
        ∀ (i : Nat) (rest : List Int),
          runScheduleFrom sc i (s ++ rest) e = runScheduleFrom sc (i + s.length) rest (e.replaySteps sc s) := by
  induction h with
  | nil w => exact fun hw hf => ⟨hw, hf, fun _ _ => rfl⟩
  | @cons w w₁ w' t s hst _ ih =>
    intro e hw hf
    subst hw
    obtain ⟨hready, hok, rfl⟩ := hst
    have hfault := fault_eq_none_of_not_fails hok
    have hret := executeStep_ret hready.2 hfault
    have hfailed : (e.replayStep sc t).failed = false := by simp [hf, hfault]
    obtain ⟨hw', hf', hrun⟩ := ih (replayStep_world e t) hfailed
    refine ⟨hw', hf', fun i rest => ?_⟩
    rw [List.cons_append, runScheduleFrom_cons i _ hready, hret, if_neg Bool.true_eq_false.mp,
      hfailed, if_neg Bool.false_ne_true, hrun, List.length_cons]
    congr 1
    omega

/-- A last entry whose step may fail: the replay ends where that step ends. -/
theorem runScheduleFrom_single {e : Engine} {t : Int} (i : Nat) (hready : sc.Ready e.world t) :
    (runScheduleFrom sc i [t] e).1 = e.replayStep sc t := by
  rw [runScheduleFrom_cons i [] hready]
  split
  · rfl
  split
  · rfl
  · rfl

/-! ## A bug replays -/

/-- The three ways a state can be wrong: the engine failed, a check rejects the state, or no thread
is READY while some thread is not DONE. -/
def ShowsBug (sc : Scenario) (e : Engine) : Prop :=
  e.failed = true ∨ checkAll sc e.world ≠ none ∨ (Stuck sc e.world ∧ allDone sc e.world = false)

theorem reset_engineInit_world (hv : sc.Valid) : ((engineInit sc).reset sc).world = startWorld sc := by
  rw [engineInit_of_valid hv]
  show (World.zero.reset sc).reset sc = World.zero.reset sc
  refine World.ext (funext fun i => ?_) (funext fun i => ?_)
  · by_cases hi : sc.IsThread i
    · simp only [World.reset, if_pos hi]; rfl
    · simp only [World.reset, if_neg hi]
  · by_cases hi : sc.IsResource i
    · simp only [World.reset, if_pos hi]; rfl
    · simp only [World.reset, if_neg hi]

/-- What a recorded bug's schedule replays to. -/
theorem replay_of_visitOk (hv : sc.Valid) {maxDepth : Int} {v : Visit} (hok : VisitOk sc maxDepth v)
    (hbug : v.isBug = true) :
    (runSchedule sc (engineInit sc) v.schedule).1.world = v.world ∧
      ShowsBug sc (runSchedule sc (engineInit sc) v.schedule).1 := by
  have hworld := reset_engineInit_world hv
  have hfailed : ((engineInit sc).reset sc).failed = false := rfl
  have hkind : v.kind = .deadlock ∨ v.kind = .violation := by simpa [Visit.isBug] using hbug
  unfold VisitOk at hok
  cases hkind with
  | inl hk =>
    rw [hk] at hok
    obtain ⟨hrun, hdone, hstuck, _⟩ := hok
    obtain ⟨hw', _, hreplay⟩ := runScheduleFrom_clean hrun hworld hfailed
    have hend : runSchedule sc (engineInit sc) v.schedule =
        (((engineInit sc).reset sc).replaySteps sc v.schedule, true) := by
      have := hreplay 0 []
      rw [List.append_nil] at this
      exact this
    rw [hend]
    exact ⟨hw', Or.inr (Or.inr (by rw [hw']; exact ⟨hstuck, hdone⟩))⟩
  | inr hk =>
    rw [hk] at hok
    obtain ⟨s, t, w, hsched, hrun, hready, hfails, hvw⟩ := hok
    obtain ⟨hw', _, hreplay⟩ := runScheduleFrom_clean hrun hworld hfailed
    subst hw'
    have hend : (runSchedule sc (engineInit sc) v.schedule).1 =
        (((engineInit sc).reset sc).replaySteps sc s).replayStep sc t := by
      rw [runSchedule, hsched, hreplay 0 [t], runScheduleFrom_single _ hready]
    rw [hend, hvw]
    refine ⟨rfl, ?_⟩
    simp only [stepFails, Bool.or_eq_true, Option.isSome_iff_ne_none] at hfails
    cases hfails with
    | inl hfault =>
      exact Or.inl (by simp [Option.isSome_iff_ne_none.mpr hfault])
    | inr hcheck =>
      exact Or.inr (Or.inl hcheck)

/-- **Every reported bug replays.** Whatever the configuration, the schedule of the trace
`smash_explore` returns leads a fresh engine to the threads and resources of the first bug the
search recorded, and they show the bug. -/
theorem failingTrace_replays (hv : sc.Valid) (cfg : Config) (stack : Nat → Saved) {trace : Trace}
    (h : (explore sc cfg stack).failingTrace = some trace) :
    ∃ v, (exploreSearch sc cfg stack).visits.find? Visit.isBug = some v ∧
      (runSchedule sc (engineInit sc) trace.schedule.toList).1.world = v.world ∧
      ShowsBug sc (runSchedule sc (engineInit sc) trace.schedule.toList).1 := by
  rw [exploreSearch_visits hv]
  rw [explore_eq hv] at h
  have hbooked := (exploreLedger_booked hv cfg).failingTrace
  have htrace : (exploreLedger sc cfg).result.failingTrace = some trace := h
  rw [htrace, Option.map_some] at hbooked
  obtain ⟨v, hfind, hsched⟩ := Option.map_eq_some_iff.mp hbooked.symm
  have hbug : v.isBug = true := List.find?_some hfind
  have hok := exploreLedger_visitOk hv cfg v (List.mem_of_find?_eq_some hfind)
  refine ⟨v, hfind, ?_⟩
  rw [← hsched]
  exact replay_of_visitOk hv hok hbug

/-- The ABBA deadlock of the tests, under plain search with stop at the first bug. -/
theorem failingTrace_replays_abba :
    let cfg : Config := ⟨false, false, 512, none, true⟩
    let stack : Nat → Saved := fun _ => rootNode abbaDeadlock
    ∃ trace v, (explore abbaDeadlock cfg stack).failingTrace = some trace ∧
      (exploreSearch abbaDeadlock cfg stack).visits.find? Visit.isBug = some v ∧
      (runSchedule abbaDeadlock (engineInit abbaDeadlock) trace.schedule.toList).1.world = v.world ∧
      ShowsBug abbaDeadlock
        (runSchedule abbaDeadlock (engineInit abbaDeadlock) trace.schedule.toList).1 := by
  intro cfg stack
  have hfound : (explore abbaDeadlock cfg stack).failingTrace.isSome = true := by decide +kernel
  obtain ⟨trace, htrace⟩ := Option.isSome_iff_exists.mp hfound
  obtain ⟨v, hv⟩ := failingTrace_replays (by decide) cfg stack htrace
  exact ⟨trace, v, htrace, hv⟩

end Smash
