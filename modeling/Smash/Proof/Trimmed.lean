import Smash.Proof.Minimize

/-!
# A minimised schedule is executed to its end

`smash_run_schedule` stops at an entry that fails, at one whose thread is not READY, and when every thread is DONE.
What stands behind is never looked at (`runScheduleFrom_stopped`), so the last pass of `smash_trace_minimize` leaves it
out: the replay of a minimised schedule gets to every entry (`minimized_goes_on`).
-/

set_option autoImplicit false

namespace Smash

variable {sc : Scenario}

/-- The loop has been through the entries and would go on. -/
def GoesOn (sc : Scenario) (r : Engine × Bool) : Prop := r.2 = true ∧ allDone sc r.1.world = false

instance (sc : Scenario) (r : Engine × Bool) : Decidable (GoesOn sc r) := inferInstanceAs (Decidable (_ ∧ _))

/-- An entry outside of the range ends the loop, … -/
theorem runScheduleFrom_outside {e : Engine} {t : Int} (i : Nat) (hdone : allDone sc e.world ≠ true)
    (hrange : t < 0 ∨ sc.threadCount ≤ t) (rest rest' : List Int) :
    runScheduleFrom sc i (t :: rest) e = runScheduleFrom sc i (t :: rest') e ∧
      (runScheduleFrom sc i (t :: rest) e).2 = false := by
  rw [runScheduleFrom, if_neg hdone, if_pos hrange, runScheduleFrom, if_neg hdone, if_pos hrange]
  exact ⟨rfl, rfl⟩

/-- … and so does the end of all threads. -/
theorem runScheduleFrom_done {e : Engine} (i : Nat) (hdone : allDone sc e.world = true) (s : List Int) :
    runScheduleFrom sc i s e = (e, true) := by
  cases s with
  | nil => rfl
  | cons t rest => rw [runScheduleFrom, if_pos hdone]

/-- **What comes behind a stop is not looked at.** -/
theorem runScheduleFrom_stopped {p : List Int} (i : Nat) {e : Engine}
    (hstop : ¬ GoesOn sc (runScheduleFrom sc i p e)) (rest : List Int) :
    runScheduleFrom sc i (p ++ rest) e = runScheduleFrom sc i p e := by
  induction p generalizing i e with
  | nil =>
    have hdone : allDone sc e.world = true := by
      by_contra hnot
      exact hstop ⟨rfl, Bool.not_eq_true _ ▸ hnot⟩
    rw [runScheduleFrom_done i hdone, runScheduleFrom_done i hdone]
  | cons t p ih =>
    by_cases hdone : allDone sc e.world = true
    · rw [runScheduleFrom_done i hdone, runScheduleFrom_done i hdone]
    by_cases hrange : t < 0 ∨ sc.threadCount ≤ t
    · exact (runScheduleFrom_outside i hdone hrange (p ++ rest) p).1
    · rw [runScheduleFrom_called i p hdone hrange] at hstop
      rw [List.cons_append, runScheduleFrom_called i _ hdone hrange, runScheduleFrom_called i p hdone hrange]
      split
      · rfl
      split
      · rfl
      · rename_i hret hfailed
        rw [if_neg hret, if_neg hfailed] at hstop
        exact ih (i + 1) hstop

/-- **Without a stop every entry has been recorded**, and none has failed. -/
theorem runScheduleFrom_goesOn {p : List Int} (i : Nat) {e : Engine} (hok : e.failed = false)
    (h : GoesOn sc (runScheduleFrom sc i p e)) :
    (runScheduleFrom sc i p e).1.failed = false ∧
      (runScheduleFrom sc i p e).1.trace.schedule.toList = e.trace.schedule.toList ++ p := by
  induction p generalizing i e with
  | nil => exact ⟨hok, (List.append_nil _).symm⟩
  | cons t p ih =>
    by_cases hdone : allDone sc e.world = true
    · rw [runScheduleFrom_done i hdone] at h
      exact absurd (hdone.symm.trans h.2) Bool.true_eq_false.mp
    by_cases hrange : t < 0 ∨ sc.threadCount ≤ t
    · have hfalse := (runScheduleFrom_outside i hdone hrange p p).2
      exact absurd (hfalse.symm.trans h.1) Bool.false_ne_true
    rw [runScheduleFrom_called i p hdone hrange] at h ⊢
    by_cases hret : (e.world.executeStep sc t).ret = false
    · rw [if_pos hret] at h
      exact absurd h.1 Bool.false_ne_true
    by_cases hfailed : (e.replayStep sc t).failed = true
    · rw [if_neg hret, if_pos hfailed] at h
      exact absurd h.1 Bool.false_ne_true
    · rw [if_neg hret, if_neg hfailed] at h ⊢
      have hsched : (e.replayStep sc t).trace.schedule = e.trace.schedule.push t := Trace.logAll_schedule ..
      obtain ⟨hlast, hrec⟩ := ih (i + 1) (Bool.not_eq_true _ ▸ hfailed) h
      refine ⟨hlast, ?_⟩
      rw [hrec, hsched, LiveArray.toList_push, List.append_assoc]
      rfl

/-- The test of the minimiser does not look behind a stop. -/
theorem stops_runTrial (sc : Scenario) :
    DeltaDebug.Stops (fun trial => stillFails sc (runTrial sc trial))
      fun p => GoesOn sc (runSchedule sc (engineInit sc) p) := by
  intro front back back' hstop
  have hsame : ∀ rest, runTrial sc (front ++ rest) = runTrial sc front := fun rest =>
    congrArg Prod.fst (runScheduleFrom_stopped 0 hstop rest)
  dsimp only
  rw [hsame back, hsame back']

/-- **The replay of a minimised schedule gets to every entry.** Before each of them it has executed all that come
before, none has failed or found its thread not READY, and some thread is not DONE. -/
theorem minimized_goes_on (hv : sc.Valid) {trace : Trace} (hlen : trace.schedule.toList.length ≠ 1)
    (hbug : ShowsBug sc (runSchedule sc (engineInit sc) trace.schedule.toList).1) {p rest : List Int} {t : Int}
    (hp : (traceMinimize sc trace).1.schedule.toList = p ++ t :: rest) :
    (runSchedule sc (engineInit sc) p).2 = true ∧
      (runSchedule sc (engineInit sc) p).1.failed = false ∧
      allDone sc (runSchedule sc (engineInit sc) p).1.world = false ∧
      (runSchedule sc (engineInit sc) p).1.trace.schedule.toList = p := by
  have hfails : stillFails sc (runTrial sc trace.schedule.toList) = true := (stillFails_iff hv).mpr hbug
  rw [LiveArray.length_toList] at hlen
  rw [traceMinimize_schedule] at hp
  split at hp
  · rename_i hempty
    rw [LiveArray.toList_eq_nil.mpr hempty] at hp
    exact absurd hp.symm (List.append_ne_nil_of_right_ne_nil _ (List.cons_ne_nil _ _))
  · have hhalf : 1 ≤ trace.schedule.count / 2 := by omega
    have hlive := DeltaDebug.shrink_live (stops_runTrial sc) hhalf trace.schedule hfails p.length
    rw [← LiveArray.length_toList, hp, List.take_left' rfl, List.length_append, List.length_cons] at hlive
    have hgoes : GoesOn sc (runSchedule sc (engineInit sc) p) := hlive (by omega)
    have hfresh : ((engineInit sc).reset sc).failed = false := rfl
    obtain ⟨hok, hrec⟩ := runScheduleFrom_goesOn 0 hfresh hgoes
    exact ⟨hgoes.1, hok, hgoes.2, hrec⟩

theorem minimized_goes_on_abba :
    ∃ p t rest, (traceMinimize abbaDeadlock abbaTrace).1.schedule.toList = p ++ t :: rest ∧
      (runSchedule abbaDeadlock (engineInit abbaDeadlock) p).2 = true ∧
      (runSchedule abbaDeadlock (engineInit abbaDeadlock) p).1.failed = false ∧
      allDone abbaDeadlock (runSchedule abbaDeadlock (engineInit abbaDeadlock) p).1.world = false ∧
      (runSchedule abbaDeadlock (engineInit abbaDeadlock) p).1.trace.schedule.toList = p := by
  have hshows : ShowsBug abbaDeadlock
      (runSchedule abbaDeadlock (engineInit abbaDeadlock) abbaTrace.schedule.toList).1 :=
    (stillFails_iff (by decide)).mp (by decide +kernel)
  have hmin : (traceMinimize abbaDeadlock abbaTrace).1.schedule.toList = [0, 1, 0] ++ 1 :: [] := by decide +kernel
  exact ⟨[0, 1, 0], 1, [], hmin, minimized_goes_on (by decide) (by decide) hshows hmin⟩

end Smash
