import Smash.Model.Minimize
import Smash.Proof.Replay

/-!
# Minimising keeps the failure

`DeltaDebug.shrink_smaller` at the test of `smash_trace_minimize`. The test is the three ways in which a
replay can end badly (`stillFails_iff`), so what the caller gets is a part of the schedule that ends in
one of them.
-/

set_option autoImplicit false

namespace Smash

variable {sc : Scenario}

/-- The test sees a bug exactly when there is one. -/
theorem stillFails_iff (hv : sc.Valid) {e : Engine} : stillFails sc e = true ↔ ShowsBug sc e := by
  unfold stillFails ShowsBug
  rw [← collectRunnable_eq_nil hv]
  simp only [Bool.or_eq_true, Bool.and_eq_true, Bool.not_eq_true', List.isEmpty_iff,
    Option.isSome_iff_ne_none, or_assoc]
  tauto

/-- What is left of a trace. -/
theorem traceMinimize_schedule (trace : Trace) :
    (traceMinimize sc trace).1.schedule = if trace.schedule.count = 0 then trace.schedule else
      DeltaDebug.shrink (fun trial => stillFails sc (runTrial sc trial)) (trace.schedule.count / 2)
        trace.schedule := by
  unfold traceMinimize
  split
  · rfl
  · rfl

/-- **Minimisation keeps the failure.** The minimised schedule is a subsequence of the recorded one, its
replay ends failed, rejected by a check or deadlocked if that of the recorded one does, and what is
returned is the number of entries removed. -/
theorem traceMinimize_showsBug (hv : sc.Valid) {trace : Trace}
    (hbug : ShowsBug sc (runSchedule sc (engineInit sc) trace.schedule.toList).1) :
    (traceMinimize sc trace).1.schedule.toList.Sublist trace.schedule.toList ∧
    ShowsBug sc (runSchedule sc (engineInit sc) (traceMinimize sc trace).1.schedule.toList).1 ∧
    (traceMinimize sc trace).2 =
      (trace.schedule.toList.length : Int) - (traceMinimize sc trace).1.schedule.toList.length := by
  by_cases hempty : trace.schedule.count = 0
  · have hout : traceMinimize sc trace = (trace, 0) := if_pos hempty
    rw [hout]
    exact ⟨.refl _, hbug, (Int.sub_self _).symm⟩
  · have hsmaller : DeltaDebug.Smaller (fun trial => stillFails sc (runTrial sc trial))
        trace.schedule (traceMinimize sc trace).1.schedule := by
      rw [traceMinimize_schedule, if_neg hempty]
      exact DeltaDebug.shrink_smaller _ _
    refine ⟨hsmaller.sublist, (stillFails_iff hv).mp (hsmaller.fails ((stillFails_iff hv).mpr hbug)), ?_⟩
    rw [LiveArray.length_toList, LiveArray.length_toList, traceMinimize, if_neg hempty]

/-- A recording of the ABBA deadlock that goes on with the deadlocked threads. -/
def abbaTrace : Trace :=
  { Engine.zero.trace with schedule := (LiveArray.replicate 0).overwrite [0, 1, 0, 1, 0, 1] }

theorem traceMinimize_showsBug_abba :
    let out := traceMinimize abbaDeadlock abbaTrace
    out.1.schedule.toList.Sublist abbaTrace.schedule.toList ∧
    ShowsBug abbaDeadlock
      (runSchedule abbaDeadlock (engineInit abbaDeadlock) out.1.schedule.toList).1 ∧
    out.2 = (abbaTrace.schedule.toList.length : Int) - out.1.schedule.toList.length :=
  traceMinimize_showsBug (by decide) ((stillFails_iff (by decide)).mp (by decide +kernel))

end Smash
