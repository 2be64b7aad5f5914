import Smash.Proof.Minimize
import Smash.Proof.Recorded

/-!
# A trace's two views

A trace holds the schedule of a run and the events of the same run. `smash_trace_minimize` leaves entries out
of the first and does not touch the second. A schedule can be read off the events that it logs
(`length_le_of_log_eq`), so the two belong together afterwards exactly if there was nothing to leave out
(`traceMinimize_consistent_iff`).
-/

set_option autoImplicit false

namespace Smash

variable {sc : Scenario}

/-- The events are those of a run of the schedule on a fresh engine. -/
def SelfConsistent (sc : Scenario) (trace : Trace) : Prop :=
  trace.stepEvents = (runSchedule sc (engineInit sc) trace.schedule.toList).1.trace.events.toList

/-- No chunk of half the schedule, or of a half of that, and so on down to one entry, can be left out: the
replay without it neither fails nor violates a check nor deadlocks. -/
def Trace.Irreducible (sc : Scenario) (trace : Trace) : Prop :=
  ∀ size start, DeltaDebug.Tried (trace.schedule.count / 2) trace.schedule.toList size start →
    ¬ ShowsBug sc (runSchedule sc (engineInit sc)
      (DeltaDebug.withoutChunk trace.schedule.toList start size)).1

/-! ## The schedule in the events -/

/-- The first thread that runs can be read off the log. -/
theorem head_eq_of_log_eq (hv : sc.Valid) {w : World} {t t' : Int} {rest rest' : List Int}
    (hready : sc.Ready w t) (h : replayLog sc w (t :: rest) = replayLog sc w (t' :: rest')) : t' = t := by
  rw [replayLog_cons rest hready, executeStep_log hv (ready_tick hready), List.append_assoc,
    List.cons_append] at h
  have hlong : ∀ {l : List LogEntry}, (w.tick sc).2 ++ l = (w.tick sc).2 → l = [] := fun heq =>
    List.append_right_eq_self.mp heq
  rw [replayLog, not_allDone_of_ready hready, if_neg Bool.false_ne_true] at h
  by_cases hrange : t' < 0 ∨ sc.threadCount ≤ t'
  · rw [if_pos hrange] at h
    exact absurd (List.append_eq_nil_iff.mp h).2 (List.cons_ne_nil _ _)
  rw [if_neg hrange] at h
  dsimp only at h
  by_cases hidle : ((w.tick sc).1.threads t').state ≠ .ready
  · obtain ⟨hlog, hret⟩ := @executeStep_of_idle sc w t' hidle
    rw [hlog, if_pos (Or.inl hret), List.append_nil] at h
    exact absurd (hlong h) (List.cons_ne_nil _ _)
  · have hready' : sc.Ready (w.tick sc).1 t' := by
      refine ⟨?_, not_not.mp hidle⟩
      unfold Scenario.IsThread
      omega
    rw [executeStep_log hv hready', List.append_assoc, List.cons_append] at h
    have hopen := (List.cons.inj (List.append_cancel_left h)).1
    calc t' = ((w.tick sc).1.opening sc t').tid := (opening_tid ..).symm
      _ = ((w.tick sc).1.opening sc t).tid := by rw [hopen]
      _ = t := opening_tid ..

/-- **A schedule that is executed to the end is no longer than one that logs the same.** -/
theorem length_le_of_log_eq (hv : sc.Valid) {w : World} {s s' : List Int} (h : Executed sc w s)
    (heq : replayLog sc w s = replayLog sc w s') : s.length ≤ s'.length := by
  have hnonempty : ∀ {w : World} {t : Int} {rest : List Int}, sc.Ready w t →
      replayLog sc w (t :: rest) ≠ [] := by
    intro w t rest hready hnil
    rw [replayLog_cons rest hready, executeStep_log hv (ready_tick hready), List.append_assoc,
      List.cons_append] at hnil
    exact absurd (List.append_eq_nil_iff.mp hnil).2 (List.cons_ne_nil _ _)
  induction h generalizing s' with
  | nil => exact Nat.zero_le _
  | last hready =>
    cases s' with
    | nil => exact absurd heq (hnonempty hready)
    | cons t' rest' => exact Nat.succ_le_succ (Nat.zero_le _)
  | @cons w t rest hready hok _ ih =>
    cases s' with
    | nil => exact absurd heq (hnonempty hready)
    | cons t' rest' =>
      obtain rfl := head_eq_of_log_eq hv hready heq
      rw [replayLog_cons rest hready, replayLog_cons rest' hready, hok] at heq
      exact Nat.succ_le_succ (ih (List.append_cancel_left heq))

/-! ## What minimising does to the two views -/

theorem traceMinimize_events (trace : Trace) : (traceMinimize sc trace).1.events = trace.events := by
  unfold traceMinimize
  split <;> rfl

/-- The minimiser's own test sees it. -/
theorem irreducible_iff (hv : sc.Valid) {trace : Trace} : trace.Irreducible sc ↔
    DeltaDebug.Irreducible (fun trial => stillFails sc (runTrial sc trial)) (trace.schedule.count / 2)
      trace.schedule.toList := by
  refine forall_congr' fun size => forall_congr' fun start => imp_congr_right fun _ => ?_
  rw [← stillFails_iff hv, Bool.not_eq_true]
  rfl

/-- An irreducible trace is left as it is. -/
theorem traceMinimize_of_irreducible (hv : sc.Valid) {trace : Trace} (h : trace.Irreducible sc) :
    (traceMinimize sc trace).1 = trace := by
  unfold traceMinimize
  split
  · rfl
  · dsimp only
    rw [DeltaDebug.shrink_of_irreducible ((irreducible_iff hv).mp h)]

/-- Any other loses an entry of its schedule. -/
theorem traceMinimize_length_lt (hv : sc.Valid) {trace : Trace} (h : ¬ trace.Irreducible sc) :
    (traceMinimize sc trace).1.schedule.toList.length < trace.schedule.toList.length := by
  have hlt := DeltaDebug.shrink_count_lt (mt (irreducible_iff hv).mpr h)
  rw [LiveArray.length_toList, LiveArray.length_toList, traceMinimize_schedule]
  split
  · rename_i hempty
    omega
  · exact hlt

/-- A shorter schedule logs something else. -/
theorem not_consistent_of_shorter (hv : sc.Valid) {trace trace' : Trace} (h : RecordedTrace sc trace)
    (hevents : trace'.events = trace.events)
    (hlt : trace'.schedule.toList.length < trace.schedule.toList.length) : ¬ SelfConsistent sc trace' := by
  intro hself
  have hstep : trace'.stepEvents = trace.stepEvents := stepEvents_congr hevents
  have hsame : (runSchedule sc (engineInit sc) trace.schedule.toList).1.trace.entries =
      (runSchedule sc (engineInit sc) trace'.schedule.toList).1.trace.entries :=
    congrArg (List.map TraceEvent.entry) ((recordedTrace_replay hv h).symm.trans (hstep.symm.trans hself))
  rw [runSchedule_entries hv, runSchedule_entries hv] at hsame
  have hshort := length_replayLog_lt hv h.executed h.length_le
  rw [List.take_of_length_le (Nat.le_of_lt hshort)] at hsame
  have hfits : (replayLog sc (startWorld sc) trace'.schedule.toList).length ≤ smashMaxTrace := by
    have hlen := congrArg List.length hsame
    rw [List.length_take] at hlen
    omega
  rw [List.take_of_length_le hfits] at hsame
  exact absurd (length_le_of_log_eq hv h.executed hsame) (Nat.not_le_of_lt hlt)

/-- **The minimised trace is self-consistent exactly if there was nothing to leave out.** -/
theorem traceMinimize_consistent_iff (hv : sc.Valid) (cfg : Config) (stack : Nat → Saved) {trace : Trace}
    (h : (explore sc cfg stack).failingTrace = some trace) :
    SelfConsistent sc (traceMinimize sc trace).1 ↔ trace.Irreducible sc := by
  have hrec := explore_recordedTrace hv cfg stack h
  constructor
  · intro hself
    by_contra hred
    exact not_consistent_of_shorter hv hrec (traceMinimize_events trace) (traceMinimize_length_lt hv hred)
      hself
  · intro hirr
    rw [traceMinimize_of_irreducible hv hirr]
    exact recordedTrace_replay hv hrec

/-- One thread yields and the other unlocks a mutex that it does not own. -/
def strayUnlock : Scenario := .ofSteps [[⟨.yield, -1, 0⟩], [⟨.mutexUnlock, 0, 0⟩]] [.mutex] []

theorem traceMinimize_consistent_iff_abba :
    let cfg : Config := ⟨false, false, 512, none, true⟩
    let stack : Nat → Saved := fun _ => rootNode abbaDeadlock
    ∃ trace, (explore abbaDeadlock cfg stack).failingTrace = some trace ∧
      (SelfConsistent abbaDeadlock (traceMinimize abbaDeadlock trace).1 ↔ trace.Irreducible abbaDeadlock) := by
  intro cfg stack
  have hfound : (explore abbaDeadlock cfg stack).failingTrace.isSome = true := by decide +kernel
  obtain ⟨trace, htrace⟩ := Option.isSome_iff_exists.mp hfound
  exact ⟨trace, htrace, traceMinimize_consistent_iff (by decide) cfg stack htrace⟩

/-- The yield is left out of the schedule, and stays in the events. -/
theorem strayUnlock_inconsistent :
    ¬ ∀ sc : Scenario, sc.Valid → ∀ (cfg : Config) (stack : Nat → Saved) (trace : Trace),
      (explore sc cfg stack).failingTrace = some trace → SelfConsistent sc (traceMinimize sc trace).1 := by
  intro hclaim
  have hsched : (explore strayUnlock ⟨false, false, 512, none, true⟩
      fun _ => rootNode strayUnlock).failingTrace.map (·.schedule.toList) = some [0, 0, 1] := by
    decide +kernel
  obtain ⟨trace, htrace, hlist⟩ := Option.map_eq_some_iff.mp hsched
  have hrec := explore_recordedTrace (by decide) _ _ htrace
  have hv : strayUnlock.Valid := by decide
  have hred : ¬ trace.Irreducible strayUnlock := by
    intro hirr
    have hcount : trace.schedule.count = 3 := by rw [← LiveArray.length_toList, hlist]; rfl
    have hkept := (irreducible_iff hv).mp hirr 1 0
      ⟨⟨0, by rw [hcount]; rfl⟩, le_rfl, dvd_zero _, by rw [hlist]; decide⟩
    rw [hlist] at hkept
    exact absurd hkept (by decide +kernel)
  exact not_consistent_of_shorter hv hrec (traceMinimize_events trace) (traceMinimize_length_lt hv hred)
    (hclaim strayUnlock hv _ _ trace htrace)

end Smash
