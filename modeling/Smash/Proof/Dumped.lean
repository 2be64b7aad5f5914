import Smash.Proof.Visualize

/-!
# Nothing is lost in a dump

`smash_trace_dump_json` leaves fields out: an id that is negative, an argument that is zero. Who reads them as -1 and
0 when they are missing (`readTrace`) gets the trace back, as long as no id is below -1 (`readTrace_dump`); those of
the explorer are not (`dump_read_back`).
-/

set_option autoImplicit false

namespace Smash

open Json (Scalar)

variable {sc : Scenario}

/-! ## A reader of the file -/

/-- The event types, in the order of the enumeration. -/
def eventTypes : List EventType :=
  [.schedule, .mutexLockAttempt, .mutexLockAcquired, .mutexLockBlocked, .mutexUnlock, .semWait, .semWaitBlocked,
    .semSignal, .semWakeup, .yield, .threadDone, .deadlock, .invariantFail, .mutexTimedLockAttempt,
    .mutexTimedLockBlocked, .mutexTimeoutExpired, .semTimedWaitBlocked, .semTimeoutExpired, .sysLock, .sysUnlock,
    .isrEnter, .isrExit, .objectInit, .objectDestroy, .useAfterFree, .call, .ret, .stackOverflow, .contextViolation]

/-- `event_name`, backwards. -/
def eventOfName (name : String) : Py EventType :=
  match eventTypes.find? fun type => eventName type = name with
  | some type => .ok type
  | none => .error (.keyError name)

/-- An event, with -1 for an id that is missing and 0 for the argument. -/
def readEvent (e : Json) : Py TraceEvent := do
  let step ← getItem e "step" >>= asInt
  let type ← getItem e "type" >>= asStr
  let type ← eventOfName type
  let tid ← dictGet e "tid" (.int (-1)) >>= asInt
  let resourceId ← dictGet e "resource" (.int (-1)) >>= asInt
  let arg ← dictGet e "arg" (.int 0) >>= asInt
  return ⟨step.toNat, type, tid, resourceId, arg⟩

/-- The schedule and the events of a file. -/
def readTrace (text : String) : Py (List Int × List TraceEvent) := do
  let data ← loadTrace text
  let schedule ← getItem data "schedule" >>= iter
  let schedule ← schedule.mapM asInt
  let events ← getItem data "events" >>= iter
  let events ← events.mapM readEvent
  return (schedule, events)

/-! ## It reads what was written -/

/-- No two types have one name. -/
theorem eventOfName_eventName (type : EventType) : eventOfName (eventName type) = .ok type := by
  cases type <;> rfl

theorem dictGet_tid (e : TraceEvent) :
    dictGet (eventJson e) "tid" (.int (-1)) = .ok (.int (if 0 ≤ e.tid then e.tid else -1)) := by
  unfold eventJson eventFields Json.record dictGet Json.field?
  split_ifs <;> simp [Scalar.json, List.lookup_cons]

theorem dictGet_resource (e : TraceEvent) :
    dictGet (eventJson e) "resource" (.int (-1)) = .ok (.int (if 0 ≤ e.resourceId then e.resourceId else -1)) := by
  unfold eventJson eventFields Json.record dictGet Json.field?
  split_ifs <;> simp [Scalar.json, List.lookup_cons]

theorem dictGet_arg (e : TraceEvent) : dictGet (eventJson e) "arg" (.int 0) = .ok (.int e.arg) := by
  unfold eventJson eventFields Json.record dictGet Json.field?
  split_ifs <;> simp [Scalar.json, List.lookup_cons]
  all_goals omega

theorem readEvent_eventJson {e : TraceEvent} (htid : -1 ≤ e.tid) (hres : -1 ≤ e.resourceId) :
    readEvent (eventJson e) = .ok e := by
  have hid : ∀ n : Int, -1 ≤ n → (if 0 ≤ n then n else -1) = n := fun n hn => by
    split
    · rfl
    · omega
  unfold readEvent
  rw [getItem_step, getItem_type, dictGet_tid, dictGet_resource, dictGet_arg, hid _ htid, hid _ hres]
  simp only [asInt, asStr, bind, Except.bind, eventOfName_eventName, pure, Except.pure, Int.toNat_natCast]

/-- Reading item after item. -/
theorem mapM_ok {α β γ : Type} {f : β → Py γ} {g : α → β} {h : α → γ} {l : List α}
    (hf : ∀ x ∈ l, f (g x) = .ok (h x)) : (l.map g).mapM f = .ok (l.map h) := by
  induction l with
  | nil => rfl
  | cons x l ih =>
    obtain ⟨hx, hrest⟩ := List.forall_mem_cons.mp hf
    rw [List.map_cons, List.mapM_cons, hx, ih hrest, List.map_cons]
    rfl

/-- **What is written is what is read.** -/
theorem readTrace_dump {trace : Trace} (h : ∀ e ∈ trace.events.toList, -1 ≤ e.tid ∧ -1 ≤ e.resourceId) :
    readTrace (traceDumpJson trace) = .ok (trace.schedule.toList, trace.events.toList) := by
  have hschedule : getItem (traceJson trace) "schedule" = .ok (.arr (trace.schedule.toList.map .int)) := rfl
  have htids : (trace.schedule.toList.map Json.int).mapM asInt = .ok trace.schedule.toList := by
    rw [@mapM_ok _ _ _ asInt Json.int id _ fun _ _ => rfl, List.map_id]
  have hevents : (trace.events.toList.map eventJson).mapM readEvent = .ok trace.events.toList := by
    rw [@mapM_ok _ _ _ readEvent eventJson id _ fun e he => readEvent_eventJson (h e he).1 (h e he).2, List.map_id]
  unfold readTrace
  rw [loadTrace_traceDumpJson]
  simp only [bind, Except.bind, hschedule, getItem_events, iter, htids, hevents, pure, Except.pure]

/-! ## The ids of a recorded trace -/

/-- An entry that can be told from the fields that are left out. -/
def LogEntry.Dumpable (e : LogEntry) : Prop := -1 ≤ e.tid ∧ -1 ≤ e.resourceId

theorem executeStep_dumpable (hv : sc.Valid) {w : World} {t : Int} (h : QueuesOfThreads sc w)
    (hready : sc.Ready w t) : ∀ e ∈ (w.executeStep sc t).log, e.Dumpable := by
  intro e he
  have htid := executeStep_tid hv h hready e he
  refine ⟨by omega, ?_⟩
  rw [executeStep_log hv (ready_tick hready), tick_log] at he
  rcases List.mem_append.mp he with he | he
  · obtain ⟨i, _, rfl⟩ := List.mem_map.mp he
    exact Int.le_refl _
  rcases List.mem_cons.mp he with rfl | he
  · unfold World.opening
    split
    · exact Int.le_refl _
    · exact Int.le_refl _
  · unfold World.report at he
    split at he
    · exact absurd he List.not_mem_nil
    · rename_i a hact
      rcases (dispatch_reports _ t a e he).resource with hres | hres
      · rw [hres]
        rcases hv.bounds.resourceId_ok t hready.1 _ a hact with hnone | hin
        · rw [hnone]
        · exact Int.le_trans (by decide) hin.1
      · rw [hres]

theorem RecordedTrace.dumpable (hv : sc.Valid) {trace : Trace} (h : RecordedTrace sc trace) :
    ∀ e ∈ trace.entries, e.Dumpable := by
  have hreplay : ∀ e ∈ (runSchedule sc (engineInit sc) trace.schedule.toList).1.trace.entries, e.Dumpable := by
    rw [runSchedule_entries hv]
    exact fun e he => h.executed.forall_log (fun w t hw hready => executeStep_dumpable hv hw hready)
      (fun w t hw hready hok => hw.step hready.1 hok) (queuesOfThreads_start sc) e (List.mem_of_mem_take he)
  cases h with
  | @deadlock s hlen hrun _ _ =>
    have hsched : (nodeAt sc s).trace.schedule.toList = s := nodeAt_schedule (Nat.le_of_lt hlen)
    rw [Trace.log_schedule, hsched, runSchedule_trace_of_clean hv (Nat.le_of_lt hlen) hrun] at hreplay
    intro e he
    unfold Trace.log at he
    split at he
    · exact hreplay e he
    · simp only [Trace.entries, LiveArray.toList_push, List.map_append, List.map_singleton, List.mem_append,
        List.mem_singleton] at he
      rcases he with he | rfl
      · exact hreplay e he
      · exact ⟨Int.le_refl _, Int.le_refl _⟩
  | @violation s t hlen hrun hready _ =>
    have hroom : (s ++ [t]).length ≤ smashMaxDepth := by
      rw [List.length_append, List.length_singleton]
      omega
    have hsched : (nodeAt sc (s ++ [t])).trace.schedule.toList = s ++ [t] := nodeAt_schedule hroom
    rw [hsched, runSchedule_trace_of_last hv hroom hrun hready] at hreplay
    exact hreplay

/-- **Every trace that `smash_explore` returns can be read back** from its JSON, also that of a rejected
scenario. -/
theorem dump_read_back (sc : Scenario) (cfg : Config) (stack : Nat → Saved) {trace : Trace}
    (h : (explore sc cfg stack).failingTrace = some trace) :
    readTrace (traceDumpJson trace) = .ok (trace.schedule.toList, trace.events.toList) := by
  refine readTrace_dump ?_
  by_cases hv : sc.Valid
  · exact fun e he => (explore_recordedTrace hv cfg stack h).dumpable hv e.entry (List.mem_map_of_mem he)
  · have hrejected : (scenarioValidate sc).isSome = true := Option.isSome_iff_ne_none.mpr hv
    rw [explore, if_pos hrejected] at h
    cases h
    exact List.forall_mem_singleton.mpr ⟨Int.le_refl _, Int.le_refl _⟩

theorem dump_read_back_abba :
    ∃ trace, (explore abbaDeadlock ⟨false, false, 512, none, true⟩
        fun _ => rootNode abbaDeadlock).failingTrace = some trace ∧
      readTrace (traceDumpJson trace) = .ok (trace.schedule.toList, trace.events.toList) := by
  have hfound : (explore abbaDeadlock ⟨false, false, 512, none, true⟩
      fun _ => rootNode abbaDeadlock).failingTrace.isSome = true := by decide +kernel
  obtain ⟨trace, htrace⟩ := Option.isSome_iff_exists.mp hfound
  exact ⟨trace, htrace, dump_read_back abbaDeadlock _ _ htrace⟩

end Smash
