import Smash.Model.Types

/-!
# Writing a trace (`trace.c`)

`smash_trace_dump_json` as the text that it prints. The system events, those of the thread `-1`, are written
without a `"tid"`.
-/

set_option autoImplicit false

namespace Smash

/-- `event_name`. -/
def eventName : EventType → String
  | .schedule => "SCHEDULE"
  | .mutexLockAttempt => "MTX_LOCK_ATTEMPT"
  | .mutexLockAcquired => "MTX_LOCK_ACQUIRED"
  | .mutexLockBlocked => "MTX_LOCK_BLOCKED"
  | .mutexUnlock => "MTX_UNLOCK"
  | .semWait => "SEM_WAIT"
  | .semWaitBlocked => "SEM_WAIT_BLOCKED"
  | .semSignal => "SEM_SIGNAL"
  | .semWakeup => "SEM_WAKEUP"
  | .yield => "YIELD"
  | .threadDone => "THREAD_DONE"
  | .deadlock => "DEADLOCK"
  | .invariantFail => "INVARIANT_FAIL"
  | .mutexTimedLockAttempt => "MTX_TIMED_LOCK_ATTEMPT"
  | .mutexTimedLockBlocked => "MTX_TIMED_LOCK_BLOCKED"
  | .mutexTimeoutExpired => "MTX_TIMEOUT_EXPIRED"
  | .semTimedWaitBlocked => "SEM_TIMED_WAIT_BLOCKED"
  | .semTimeoutExpired => "SEM_TIMEOUT_EXPIRED"
  | .sysLock => "SYS_LOCK"
  | .sysUnlock => "SYS_UNLOCK"
  | .isrEnter => "ISR_ENTER"
  | .isrExit => "ISR_EXIT"
  | .objectInit => "OBJ_INIT"
  | .objectDestroy => "OBJ_DESTROY"
  | .useAfterFree => "USE_AFTER_FREE"
  | .call => "CALL"
  | .ret => "RETURN"
  | .stackOverflow => "STACK_OVERFLOW"
  | .contextViolation => "CONTEXT_VIOLATION"

/-- The loop over the schedule, at entry `i`. -/
def dumpScheduleFrom : Nat → List Int → String
  | _, [] => ""
  | i, tid :: rest => (if i ≠ 0 then "," else "") ++ toString tid ++ dumpScheduleFrom (i + 1) rest

/-- One event. -/
def dumpEvent (e : TraceEvent) : String :=
  (if 0 ≤ e.tid then
    "    \x7b\"step\":" ++ toString e.step ++ ",\"type\":\"" ++ eventName e.type ++ "\",\"tid\":" ++ toString e.tid
  else "    \x7b\"step\":" ++ toString e.step ++ ",\"type\":\"" ++ eventName e.type ++ "\"") ++
  (if 0 ≤ e.resourceId then ",\"resource\":" ++ toString e.resourceId else "") ++
  (if e.arg ≠ 0 then ",\"arg\":" ++ toString e.arg else "") ++ "\x7d"

/-- The loop over the events, at event `i` of `count`. -/
def dumpEventsFrom (count : Nat) : Nat → List TraceEvent → String
  | _, [] => ""
  | i, e :: rest =>
    dumpEvent e ++ (if i + 1 < count then "," else "") ++ "\n" ++ dumpEventsFrom count (i + 1) rest

/-- `smash_trace_dump_json`. -/
def traceDumpJson (trace : Trace) : String :=
  "\x7b\n  \"schedule\": [" ++ dumpScheduleFrom 0 trace.schedule.toList ++ "],\n  \"events\": [\n" ++
    dumpEventsFrom trace.events.count 0 trace.events.toList ++ "  ]\n\x7d\n"

end Smash
