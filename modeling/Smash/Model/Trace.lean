import Smash.Model.Types

/-!
# Logging (`trace.c`)

`smash_trace_log` stamps an event with the engine's step counter, which no primitive changes. So a
primitive only *lists* what it logs, as `LogEntry`s, and the engine stamps the list
(`Trace.logAll`). `Outcome` is what one call of a primitive, or one scheduler step, leaves
behind: the new live state, that list, the failure message if it set `failed`, and the value it
returned.
-/

set_option autoImplicit false

namespace Smash

/-- The arguments of one `smash_trace_log` call, without the step. -/
structure LogEntry where
  type : EventType
  tid : Int
  resourceId : Int
  arg : Int
  deriving DecidableEq

/-! ## The event buffer -/

namespace Trace

/-- `smash_trace_init`. -/
def reset (trace : Trace) : Trace :=
  { events := trace.events.clear, truncated := false, schedule := trace.schedule.clear }

/-- `smash_trace_log`. -/
def log (trace : Trace) (step : Nat) (e : LogEntry) : Trace :=
  if smashMaxTrace ≤ trace.events.count then
    { trace with truncated := true }
  else
    { trace with events := trace.events.push ⟨step, e.type, e.tid, e.resourceId, e.arg⟩ }

def logAll (trace : Trace) (step : Nat) (es : List LogEntry) : Trace :=
  es.foldl (fun tr e => tr.log step e) trace

@[simp] theorem reset_schedule (trace : Trace) : trace.reset.schedule = trace.schedule.clear := rfl

/-- Logging never touches the schedule, … -/
@[simp] theorem log_schedule (trace : Trace) (step : Nat) (e : LogEntry) :
    (trace.log step e).schedule = trace.schedule := by
  unfold log
  split <;> rfl

@[simp] theorem logAll_schedule (trace : Trace) (step : Nat) (es : List LogEntry) :
    (trace.logAll step es).schedule = trace.schedule := by
  induction es generalizing trace with
  | nil => rfl
  | cons e es ih => exact (ih (trace.log step e)).trans (log_schedule trace step e)

end Trace

/-! ## Outcomes -/

/-- What one call leaves behind. -/
structure Outcome where
  world : World
  /-- The events it logs, oldest first. -/
  log : List LogEntry
  /-- `fail_msg`, when the call sets `failed`. -/
  fault : Option String
  /-- The value returned; `false` for a `void` function. -/
  ret : Bool
  /-- Whether `step_counter` was incremented. -/
  counted : Bool

namespace Outcome

/-- The call set `failed`. -/
def fail (w : World) (msg : String) (log : List LogEntry) : Outcome := ⟨w, log, some msg, false, false⟩

/-- The call returned `ret` without setting `failed`. -/
def ok (w : World) (log : List LogEntry) (ret : Bool) : Outcome := ⟨w, log, none, ret, false⟩

@[simp] theorem fail_fault (w : World) (msg : String) (log : List LogEntry) :
    (fail w msg log).fault = some msg := rfl

@[simp] theorem fail_world (w : World) (msg : String) (log : List LogEntry) :
    (fail w msg log).world = w := rfl

@[simp] theorem fail_ret (w : World) (msg : String) (log : List LogEntry) :
    (fail w msg log).ret = false := rfl

@[simp] theorem ok_fault (w : World) (log : List LogEntry) (ret : Bool) :
    (ok w log ret).fault = none := rfl

@[simp] theorem ok_world (w : World) (log : List LogEntry) (ret : Bool) :
    (ok w log ret).world = w := rfl

@[simp] theorem ok_ret (w : World) (log : List LogEntry) (ret : Bool) :
    (ok w log ret).ret = ret := rfl

/-- Change the live state after the call. -/
def mapWorld (o : Outcome) (f : World → World) : Outcome := { o with world := f o.world }

/-- Put what was logged before the call in front. -/
def afterLog (es : List LogEntry) (o : Outcome) : Outcome := { o with log := es ++ o.log }

@[simp] theorem mapWorld_fault (o : Outcome) (f : World → World) :
    (o.mapWorld f).fault = o.fault := rfl

@[simp] theorem mapWorld_world (o : Outcome) (f : World → World) :
    (o.mapWorld f).world = f o.world := rfl

@[simp] theorem afterLog_fault (es : List LogEntry) (o : Outcome) :
    (afterLog es o).fault = o.fault := rfl

@[simp] theorem afterLog_world (es : List LogEntry) (o : Outcome) :
    (afterLog es o).world = o.world := rfl

@[simp] theorem afterLog_ret (es : List LogEntry) (o : Outcome) :
    (afterLog es o).ret = o.ret := rfl

/-- `engine->step_counter++; return true;`, the end of a step that ran to the end. -/
def finish (o : Outcome) : Outcome := { o with ret := true, counted := true }

@[simp] theorem finish_fault (o : Outcome) : o.finish.fault = o.fault := rfl

@[simp] theorem finish_world (o : Outcome) : o.finish.world = o.world := rfl

end Outcome

end Smash
