import Smash.Lib.DeltaDebug
import Smash.Model.Spec

/-!
# Minimising a trace (`trace.c`)

`smash_trace_minimize` is delta debugging (`DeltaDebug.shrink`) of the recorded schedule. The test is a
replay on an engine that is initialised anew for each trial, so what the caller's engine held before is
no argument. `chunk` starts at half the schedule; a schedule of one entry is never tried without it.
-/

set_option autoImplicit false

namespace Smash

/-- `still_fails`: a hard fault, an invariant violation or a deadlock. -/
def stillFails (sc : Scenario) (e : Engine) : Bool :=
  e.failed || (checkAll sc e.world).isSome ||
    (!allDone sc e.world && (collectRunnable sc e.world smashMaxThreads).isEmpty)

/-- One trial: initialise the engine and run the schedule. -/
def runTrial (sc : Scenario) (trial : List Int) : Engine := (runSchedule sc (engineInit sc) trial).1

/-- `smash_trace_minimize`: the trace it leaves, and the value it returns. -/
def traceMinimize (sc : Scenario) (trace : Trace) : Trace × Int :=
  if trace.schedule.count = 0 then (trace, 0)
  else
    let originalLen := trace.schedule.count
    let schedule := DeltaDebug.shrink (fun trial => stillFails sc (runTrial sc trial))
      (originalLen / 2) trace.schedule
    ({ trace with schedule := schedule }, originalLen - schedule.count)

end Smash
