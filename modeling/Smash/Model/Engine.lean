import Smash.Model.Primitives

/-!
# The execution engine (`engine.c`)

`World.executeStep` is `smash_execute_step` on the live state, and `Engine.executeStep` is the
same with the trace, the step counter and the failure flag around it. The step has two parts: the
clock (`World.tick`), which counts down every timed wait whoever is scheduled, and the `switch`
over the scheduled thread's action (`World.dispatch`).

Three action types of the header, `ACT_COND_WAIT_TIMEOUT`, `ACT_MB_POST_TIMEOUT` and
`ACT_MB_FETCH_TIMEOUT`, have no case in the `switch`: the step is counted and nothing happens, not
even to `pc`.
-/

set_option autoImplicit false

namespace Smash

/-! ## Scenarios -/

/-- `smash_scenario_validate`: the message, or `none` for a scenario it accepts. -/
def scenarioValidate (sc : Scenario) : Option String :=
  if sc.threadCount ≤ 0 ∨ (smashMaxThreads : Int) < sc.threadCount then
    some s!"thread_count {sc.threadCount} out of range [1,{smashMaxThreads}]"
  else if sc.resourceCount < 0 ∨ (smashMaxResources : Int) < sc.resourceCount then
    some s!"resource_count {sc.resourceCount} out of range [0,{smashMaxResources}]"
  else
    sc.threadIds.findSome? fun t =>
      if sc.stepCount t < 0 ∨ (smashMaxSteps : Int) < sc.stepCount t then
        some s!"T{t} step_count {sc.stepCount t} out of range [0,{smashMaxSteps}]"
      else
        (List.range (sc.stepCount t).toNat).findSome? fun s =>
          let rid := (sc.steps t s).resourceId
          if rid ≠ smashNoResource ∧ (rid < 0 ∨ sc.resourceCount ≤ rid) then
            some s!"T{t} step {s}: resource_id {rid} out of range"
          else none

/-- The action a thread's `pc` points at, when it is inside its step list. -/
def Scenario.actionAt (sc : Scenario) (tid : Int) (pc : Nat) : Option Action :=
  if (pc : Int) < sc.stepCount tid then some (sc.steps tid pc) else none

/-! ## Initial states -/

/-- A thread after `smash_engine_reset`; the cells of its stack keep what they held. -/
def Thread.reset (sc : Scenario) (i : Int) (t : Thread) : Thread :=
  { id := i
    basePriority := sc.priorities i
    priority := sc.priorities i
    state := .ready
    pc := 0
    blockedOn := -1
    timeoutTicks := -1
    ownedMutexStack := t.ownedMutexStack.clear
    execCtx := .thread
    sysLockDepth := 0
    isrDepth := 0
    stackDepth := 0
    stackWatermark := 0 }

/-- A resource after `smash_engine_reset`; messages and dead waiter cells stay. -/
def Resource.reset (sc : Scenario) (i : Int) (r : Resource) : Resource :=
  { type := sc.resTypes i
    id := i
    owner := -1
    count := sc.semInit i
    associatedMutex := sc.associatedMutex i
    mbCapacity := sc.mbCapacity i
    mbMessages := r.mbMessages
    mbHead := 0
    mbTail := 0
    mbCount := 0
    waiters := r.waiters.clear
    alive := true }

/-- The two loops of `smash_engine_reset`. -/
def World.reset (sc : Scenario) (w : World) : World where
  threads i := if sc.IsThread i then (w.threads i).reset sc i else w.threads i
  resources i := if sc.IsResource i then (w.resources i).reset sc i else w.resources i

/-- `memset` to zero. -/
def World.zero : World where
  threads _ :=
    { id := 0, basePriority := 0, priority := 0, state := .ready, pc := 0, blockedOn := 0
      timeoutTicks := 0, ownedMutexStack := .replicate 0, execCtx := .thread, sysLockDepth := 0
      isrDepth := 0, stackDepth := 0, stackWatermark := 0 }
  resources _ :=
    { type := .mutex, id := 0, owner := 0, count := 0, associatedMutex := 0, mbCapacity := 0
      mbMessages := fun _ => 0, mbHead := 0, mbTail := 0, mbCount := 0, waiters := .replicate 0
      alive := false }

/-- No slot in use. -/
def StateTable.empty : StateTable := { stateHt := fun _ => 0, stateHashCount := 0 }

def Engine.zero : Engine where
  world := .zero
  trace := { events := .replicate ⟨0, .schedule, 0, 0, 0⟩, truncated := false, schedule := .replicate 0 }
  maxDepthReached := 0
  table := .empty
  stepCounter := 0
  failed := false
  failMsg := ""

/-- `smash_engine_reset`. -/
def Engine.reset (sc : Scenario) (e : Engine) : Engine :=
  { e with
    world := e.world.reset sc
    trace := e.trace.reset
    stepCounter := 0
    failed := false
    failMsg := ""
    table := .empty }

/-- `smash_engine_init`. What the engine held before is overwritten, so it is no argument. -/
def engineInit (sc : Scenario) : Engine :=
  match scenarioValidate sc with
  | some msg => { Engine.zero with failed := true, failMsg := s!"smash_engine_init: invalid scenario: {msg}" }
  | none => Engine.zero.reset sc

/-- `smash_collect_runnable` into an array of `max` cells. -/
def collectRunnable (sc : Scenario) (w : World) (max : Nat) : List Int :=
  (sc.threadIds.filter fun i => (w.threads i).state = .ready).take max

/-- `smash_all_done`. -/
def allDone (sc : Scenario) (w : World) : Bool :=
  sc.threadIds.all fun i => (w.threads i).state = .done

/-! ## The clock -/

/-- A blocked thread with a countdown running. -/
def Thread.timed (t : Thread) : Bool := t.blocked && 0 < t.timeoutTicks

/-- The countdown runs out at this tick. -/
def Thread.expires (t : Thread) : Bool := t.timed && t.timeoutTicks - 1 = 0

/-- One turn of the timeout loop: a thread whose time is up resumes past its wait. It stays in the
wait queue of whatever it was waiting for. -/
def Thread.tick (t : Thread) : Thread :=
  if t.expires then { t.resume.advance with timeoutTicks := -1 }
  else if t.timed then { t with timeoutTicks := t.timeoutTicks - 1 }
  else t

/-- The timeout loop. The event is chosen after `state` has been set to `THREAD_READY`, so it is
never `EVT_MUTEX_TIMEOUT_EXPIRED`. -/
def World.tick (sc : Scenario) (w : World) : World × List LogEntry :=
  sc.threadIds.foldl
    (fun (acc : World × List LogEntry) i =>
      let t := acc.1.threads i
      (acc.1.modThread i (·.tick),
        if t.expires then
          acc.2 ++ [⟨if t.tick.state = .blockedMutex then .mutexTimeoutExpired else .semTimeoutExpired,
            i, -1, 0⟩]
        else acc.2))
    (w, [])

/-! ## The actions -/

/-- `t->pc++` for the scheduled thread. -/
def World.advance (w : World) (tid : Int) : World := w.modThread tid (·.advance)

/-- `if (primitive(...)) t->pc++;`. -/
def Outcome.advanceIfTrue (o : Outcome) (tid : Int) : Outcome :=
  if o.ret then o.mapWorld (·.advance tid) else o

/-- `else if (t->state == blocked) t->timeout_ticks = ticks;`, the tail of the two timed waits. -/
def Outcome.armTimeout (o : Outcome) (tid : Int) (blocked : ThreadState) (ticks : Int) : Outcome :=
  if o.ret = false ∧ (o.world.threads tid).state = blocked then
    o.mapWorld fun w => w.modThread tid fun t => { t with timeoutTicks := ticks }
  else o

/-- `(act.arg > 0) ? act.arg : dflt`. -/
def argOr (arg dflt : Int) : Int := if 0 < arg then arg else dflt

/-- `ACT_DONE`: a mutex still held is a fault, and the thread is DONE all the same. -/
def actDone (w : World) (tid : Int) : Outcome :=
  let held := (w.threads tid).ownedMutexStack.count
  let done := w.modThread tid fun t => { t with state := .done }
  if 0 < held then
    (Outcome.fail done
      s!"T{tid} exited while holding {held} mutex(es) — ChibiOS does not auto-release on exit"
      [⟨.invariantFail, tid, -1, held⟩, ⟨.threadDone, tid, -1, 0⟩]).finish
  else (Outcome.ok done [⟨.threadDone, tid, -1, 0⟩] true).finish

/-- `ACT_SYS_LOCK`. -/
def actSysLock (w : World) (tid : Int) : Outcome :=
  let depth := (w.threads tid).sysLockDepth + 1
  (Outcome.ok ((w.modThread tid fun t => { t with sysLockDepth := depth, execCtx := .sysLock }).advance tid)
    [⟨.sysLock, tid, -1, depth⟩] true).finish

/-- `ACT_SYS_UNLOCK`. -/
def actSysUnlock (w : World) (tid : Int) : Outcome :=
  if (w.threads tid).sysLockDepth ≤ 0 then
    .fail w s!"T{tid} ACT_SYS_UNLOCK with sys_lock_depth=0 (unbalanced)"
      [⟨.contextViolation, tid, -1, 0⟩]
  else
    let depth := (w.threads tid).sysLockDepth - 1
    (Outcome.ok ((w.modThread tid fun t =>
        { t with sysLockDepth := depth, execCtx := if 0 < depth then .sysLock else .thread }).advance tid)
      [⟨.sysUnlock, tid, -1, depth⟩] true).finish

/-- `ACT_ISR_ENTER`. -/
def actIsrEnter (w : World) (tid : Int) : Outcome :=
  let depth := (w.threads tid).isrDepth
  if smashMaxIsrDepth ≤ depth then
    .fail w s!"T{tid} ISR nesting depth {depth} exceeds SMASH_MAX_ISR_DEPTH={smashMaxIsrDepth}" []
  else
    (Outcome.ok ((w.modThread tid fun t => { t with isrDepth := depth + 1, execCtx := .isr }).advance tid)
      [⟨.isrEnter, tid, -1, depth + 1⟩] true).finish

/-- `ACT_ISR_EXIT`: the context changes only when the outermost handler ends. -/
def actIsrExit (w : World) (tid : Int) : Outcome :=
  if (w.threads tid).isrDepth ≤ 0 then
    .fail w s!"T{tid} ACT_ISR_EXIT with isr_depth=0 (unbalanced)"
      [⟨.contextViolation, tid, -1, 0⟩]
  else
    let depth := (w.threads tid).isrDepth - 1
    (Outcome.ok ((w.modThread tid fun t =>
        { t with
          isrDepth := depth
          execCtx := if depth = 0 then (if 0 < t.sysLockDepth then .sysLock else .thread)
            else t.execCtx }).advance tid)
      [⟨.isrExit, tid, -1, depth⟩] true).finish

/-- `ACT_OBJECT_INIT`. -/
def actObjectInit (w : World) (tid rid : Int) : Outcome :=
  (Outcome.ok ((w.modResource rid fun r => { r with alive := true }).advance tid)
    [⟨.objectInit, tid, rid, 0⟩] true).finish

/-- `ACT_OBJECT_DESTROY`. -/
def actObjectDestroy (w : World) (tid rid : Int) : Outcome :=
  if (w.resources rid).alive = false then
    .fail w s!"T{tid} ACT_OBJECT_DESTROY on already-dead resource {rid}"
      [⟨.contextViolation, tid, rid, 0⟩]
  else
    (Outcome.ok ((w.modResource rid fun r => { r with alive := false }).advance tid)
      [⟨.objectDestroy, tid, rid, 0⟩] true).finish

/-- `ACT_CALL`: the depth and the watermark are raised before the limit is checked. -/
def actCall (sc : Scenario) (w : World) (tid arg : Int) : Outcome :=
  let depth := (w.threads tid).stackDepth + argOr arg 1
  let called := w.modThread tid fun t =>
    { t with stackDepth := depth, stackWatermark := if t.stackWatermark < depth then depth else t.stackWatermark }
  let limit := sc.stackSizes tid
  if 0 < limit ∧ limit < depth then
    .fail called s!"T{tid} stack overflow: depth={depth} limit={limit}"
      [⟨.stackOverflow, tid, -1, depth⟩]
  else (Outcome.ok (called.advance tid) [⟨.call, tid, -1, depth⟩] true).finish

/-- `ACT_RETURN`: an unbalanced return is clamped at zero. -/
def actReturn (w : World) (tid arg : Int) : Outcome :=
  let units := argOr arg 1
  let left := (w.threads tid).stackDepth - units
  let depth := if left < 0 then 0 else left
  (Outcome.ok ((w.modThread tid fun t => { t with stackDepth := depth }).advance tid)
    [⟨.ret, tid, -1, depth⟩] true).finish

/-- The `switch` of `smash_execute_step`. -/
def World.dispatch (sc : Scenario) (w : World) (tid : Int) (act : Action) : Outcome :=
  match act.type with
  | .mutexLock => ((mutexLock sc w tid act.resourceId).advanceIfTrue tid).finish
  | .mutexTimedLock =>
    (((mutexLock sc w tid act.resourceId).advanceIfTrue tid).armTimeout tid .blockedMutex
      (argOr act.arg 10)).finish
  | .mutexUnlock => ((mutexUnlock sc w tid act.resourceId).mapWorld (·.advance tid)).finish
  | .semWait => ((semWait w tid act.resourceId).advanceIfTrue tid).finish
  | .semTimedWait =>
    (((semWait w tid act.resourceId).advanceIfTrue tid).armTimeout tid .blockedSem
      (argOr act.arg 10)).finish
  | .semSignal => ((semSignal w tid act.resourceId).mapWorld (·.advance tid)).finish
  | .condWait => ((condWait sc w tid act.resourceId).advanceIfTrue tid).finish
  | .condSignal => ((condSignal w tid act.resourceId).mapWorld (·.advance tid)).finish
  | .condBroadcast => ((condBroadcast w tid act.resourceId).mapWorld (·.advance tid)).finish
  | .mbPost => ((mbPost w tid act.resourceId act.arg).advanceIfTrue tid).finish
  | .mbPostFront => ((mbPostFront w tid act.resourceId act.arg).advanceIfTrue tid).finish
  | .mbFetch => ((mbFetch w tid act.resourceId).1.advanceIfTrue tid).finish
  | .yield => (Outcome.ok (w.advance tid) [⟨.yield, tid, -1, 0⟩] true).finish
  | .done => actDone w tid
  | .nop => (Outcome.ok (w.advance tid) [] true).finish
  | .sysLock => actSysLock w tid
  | .sysUnlock => actSysUnlock w tid
  | .isrEnter => actIsrEnter w tid
  | .isrExit => actIsrExit w tid
  | .objectInit => actObjectInit w tid act.resourceId
  | .objectDestroy => actObjectDestroy w tid act.resourceId
  | .call => actCall sc w tid act.arg
  | .ret => actReturn w tid act.arg
  | .condWaitTimeout | .mbPostTimeout | .mbFetchTimeout => (Outcome.ok w [] true).finish

/-- What `smash_execute_step` does after the clock. -/
def World.runThread (sc : Scenario) (w : World) (tid : Int) : Outcome :=
  let t := w.threads tid
  if t.state ≠ .ready then .ok w [] false
  else
    match sc.actionAt tid t.pc with
    | none => .ok (w.modThread tid fun t => { t with state := .done }) [⟨.threadDone, tid, -1, 0⟩] true
    | some act =>
      if act.resourceId ≠ smashNoResource ∧ (act.resourceId < 0 ∨ sc.resourceCount ≤ act.resourceId) then
        .fail w
          s!"T{tid} step {t.pc}: resource_id {act.resourceId} out of range [0,{sc.resourceCount})" []
      else (w.dispatch sc tid act).afterLog [⟨.schedule, tid, -1, t.priority⟩]

/-- `smash_execute_step` on the live state. -/
def World.executeStep (sc : Scenario) (w : World) (tid : Int) : Outcome :=
  let ticked := w.tick sc
  (ticked.1.runThread sc tid).afterLog ticked.2

/-! ## The engine around the live state -/

/-- Book the outcome of a call: stamp and store its events, and keep a failure. -/
def Engine.apply (e : Engine) (o : Outcome) : Engine :=
  { e with
    world := o.world
    trace := e.trace.logAll e.stepCounter o.log
    failed := e.failed || o.fault.isSome
    failMsg := o.fault.getD e.failMsg
    stepCounter := if o.counted then e.stepCounter + 1 else e.stepCounter }

/-- `smash_execute_step`. -/
def Engine.executeStep (sc : Scenario) (e : Engine) (tid : Int) : Engine :=
  e.apply (e.world.executeStep sc tid)

/-- The loop of `smash_run_schedule` at entry `i`, with the value it returns. -/
def runScheduleFrom (sc : Scenario) : Nat → List Int → Engine → Engine × Bool
  | _, [], e => (e, true)
  | i, tid :: rest, e =>
    if allDone sc e.world then (e, true)
    else if tid < 0 ∨ sc.threadCount ≤ tid then
      ({ e with failed := true, failMsg := s!"smash_run_schedule: schedule[{i}]={tid} out of range" }, false)
    else
      let recorded := { e with trace := { e.trace with schedule := e.trace.schedule.push tid } }
      let stepped := recorded.executeStep sc tid
      if (recorded.world.executeStep sc tid).ret = false then (stepped, false)
      else if stepped.failed then (stepped, false)
      else runScheduleFrom sc (i + 1) rest stepped

/-- `smash_run_schedule`. -/
def runSchedule (sc : Scenario) (e : Engine) (schedule : List Int) : Engine × Bool :=
  runScheduleFrom sc 0 schedule (e.reset sc)

end Smash
