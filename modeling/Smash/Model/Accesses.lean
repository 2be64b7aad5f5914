import Smash.Model.Engine

/-!
# Memory accesses

Which cells of the engine's arrays each function of `chibios_model.c` and `engine.c` touches, in the order
it touches them, and the divisors of its `%`. Where an index comes from a sum that can pass `INT_MAX`, so does
the sum: past it, C leaves open which cell is meant. One list for each function, along the branches of its
definition; a helper's list stands where the source calls the helper. The arrays are those with a fixed
size: `threads`, `resources`, `steps`, and inside them `waiters`, `owned_mutex_stack`, `mb_messages` and
`trace.schedule`.
-/

set_option autoImplicit false

namespace Smash

/-- A cell of an array, by its index, a divisor, or a sum that an index is computed from. -/
inductive Access where
  | thread (i : Int)
  | resource (i : Int)
  | step (tid : Int) (pc : Nat)
  | waiter (i : Nat)
  | owned (i : Nat)
  | message (i : Int)
  | schedule (i : Nat)
  | modulo (divisor : Int)
  | sum (value : Int)
  deriving DecidableEq

/-- The cell exists, the divisor is not zero, the sum is an `int`. -/
def Access.InBounds : Access → Prop
  | .thread i => 0 ≤ i ∧ i < smashMaxThreads
  | .resource i => 0 ≤ i ∧ i < smashMaxResources
  | .step tid pc => 0 ≤ tid ∧ tid < smashMaxThreads ∧ pc < smashMaxSteps
  | .waiter i => i < smashMaxWaiters
  | .owned i => i < smashMaxResources
  | .message i => 0 ≤ i ∧ i < smashMaxWaiters
  | .schedule i => i < smashMaxDepth
  | .modulo divisor => divisor ≠ 0
  | .sum value => IsInt value

instance (x : Access) : Decidable x.InBounds := by
  cases x <;> unfold Access.InBounds <;> infer_instance

/-! ## Helpers -/

/-- `owned_push`. -/
def ownedPushAccesses (t : Thread) : List Access :=
  if t.ownedMutexStack.count < smashMaxResources then [.owned t.ownedMutexStack.count] else []

/-- `owned_pop`. -/
def ownedPopAccesses (t : Thread) : List Access :=
  if t.ownedMutexStack.count = 0 then [] else [.owned (t.ownedMutexStack.count - 1)]

/-- `waiters[waiter_count++] = tid`. -/
def enqueueAccesses (r : Resource) : List Access := [.waiter r.waiters.count]

/-- `waiter_remove`. -/
def waiterRemoveAccesses (r : Resource) (idx : Nat) : List Access :=
  [.waiter idx, .waiter (r.waiters.count - 1)]

/-- The scan for the highest-priority waiter. -/
def bestWaiterAccesses (w : World) (resId : Int) : List Access :=
  let r := w.resources resId
  (List.range' 1 (r.waiters.count - 1)).flatMap fun i =>
    let best := bestIdx (fun k => (w.threads (r.waiters.cell k)).priority) i
    [.waiter i, .thread (r.waiters.cell i), .waiter best, .thread (r.waiters.cell best)]

/-- Find a waiter, take it out and touch its thread. -/
def wakeBestAccesses (w : World) (resId : Int) : List Access :=
  let r := w.resources resId
  let best := w.bestWaiter resId
  bestWaiterAccesses w resId ++ .waiter best :: waiterRemoveAccesses r best ++
    [.thread (r.waiters.cell best)]

/-- The same with the first waiter. -/
def wakeFirstAccesses (r : Resource) : List Access :=
  .waiter 0 :: waiterRemoveAccesses r 0 ++ [.thread (r.waiters.cell 0)]

/-- `recalc_priority`. -/
def recalcAccesses (sc : Scenario) (w : World) (tid releasedRes : Int) : List Access :=
  .thread tid :: sc.resourceIds.flatMap fun r =>
    if r = releasedRes then []
    else .resource r ::
      if (w.resources r).type = .mutex ∧ (w.resources r).owner = tid then
        (List.range (w.resources r).waiters.count).flatMap fun i =>
          [.waiter i, .thread ((w.resources r).waiters.cell i)]
      else []

/-- The inheritance loop of `smash_mutex_lock`. -/
def boostAccesses (sc : Scenario) (boostPrio : Int) : Nat → Int → World → List Access
  | 0, _, _ => []
  | fuel + 1, cur, w =>
    if cur < 0 then []
    else
      .thread cur ::
        if boostPrio ≤ (w.threads cur).priority then []
        else if (w.threads cur).state ≠ .blockedMutex then []
        else
          let next := (w.threads cur).blockedOn
          if next < 0 ∨ sc.resourceCount ≤ next then []
          else .resource next :: boostAccesses sc boostPrio fuel (w.resources next).owner
            (w.modThread cur fun t => { t with priority := boostPrio })

/-! ## Primitives -/

/-- `smash_mutex_lock`. -/
def mutexLockAccesses (sc : Scenario) (w : World) (tid resId : Int) : List Access :=
  let mtx := w.resources resId
  let t := w.threads tid
  .resource resId :: .thread tid ::
    if mtx.alive = false then []
    else if t.execCtx ≠ .thread then []
    else if mtx.owner = -1 then ownedPushAccesses t
    else if mtx.owner = tid then []
    else if smashMaxWaiters ≤ mtx.waiters.count then []
    else enqueueAccesses mtx ++ boostAccesses sc t.priority sc.threadCount.toNat mtx.owner
      (w.enqueue tid resId .blockedMutex)

/-- `smash_mutex_unlock`; the message of a LIFO violation reads the top of the stack once more. -/
def mutexUnlockAccesses (sc : Scenario) (w : World) (tid resId : Int) : List Access :=
  let mtx := w.resources resId
  let owner := w.threads tid
  .resource resId :: .thread tid ::
    if mtx.alive = false then []
    else if mtx.owner ≠ tid then []
    else ownedPopAccesses owner ++
      if owner.ownedTopIs resId = false then ownedPopAccesses owner
      else
        let popped := w.modThread tid (·.ownedPop)
        let lowered := popped.modThread tid fun t =>
          { t with priority := recalcPriority sc popped tid resId }
        recalcAccesses sc popped tid resId ++
          if 0 < mtx.waiters.count then
            wakeBestAccesses lowered resId ++
              ownedPushAccesses (lowered.threads (mtx.waiters.cell (lowered.bestWaiter resId)))
          else []

/-- `smash_sem_wait`. -/
def semWaitAccesses (w : World) (tid resId : Int) : List Access :=
  let sem := w.resources resId
  .resource resId :: .thread tid ::
    if sem.alive = false then []
    else if (w.threads tid).execCtx ≠ .thread then []
    else if 0 < sem.count then []
    else if smashMaxWaiters ≤ sem.waiters.count then []
    else enqueueAccesses sem

/-- `smash_sem_signal`. -/
def semSignalAccesses (w : World) (resId : Int) : List Access :=
  let sem := w.resources resId
  .resource resId ::
    if sem.alive = false then []
    else if 0 < sem.waiters.count then wakeBestAccesses w resId
    else []

/-- `smash_cond_wait`. -/
def condWaitAccesses (sc : Scenario) (w : World) (tid condId : Int) : List Access :=
  let cnt := w.resources condId
  let t := w.threads tid
  let mutexId := cnt.associatedMutex
  .resource condId :: .thread tid ::
    if cnt.type ≠ .condvar then []
    else if mutexId < 0 ∨ sc.resourceCount ≤ mutexId then []
    else .resource mutexId ::
      if (w.resources mutexId).owner ≠ tid then []
      else ownedPopAccesses t ++
        if t.ownedTopIs mutexId = false then []
        else if smashMaxWaiters ≤ cnt.waiters.count then []
        else enqueueAccesses cnt

/-- `smash_cond_signal`. -/
def condSignalAccesses (w : World) (condId : Int) : List Access :=
  let cnt := w.resources condId
  .resource condId ::
    if cnt.type ≠ .condvar then []
    else if 0 < cnt.waiters.count then wakeBestAccesses w condId
    else []

/-- The `while` of `smash_cond_broadcast`. -/
def wakeAllAccesses (condId : Int) : Nat → World → List Access
  | 0, _ => []
  | n + 1, w => wakeFirstAccesses (w.resources condId) ++
      wakeAllAccesses condId n
        ((w.waiterRemove condId 0).modThread ((w.resources condId).waiters.cell 0) (·.resume))

/-- `smash_cond_broadcast`. -/
def condBroadcastAccesses (w : World) (condId : Int) : List Access :=
  let cnt := w.resources condId
  .resource condId ::
    if cnt.type ≠ .condvar then [] else wakeAllAccesses condId cnt.waiters.count w

/-- The full or empty branch of the mailbox operations. -/
def mbBlockAccesses (mb : Resource) : List Access :=
  if smashMaxWaiters ≤ mb.waiters.count then [] else enqueueAccesses mb

/-- `smash_mb_post`. -/
def mbPostAccesses (w : World) (tid mbId : Int) : List Access :=
  let mb := w.resources mbId
  .resource mbId :: .thread tid ::
    if mb.type ≠ .mailbox then []
    else if mb.mbCapacity ≤ mb.mbCount then mbBlockAccesses mb
    else [.message mb.mbTail, .modulo mb.mbCapacity]

/-- `smash_mb_post_front`. -/
def mbPostFrontAccesses (w : World) (tid mbId : Int) : List Access :=
  let mb := w.resources mbId
  .resource mbId :: .thread tid ::
    if mb.type ≠ .mailbox then []
    else if mb.mbCapacity ≤ mb.mbCount then mbBlockAccesses mb
    else
      [.sum (mb.mbHead - 1 + mb.mbCapacity), .modulo mb.mbCapacity, .message (frontSlot mb)]

/-- `smash_mb_fetch`. -/
def mbFetchAccesses (w : World) (tid mbId : Int) : List Access :=
  let mb := w.resources mbId
  .resource mbId :: .thread tid ::
    if mb.type ≠ .mailbox then []
    else if mb.mbCount = 0 then mbBlockAccesses mb
    else .message mb.mbHead :: .modulo mb.mbCapacity ::
      if 0 < mb.waiters.count then wakeFirstAccesses mb else []

/-! ## The engine -/

/-- The `switch` of `smash_execute_step`. -/
def dispatchAccesses (sc : Scenario) (w : World) (tid : Int) (act : Action) : List Access :=
  match act.type with
  | .mutexLock | .mutexTimedLock => mutexLockAccesses sc w tid act.resourceId
  | .mutexUnlock => mutexUnlockAccesses sc w tid act.resourceId
  | .semWait | .semTimedWait => semWaitAccesses w tid act.resourceId
  | .semSignal => semSignalAccesses w act.resourceId
  | .condWait => condWaitAccesses sc w tid act.resourceId
  | .condSignal => condSignalAccesses w act.resourceId
  | .condBroadcast => condBroadcastAccesses w act.resourceId
  | .mbPost => mbPostAccesses w tid act.resourceId
  | .mbPostFront => mbPostFrontAccesses w tid act.resourceId
  | .mbFetch => mbFetchAccesses w tid act.resourceId
  | .objectInit | .objectDestroy => [.resource act.resourceId]
  | .nop | .yield | .done | .sysLock | .sysUnlock | .isrEnter | .isrExit | .call | .ret
  | .condWaitTimeout | .mbPostTimeout | .mbFetchTimeout => []

/-- `smash_execute_step`: the clock, the scheduled thread, and the action at its `pc`. -/
def executeStepAccesses (sc : Scenario) (w : World) (tid : Int) : List Access :=
  let v := (w.tick sc).1
  let t := v.threads tid
  sc.threadIds.map .thread ++ .thread tid ::
    if t.state ≠ .ready then []
    else
      match sc.actionAt tid t.pc with
      | none => []
      | some act =>
        .step tid t.pc ::
          if act.resourceId ≠ smashNoResource ∧
              (act.resourceId < 0 ∨ sc.resourceCount ≤ act.resourceId) then []
          else dispatchAccesses sc v tid act

/-- The loop of `smash_all_done`, which stops at the first thread that is not DONE. -/
def allDoneAccesses (w : World) : List Int → List Access
  | [] => []
  | i :: is => .thread i :: if (w.threads i).state = .done then allDoneAccesses w is else []

/-- `smash_engine_reset`. -/
def resetAccesses (sc : Scenario) : List Access :=
  sc.threadIds.map .thread ++ sc.resourceIds.map .resource

/-- The loop of `smash_run_schedule`. -/
def runScheduleFromAccesses (sc : Scenario) : List Int → Engine → List Access
  | [], _ => []
  | tid :: rest, e =>
    allDoneAccesses e.world sc.threadIds ++
      if allDone sc e.world then []
      else if tid < 0 ∨ sc.threadCount ≤ tid then []
      else
        let recorded := { e with trace := { e.trace with schedule := e.trace.schedule.push tid } }
        let stepped := recorded.executeStep sc tid
        .schedule e.trace.schedule.count :: executeStepAccesses sc e.world tid ++
          if (recorded.world.executeStep sc tid).ret = false then []
          else if stepped.failed then []
          else runScheduleFromAccesses sc rest stepped

/-- `smash_run_schedule`. -/
def runScheduleAccesses (sc : Scenario) (e : Engine) (schedule : List Int) : List Access :=
  resetAccesses sc ++ runScheduleFromAccesses sc schedule (e.reset sc)

end Smash
