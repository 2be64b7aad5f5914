import Smash.Lib.Scan
import Smash.Model.Trace

/-!
# The ChibiOS primitives (`chibios_model.c`)

One definition a C function, in the file's order. Each reads a `World` and returns an `Outcome`;
the branches stand in the source's order, since the first check that fails decides the message.

The inheritance loop of `smash_mutex_lock` is a `while` over the owner chain, which a wait-for
cycle makes infinite in shape. It is `boost` with a fuel argument, given one unit for each thread;
`Proof.Priority` shows that more fuel changes nothing.
-/

set_option autoImplicit false

namespace Smash

/-! ## Internal helpers -/

/-- `owned_push`: a full stack drops the entry. -/
def Thread.ownedPush (t : Thread) (resId : Int) : Thread :=
  if t.ownedMutexStack.count < smashMaxResources then
    { t with ownedMutexStack := t.ownedMutexStack.push resId }
  else t

/-- The test `owned_pop` makes before it pops. -/
def Thread.ownedTopIs (t : Thread) (resId : Int) : Bool :=
  t.ownedMutexStack.count ≠ 0 && t.ownedMutexStack.cell (t.ownedMutexStack.count - 1) = resId

/-- `owned_mutex_count--`. -/
def Thread.ownedPop (t : Thread) : Thread :=
  { t with ownedMutexStack := t.ownedMutexStack.dropLast }

/-- Out of a wait: `THREAD_READY`, waiting for nothing. -/
def Thread.resume (t : Thread) : Thread := { t with state := .ready, blockedOn := -1 }

/-- `pc++`. -/
def Thread.advance (t : Thread) : Thread := { t with pc := t.pc + 1 }

/-- Into a wait. -/
def Thread.block (t : Thread) (state : ThreadState) (resId : Int) : Thread :=
  { t with state := state, blockedOn := resId }

/-- `waiter_remove`. -/
def World.waiterRemove (w : World) (resId : Int) (idx : Nat) : World :=
  w.modResource resId fun r => { r with waiters := r.waiters.swapRemove idx }

/-- `res->waiters[res->waiter_count++] = tid`, and the thread blocks on `res`. -/
def World.enqueue (w : World) (tid resId : Int) (state : ThreadState) : World :=
  (w.modResource resId fun r => { r with waiters := r.waiters.push tid }).modThread tid
    fun t => t.block state resId

/-- The scan for the highest-priority waiter, shared by every waking primitive. -/
def World.bestWaiter (w : World) (resId : Int) : Nat :=
  bestIdx (fun i => (w.threads ((w.resources resId).waiters.cell i)).priority)
    (w.resources resId).waiters.count

/-- `recalc_priority`. -/
def recalcPriority (sc : Scenario) (w : World) (tid releasedRes : Int) : Int :=
  sc.resourceIds.foldl
    (fun p r =>
      if r = releasedRes then p
      else if (w.resources r).type ≠ .mutex then p
      else if (w.resources r).owner ≠ tid then p
      else foldMax p ((w.resources r).waiters.toList.map fun x => (w.threads x).priority))
    (w.threads tid).basePriority

/-- The `%s` of the two "called from" messages. -/
def ctxName : ExecCtx → String
  | .isr => "ISR"
  | _ => "SYS_LOCK"

/-! ## Mutexes -/

/-- The inheritance loop of `smash_mutex_lock`, at owner `cur`. -/
def boost (sc : Scenario) (boostPrio : Int) : Nat → Int → World → World
  | 0, _, w => w
  | fuel + 1, cur, w =>
    if cur < 0 then w
    else if boostPrio ≤ (w.threads cur).priority then w
    else
      let raised := w.modThread cur fun t => { t with priority := boostPrio }
      if (w.threads cur).state ≠ .blockedMutex then raised
      else
        let next := (w.threads cur).blockedOn
        if next < 0 ∨ sc.resourceCount ≤ next then raised
        else boost sc boostPrio fuel (w.resources next).owner raised

/-- `smash_mutex_lock`. -/
def mutexLock (sc : Scenario) (w : World) (tid resId : Int) : Outcome :=
  let mtx := w.resources resId
  let t := w.threads tid
  let attempt : LogEntry := ⟨.mutexLockAttempt, tid, resId, 0⟩
  if mtx.alive = false then
    .fail w s!"T{tid} mutex_lock on destroyed resource {resId} (use-after-free)"
      [⟨.useAfterFree, tid, resId, 0⟩]
  else if t.execCtx ≠ .thread then
    .fail w
      s!"T{tid} mutex_lock called from {ctxName t.execCtx} context — blocking not permitted outside thread context"
      [⟨.contextViolation, tid, resId, t.execCtx.code⟩]
  else if mtx.owner = -1 then
    .ok ((w.modResource resId fun m => { m with owner := tid }).modThread tid (·.ownedPush resId))
      [attempt, ⟨.mutexLockAcquired, tid, resId, 0⟩] true
  else if mtx.owner = tid then
    .fail w s!"T{tid} re-locked mutex {resId} (already owner) — recursive mutexes not enabled"
      [attempt, ⟨.invariantFail, tid, resId, 0⟩]
  else if smashMaxWaiters ≤ mtx.waiters.count then
    .fail w s!"mutex {resId} wait queue overflow (>{smashMaxWaiters} waiters)"
      [attempt, ⟨.invariantFail, tid, resId, 0⟩]
  else
    .ok (boost sc t.priority sc.threadCount.toNat mtx.owner (w.enqueue tid resId .blockedMutex))
      [attempt, ⟨.mutexLockBlocked, tid, resId, mtx.owner⟩] false

/-- The waking half of `smash_mutex_unlock`, once the owner has let go. -/
def handOver (w : World) (resId : Int) : World × List LogEntry :=
  if 0 < (w.resources resId).waiters.count then
    let best := w.bestWaiter resId
    let woken := (w.resources resId).waiters.cell best
    (((w.waiterRemove resId best).modResource resId fun m => { m with owner := woken }).modThread woken
        fun t => (t.resume.advance).ownedPush resId,
      [⟨.mutexLockAcquired, woken, resId, 0⟩])
  else
    (w.modResource resId fun m => { m with owner := -1 }, [])

/-- `smash_mutex_unlock`. -/
def mutexUnlock (sc : Scenario) (w : World) (tid resId : Int) : Outcome :=
  let mtx := w.resources resId
  let owner := w.threads tid
  if mtx.alive = false then
    .fail w s!"T{tid} mutex_unlock on destroyed resource {resId} (use-after-free)"
      [⟨.useAfterFree, tid, resId, 0⟩]
  else if mtx.owner ≠ tid then
    .fail w s!"T{tid} unlocked mutex {resId} owned by T{mtx.owner}"
      [⟨.invariantFail, tid, resId, mtx.owner⟩]
  else if owner.ownedTopIs resId = false then
    let top := if 0 < owner.ownedMutexStack.count then
      owner.ownedMutexStack.cell (owner.ownedMutexStack.count - 1) else -1
    .fail w
      s!"T{tid}: LIFO violation — unlocking mutex {resId} but top of owned stack is mutex {top}. ChibiOS: 'not next in list'"
      [⟨.invariantFail, tid, resId, top⟩]
  else
    let popped := w.modThread tid (·.ownedPop)
    let lowered := popped.modThread tid fun t => { t with priority := recalcPriority sc popped tid resId }
    let handed := handOver lowered resId
    .ok handed.1 (⟨.mutexUnlock, tid, resId, 0⟩ :: handed.2) false

/-! ## Semaphores -/

/-- `smash_sem_wait`. -/
def semWait (w : World) (tid resId : Int) : Outcome :=
  let sem := w.resources resId
  let t := w.threads tid
  let attempt : LogEntry := ⟨.semWait, tid, resId, sem.count⟩
  if sem.alive = false then
    .fail w s!"T{tid} sem_wait on destroyed resource {resId} (use-after-free)"
      [⟨.useAfterFree, tid, resId, 0⟩]
  else if t.execCtx ≠ .thread then
    .fail w
      s!"T{tid} sem_wait called from {ctxName t.execCtx} context — blocking not permitted outside thread context"
      [⟨.contextViolation, tid, resId, t.execCtx.code⟩]
  else if 0 < sem.count then
    .ok (w.modResource resId fun s => { s with count := s.count - 1 }) [attempt] true
  else if smashMaxWaiters ≤ sem.waiters.count then
    .fail w s!"semaphore {resId} wait queue overflow (>{smashMaxWaiters} waiters)"
      [attempt, ⟨.invariantFail, tid, resId, 0⟩]
  else
    .ok (w.enqueue tid resId .blockedSem) [attempt, ⟨.semWaitBlocked, tid, resId, 0⟩] false

/-- Wake the best waiter of a semaphore: the wait succeeded, so its `pc` moves past it. -/
def World.grantSem (w : World) (resId : Int) : World :=
  let best := w.bestWaiter resId
  (w.waiterRemove resId best).modThread ((w.resources resId).waiters.cell best)
    fun t => t.resume.advance

/-- `smash_sem_signal`. The waking branch stands twice in the source, and only the first is ever
taken; it logs an `EVT_USE_AFTER_FREE` where the second has the `EVT_SEM_WAKEUP`. -/
def semSignal (w : World) (tid resId : Int) : Outcome :=
  let sem := w.resources resId
  let signal : LogEntry := ⟨.semSignal, tid, resId, sem.count⟩
  if sem.alive = false then
    .fail w s!"T{tid} sem_signal on destroyed resource {resId} (use-after-free)"
      [⟨.useAfterFree, tid, resId, 0⟩]
  else if 0 < sem.waiters.count then
    .ok (w.grantSem resId) [signal, ⟨.useAfterFree, tid, resId, 0⟩] false
  else if 0 < sem.waiters.count then
    .ok (w.grantSem resId)
      [signal, signal, ⟨.semWakeup, sem.waiters.cell (w.bestWaiter resId), resId, 0⟩] false
  else
    .ok (w.modResource resId fun s => { s with count := s.count + 1 }) [signal, signal] false

/-! ## Condition variables -/

/-- `smash_cond_wait`. -/
def condWait (sc : Scenario) (w : World) (tid condId : Int) : Outcome :=
  let cnt := w.resources condId
  let mutexId := cnt.associatedMutex
  if cnt.type ≠ .condvar then
    .fail w s!"T{tid}: cond_wait on non-condvar resource {condId}" []
  else if mutexId < 0 ∨ sc.resourceCount ≤ mutexId then
    .fail w s!"T{tid}: cond {condId} has invalid associated_mutex {mutexId}" []
  else if (w.resources mutexId).owner ≠ tid then
    .fail w s!"T{tid}: cond_wait without owning associated mutex {mutexId}" []
  else if (w.threads tid).ownedTopIs mutexId = false then
    .fail w s!"T{tid}: cond_wait LIFO violation on mutex {mutexId}" []
  else
    let released := (w.modThread tid (·.ownedPop)).modResource mutexId fun m => { m with owner := -1 }
    if smashMaxWaiters ≤ (released.resources condId).waiters.count then
      .fail released s!"cond {condId} wait queue overflow" []
    else
      .ok (released.enqueue tid condId .blockedMutex) [⟨.semWaitBlocked, tid, condId, 0⟩] false

/-- `smash_cond_signal`: the woken thread keeps its `pc` and will run its wait again. -/
def condSignal (w : World) (tid condId : Int) : Outcome :=
  let cnt := w.resources condId
  if cnt.type ≠ .condvar then
    .fail w s!"T{tid}: cond_signal on non-condvar resource {condId}" []
  else if 0 < cnt.waiters.count then
    let best := w.bestWaiter condId
    let woken := cnt.waiters.cell best
    .ok ((w.waiterRemove condId best).modThread woken (·.resume))
      [⟨.semWakeup, woken, condId, 0⟩] false
  else .ok w [] false

/-- The `while` of `smash_cond_broadcast`; every turn takes one waiter out. -/
def wakeAll (condId : Int) : Nat → World → World × List LogEntry
  | 0, w => (w, [])
  | n + 1, w =>
    let woken := (w.resources condId).waiters.cell 0
    let rest := wakeAll condId n ((w.waiterRemove condId 0).modThread woken (·.resume))
    (rest.1, ⟨.semWakeup, woken, condId, 0⟩ :: rest.2)

/-- `smash_cond_broadcast`. -/
def condBroadcast (w : World) (tid condId : Int) : Outcome :=
  let cnt := w.resources condId
  if cnt.type ≠ .condvar then
    .fail w s!"T{tid}: cond_broadcast on non-condvar resource {condId}" []
  else
    let woken := wakeAll condId cnt.waiters.count w
    .ok woken.1 woken.2 false

/-! ## Mailboxes -/

/-- The full or empty branch of the three mailbox operations: queue up and block. -/
def mbBlock (w : World) (tid mbId msg : Int) : Outcome :=
  if smashMaxWaiters ≤ (w.resources mbId).waiters.count then
    .fail w s!"mailbox {mbId} wait queue overflow" []
  else
    .ok (w.enqueue tid mbId .blockedSem) [⟨.semWaitBlocked, tid, mbId, msg⟩] false

/-- `smash_mb_post`: write at the tail. -/
def mbPost (w : World) (tid mbId msg : Int) : Outcome :=
  let mb := w.resources mbId
  if mb.type ≠ .mailbox then
    .fail w s!"T{tid}: mb_post on non-mailbox resource {mbId}" []
  else if mb.mbCapacity ≤ mb.mbCount then mbBlock w tid mbId msg
  else
    .ok (w.modResource mbId fun m =>
        { m with
          mbMessages := Function.update m.mbMessages m.mbTail msg
          mbTail := (m.mbTail + 1).tmod m.mbCapacity
          mbCount := m.mbCount + 1 })
      [⟨.semSignal, tid, mbId, msg⟩] true

/-- `(mb_head - 1 + mb_capacity) % mb_capacity`, with the sum in a register. -/
def frontSlot (mb : Resource) : Int := (wrap32 (mb.mbHead - 1 + mb.mbCapacity)).tmod mb.mbCapacity

/-- `smash_mb_post_front`: step the head back and write there. -/
def mbPostFront (w : World) (tid mbId msg : Int) : Outcome :=
  let mb := w.resources mbId
  if mb.type ≠ .mailbox then
    .fail w s!"T{tid}: mb_post_front on non-mailbox resource {mbId}" []
  else if mb.mbCapacity ≤ mb.mbCount then mbBlock w tid mbId msg
  else
    .ok (w.modResource mbId fun m =>
        let head := frontSlot m
        { m with
          mbHead := head
          mbMessages := Function.update m.mbMessages head msg
          mbCount := m.mbCount + 1 })
      [⟨.semSignal, tid, mbId, msg⟩] true

/-- `smash_mb_fetch`, with `*out_msg` when it wrote one. A blocked sender, the first in the queue,
is made ready and will post again. -/
def mbFetch (w : World) (tid mbId : Int) : Outcome × Option Int :=
  let mb := w.resources mbId
  if mb.type ≠ .mailbox then
    (.fail w s!"T{tid}: mb_fetch on non-mailbox resource {mbId}" [], none)
  else if mb.mbCount = 0 then (mbBlock w tid mbId 0, none)
  else
    let msg := mb.mbMessages mb.mbHead
    let fetched := w.modResource mbId fun m =>
      { m with mbHead := (m.mbHead + 1).tmod m.mbCapacity, mbCount := m.mbCount - 1 }
    if 0 < mb.waiters.count then
      let woken := mb.waiters.cell 0
      (.ok ((fetched.waiterRemove mbId 0).modThread woken (·.resume))
        [⟨.semWakeup, woken, mbId, 0⟩, ⟨.semWakeup, tid, mbId, msg⟩] true, some msg)
    else (.ok fetched [⟨.semWakeup, tid, mbId, msg⟩] true, some msg)

end Smash
