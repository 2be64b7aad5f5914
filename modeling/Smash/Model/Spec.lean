import Smash.Lib.CycleSearch
import Smash.Model.Engine

/-!
# The invariant checker (`spec.c`)

Each check returns the message it would write, `none` when it passes: the C functions' `false` and
`true`. A check stops at its first failing thread or resource, so it is a `findSome?` over the
indices its loop visits. `smash_check_circular_wait` is a depth-first search instead
(`CycleSearch`), on the threads as nodes.
-/

set_option autoImplicit false

namespace Smash

/-- The checks a mutex and a semaphore queue share: the waiter loop, with the state every waiter
must be in and the two words of the messages that differ. -/
def checkWaiters (sc : Scenario) (w : World) (i : Int) (kind stateName : String)
    (blocked : ThreadState) : Option String :=
  let r := w.resources i
  (List.range r.waiters.count).findSome? fun k =>
    let wid := r.waiters.cell k
    if wid < 0 ∨ sc.threadCount ≤ wid then
      some s!"{kind} {i}: waiters[{k}]={wid} invalid thread id"
    else if (w.threads wid).state ≠ blocked then
      some s!"{kind} {i}: waiter T{wid} is not in {stateName} state"
    else none

/-- `smash_check_mutex_integrity`. -/
def checkMutexIntegrity (sc : Scenario) (w : World) : Option String :=
  sc.resourceIds.findSome? fun i =>
    let r := w.resources i
    if r.type ≠ .mutex then none
    else if sc.threadCount ≤ r.owner then
      some s!"MUTEX {i}: invalid owner T{r.owner}"
    else if 0 ≤ r.owner ∧ (w.threads r.owner).state = .done then
      some s!"MUTEX {i}: owner T{r.owner} has exited while holding mutex"
    else if r.owner = -1 ∧ 0 < r.waiters.count then
      some s!"MUTEX {i}: free but has {r.waiters.count} waiters"
    else if smashMaxWaiters < r.waiters.count then
      some s!"MUTEX {i}: waiter_count {r.waiters.count} out of range [0,{smashMaxWaiters}]"
    else checkWaiters sc w i "MUTEX" "BLOCKED_MUTEX" .blockedMutex

/-- `smash_check_sem_integrity`. -/
def checkSemIntegrity (sc : Scenario) (w : World) : Option String :=
  sc.resourceIds.findSome? fun i =>
    let r := w.resources i
    if r.type ≠ .semaphore then none
    else if r.count < 0 then
      some s!"SEM {i}: negative count {r.count}"
    else if smashMaxWaiters < r.waiters.count then
      some s!"SEM {i}: waiter_count {r.waiters.count} out of range [0,{smashMaxWaiters}]"
    else if 0 < r.count ∧ 0 < r.waiters.count then
      some s!"SEM {i}: count={r.count} but {r.waiters.count} waiters (lost wakeup)"
    else checkWaiters sc w i "SEM" "BLOCKED_SEM" .blockedSem

/-- `smash_check_priority_inversion`. -/
def checkPriorityInversion (sc : Scenario) (w : World) : Option String :=
  sc.resourceIds.findSome? fun i =>
    let r := w.resources i
    if r.type ≠ .mutex ∨ r.owner < 0 then none
    else
      let owner := w.threads r.owner
      (List.range r.waiters.count).findSome? fun k =>
        let waiter := r.waiters.cell k
        let waiterPrio := (w.threads waiter).priority
        if owner.priority < waiterPrio then
          some s!"PRIORITY INVERSION: T{waiter} (prio {waiterPrio}) blocked on mutex {i} owned by T{r.owner} (current prio {owner.priority}, base {owner.basePriority}) — inheritance chain not propagated"
        else none

/-- `smash_check_owned_mutex_integrity`. -/
def checkOwnedMutexIntegrity (sc : Scenario) (w : World) : Option String :=
  sc.threadIds.findSome? fun t =>
    let th := w.threads t
    (List.range th.ownedMutexStack.count).findSome? fun k =>
      let res := th.ownedMutexStack.cell k
      if res < 0 ∨ sc.resourceCount ≤ res then
        some s!"T{t} owned_mutex_stack[{k}]={res} out of range"
      else if (w.resources res).owner ≠ t then
        some s!"T{t} owns mutex {res} in stack but resource owner is T{(w.resources res).owner}"
      else none

/-! ### The wait-for graph -/

/-- `waits_for[t][u]`. -/
def World.waitsFor (sc : Scenario) (w : World) (t u : Int) : Bool :=
  let resId := (w.threads t).blockedOn
  let owner := (w.resources resId).owner
  (w.threads t).state = .blockedMutex && decide (sc.IsResource resId) && 0 ≤ owner && owner ≠ t
    && owner = u

/-- The search of `smash_check_circular_wait`, with the path and the back edge it finds. -/
def circularWait (sc : Scenario) (w : World) : CycleSearch.Result Int :=
  CycleSearch.search (w.waitsFor sc) sc.threadIds (fun t => (w.threads t).state = .blockedMutex)
    sc.threadIds .empty

/-- `smash_check_circular_wait`. -/
def checkCircularWait (sc : Scenario) (w : World) : Option String :=
  match circularWait sc w with
  | .cycle path next =>
    some ("CIRCULAR WAIT (deadlock): " ++ String.join (path.map fun t => s!"T{t} -> ")
      ++ s!"T{next} (blocks on T{path.headD 0})")
  | .clear _ | .stuck => none

/-! ### The remaining checks -/

/-- `smash_check_context_safety`. -/
def checkContextSafety (sc : Scenario) (w : World) : Option String :=
  sc.threadIds.findSome? fun i =>
    let t := w.threads i
    if t.state ≠ .done then none
    else if t.sysLockDepth ≠ 0 then
      some s!"CONTEXT: T{i} finished with sys_lock_depth={t.sysLockDepth} (unbalanced chSysLock/chSysUnlock)"
    else if t.isrDepth ≠ 0 then
      some s!"CONTEXT: T{i} finished with isr_depth={t.isrDepth} (unbalanced ISR_ENTER/ISR_EXIT)"
    else none

/-- `smash_check_stack_depth`. -/
def checkStackDepth (sc : Scenario) (w : World) : Option String :=
  sc.threadIds.findSome? fun i =>
    let limit := sc.stackSizes i
    if limit ≤ 0 then none
    else if limit < (w.threads i).stackDepth then
      some s!"STACK: T{i} stack_depth={(w.threads i).stackDepth} exceeds limit={limit}"
    else none

/-- `smash_check_all`: the first check that fails. -/
def checkAll (sc : Scenario) (w : World) : Option String :=
  [checkMutexIntegrity, checkSemIntegrity, checkOwnedMutexIntegrity, checkPriorityInversion,
    checkContextSafety, checkStackDepth].findSome? fun check => check sc w

end Smash
