import Mathlib.Data.List.Nodup
import Smash.Lib.LiveArray

/-!
# The data model (`include/smash.h`)

Every type of the header that the model checker's core reads, with the source's fields. Five
representations differ from C, all of them on purpose.

* **Identifiers are `Int`.** Thread and resource ids are C `int`s with `-1` for "none", they are
  compared with `-1` and with each other, and a scenario may hold any value. Arrays indexed by
  them are total functions `Int → _`; that an index is in range is a fact the proofs carry, not
  a truncation the model performs.
* **An `int` is an unbounded `Int`** but where its width is what matters: `wrap32` is what the register
  holds, in the stack accounting and where `smash_mb_post_front` steps the head back.
* **Hand-counted arrays are `LiveArray`s** (waiters, the owned-mutex stack, the event and
  schedule buffers), so the cells beyond the count keep their stale content, as in C.
* **Counters that only ever go up from zero are `Nat`** (`pc`, the statistics), and the statistics
  are not reduced mod 2^64: they count leaves of the search.
* **The live state is a `World`**: the two arrays `threads` and `resources` that the primitives
  read and write. The engine is a world with a trace and bookkeeping around it; the scenario
  pointer is an argument of every function rather than a field, since nothing ever assigns it.

The fields no modelled function reads are left out: a scenario's `name`, the engine's unused
statistics (`states_explored` and its kin) and the copies of the config it stores.
-/

set_option autoImplicit false

namespace Smash

/-! ## Limits -/

abbrev smashMaxThreads : Nat := 16
abbrev smashMaxResources : Nat := 16
abbrev smashMaxSteps : Nat := 255
abbrev smashMaxTrace : Nat := 65536
abbrev smashMaxDepth : Nat := 512
abbrev smashMaxStates : Nat := 65536
abbrev smashStateHtSize : Nat := smashMaxStates * 2
abbrev smashMaxWaiters : Nat := smashMaxThreads
abbrev smashMaxIsrDepth : Int := 8
abbrev smashNoResource : Int := -1

/-! ## Machine integers -/

/-- `INT_MAX`. -/
abbrev intMax : Int := 2147483647

/-- The value is an `int`. -/
def IsInt (x : Int) : Prop := -(intMax + 1) ≤ x ∧ x ≤ intMax

instance (x : Int) : Decidable (IsInt x) := inferInstanceAs (Decidable (_ ∧ _))

/-- What a 32-bit register holds of a value. -/
def wrap32 (x : Int) : Int := x.bmod 4294967296

theorem wrap32_of_isInt {x : Int} (h : IsInt x) : wrap32 x = x := by
  obtain ⟨hlow, hhigh⟩ := h
  unfold wrap32
  exact Int.bmod_eq_of_le_mul_two (by simp only [intMax] at hlow; omega) (by simp only [intMax] at hhigh; omega)

/-! ## Threads -/

/-- `smash_exec_ctx_t`. -/
inductive ExecCtx where
  | thread
  | sysLock
  | isr
  deriving DecidableEq

/-- `smash_thread_state_t`. -/
inductive ThreadState where
  | ready
  | blockedMutex
  | blockedSem
  | done
  deriving DecidableEq

/-- The enumerator's value, as a snapshot and an event argument store it. -/
def ExecCtx.code : ExecCtx → Nat
  | .thread => 0
  | .sysLock => 1
  | .isr => 2

def ThreadState.code : ThreadState → Nat
  | .ready => 0
  | .blockedMutex => 1
  | .blockedSem => 2
  | .done => 3

/-- `smash_thread_t`. -/
structure Thread where
  id : Int
  basePriority : Int
  priority : Int
  state : ThreadState
  pc : Nat
  /-- The resource waited for; stale once the thread is not blocked. -/
  blockedOn : Int
  /-- Ticks until the wait gives up; `-1` for a wait without end. -/
  timeoutTicks : Int
  /-- `owned_mutex_stack` and `owned_mutex_count`. -/
  ownedMutexStack : LiveArray Int
  execCtx : ExecCtx
  sysLockDepth : Int
  isrDepth : Int
  stackDepth : Int
  stackWatermark : Int

/-- The two blocked states, tested together wherever the source tests them. -/
def Thread.blocked (t : Thread) : Bool :=
  t.state = .blockedMutex || t.state = .blockedSem

/-! ## Resources -/

/-- `smash_resource_type_t`. -/
inductive ResourceType where
  | mutex
  | semaphore
  | condvar
  | mailbox
  deriving DecidableEq

/-- `smash_resource_t`. -/
structure Resource where
  type : ResourceType
  id : Int
  owner : Int
  count : Int
  associatedMutex : Int
  mbCapacity : Int
  mbMessages : Int → Int
  mbHead : Int
  mbTail : Int
  mbCount : Int
  /-- `waiters` and `waiter_count`. -/
  waiters : LiveArray Int
  alive : Bool

/-! ## Actions and scenarios -/

/-- `smash_action_type_t`. -/
inductive ActionType where
  | nop
  | mutexLock
  | mutexUnlock
  | semWait
  | semSignal
  | yield
  | done
  | mutexTimedLock
  | semTimedWait
  | sysLock
  | sysUnlock
  | isrEnter
  | isrExit
  | objectInit
  | objectDestroy
  | call
  | ret
  | condWait
  | condSignal
  | condBroadcast
  | condWaitTimeout
  | mbPost
  | mbPostFront
  | mbFetch
  | mbPostTimeout
  | mbFetchTimeout
  deriving DecidableEq

/-- `smash_action_t`. -/
structure Action where
  type : ActionType
  resourceId : Int
  arg : Int := 0
  deriving DecidableEq

/-- `smash_scenario_t`. -/
structure Scenario where
  threadCount : Int
  resourceCount : Int
  priorities : Int → Int
  steps : Int → Nat → Action
  stepCount : Int → Int
  resTypes : Int → ResourceType
  semInit : Int → Int
  associatedMutex : Int → Int
  mbCapacity : Int → Int
  /-- Stack limit of each thread; zero or less for none. -/
  stackSizes : Int → Int

/-- The indices `0 .. n-1` of a C `for` loop over an `int` bound. -/
def upTo (n : Int) : List Int := (List.range n.toNat).map Int.ofNat

@[simp] theorem mem_upTo {n i : Int} : i ∈ upTo n ↔ 0 ≤ i ∧ i < n := by
  simp only [upTo, List.mem_map, List.mem_range]
  constructor
  · rintro ⟨k, hk, rfl⟩
    exact ⟨Int.natCast_nonneg k, by simp only [Int.ofNat_eq_natCast]; omega⟩
  · rintro ⟨h0, hn⟩
    exact ⟨i.toNat, by omega, Int.toNat_of_nonneg h0⟩

theorem sorted_upTo (n : Int) : (upTo n).Pairwise (· < ·) :=
  List.pairwise_lt_range.map _ fun _ _ h => Int.ofNat_lt.mpr h

theorem nodup_upTo (n : Int) : (upTo n).Nodup := (sorted_upTo n).imp fun h => Int.ne_of_lt h

@[simp] theorem length_upTo (n : Int) : (upTo n).length = n.toNat := by simp [upTo]

/-- The thread ids of a scenario, in order. -/
def Scenario.threadIds (sc : Scenario) : List Int := upTo sc.threadCount

/-- Its resource ids. -/
def Scenario.resourceIds (sc : Scenario) : List Int := upTo sc.resourceCount

/-- `t` is an index the scenario's thread loops visit. -/
def Scenario.IsThread (sc : Scenario) (t : Int) : Prop := 0 ≤ t ∧ t < sc.threadCount

/-- `r` is an index its resource loops visit. -/
def Scenario.IsResource (sc : Scenario) (r : Int) : Prop := 0 ≤ r ∧ r < sc.resourceCount

instance (sc : Scenario) (t : Int) : Decidable (sc.IsThread t) :=
  inferInstanceAs (Decidable (_ ∧ _))

instance (sc : Scenario) (r : Int) : Decidable (sc.IsResource r) :=
  inferInstanceAs (Decidable (_ ∧ _))

@[simp] theorem Scenario.mem_threadIds {sc : Scenario} {t : Int} :
    t ∈ sc.threadIds ↔ sc.IsThread t := mem_upTo

@[simp] theorem Scenario.mem_resourceIds {sc : Scenario} {r : Int} :
    r ∈ sc.resourceIds ↔ sc.IsResource r := mem_upTo

/-! ## Traces -/

/-- `smash_event_type_t`. -/
inductive EventType where
  | schedule
  | mutexLockAttempt
  | mutexLockAcquired
  | mutexLockBlocked
  | mutexUnlock
  | semWait
  | semWaitBlocked
  | semSignal
  | semWakeup
  | yield
  | threadDone
  | deadlock
  | invariantFail
  | mutexTimedLockAttempt
  | mutexTimedLockBlocked
  | mutexTimeoutExpired
  | semTimedWaitBlocked
  | semTimeoutExpired
  | sysLock
  | sysUnlock
  | isrEnter
  | isrExit
  | objectInit
  | objectDestroy
  | useAfterFree
  | call
  | ret
  | stackOverflow
  | contextViolation
  deriving DecidableEq

/-- `smash_trace_event_t`. -/
structure TraceEvent where
  step : Nat
  type : EventType
  tid : Int
  resourceId : Int
  arg : Int
  deriving DecidableEq

/-- `smash_trace_t`. -/
structure Trace where
  events : LiveArray TraceEvent
  truncated : Bool
  schedule : LiveArray Int

/-! ## The live state and the engine -/

/-- The live state: what the primitives read and write. -/
@[ext] structure World where
  threads : Int → Thread
  resources : Int → Resource

/-- The table of visited hashes: `state_ht`, open addressing with `0` for an empty slot, and
`state_hash_count`. -/
structure StateTable where
  stateHt : Nat → UInt64
  stateHashCount : Nat

/-- `smash_engine_t`, without the scenario pointer. -/
structure Engine where
  world : World
  trace : Trace
  maxDepthReached : Nat
  table : StateTable
  stepCounter : Nat
  failed : Bool
  failMsg : String

/-! ### Writing the live state -/

namespace World

def modThread (w : World) (t : Int) (f : Thread → Thread) : World :=
  { w with threads := Function.update w.threads t (f (w.threads t)) }

def modResource (w : World) (r : Int) (f : Resource → Resource) : World :=
  { w with resources := Function.update w.resources r (f (w.resources r)) }

@[simp] theorem modThread_resources (w : World) (t : Int) (f : Thread → Thread) :
    (w.modThread t f).resources = w.resources := rfl

@[simp] theorem modResource_threads (w : World) (r : Int) (f : Resource → Resource) :
    (w.modResource r f).threads = w.threads := rfl

theorem modThread_threads (w : World) (t : Int) (f : Thread → Thread) (u : Int) :
    (w.modThread t f).threads u = if u = t then f (w.threads t) else w.threads u := by
  simp [modThread, Function.update_apply]

theorem modResource_resources (w : World) (r : Int) (f : Resource → Resource) (s : Int) :
    (w.modResource r f).resources s = if s = r then f (w.resources r) else w.resources s := by
  simp [modResource, Function.update_apply]

@[simp] theorem modThread_self (w : World) (t : Int) (f : Thread → Thread) :
    (w.modThread t f).threads t = f (w.threads t) := by simp [modThread]

@[simp] theorem modResource_self (w : World) (r : Int) (f : Resource → Resource) :
    (w.modResource r f).resources r = f (w.resources r) := by simp [modResource]

theorem modThread_of_ne {w : World} {t u : Int} (f : Thread → Thread) (h : u ≠ t) :
    (w.modThread t f).threads u = w.threads u := by simp [modThread, h]

theorem modResource_of_ne {w : World} {r s : Int} (f : Resource → Resource) (h : s ≠ r) :
    (w.modResource r f).resources s = w.resources s := by simp [modResource, h]

/-- A write keeps of every thread what it keeps of the one it is made to, … -/
theorem modThread_field {α : Type} (g : Thread → α) {w : World} {t : Int} {f : Thread → Thread}
    (h : g (f (w.threads t)) = g (w.threads t)) (u : Int) :
    g ((w.modThread t f).threads u) = g (w.threads u) := by
  rw [modThread_threads]
  split
  · subst u; exact h
  · rfl

/-- … and so of every resource. -/
theorem modResource_field {α : Type} (g : Resource → α) {w : World} {r : Int}
    {f : Resource → Resource} (h : g (f (w.resources r)) = g (w.resources r)) (s : Int) :
    g ((w.modResource r f).resources s) = g (w.resources s) := by
  rw [modResource_resources]
  split
  · subst s; exact h
  · rfl

end World

end Smash
