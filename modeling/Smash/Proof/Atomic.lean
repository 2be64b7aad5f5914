import Mathlib.Tactic.SplitIfs
import Smash.Proof.Runs

/-!
# Failing primitives

A primitive checks first and writes afterwards, so one that sets `failed` has written nothing and returns
`false` (`Outcome.Atomic`). One branch is in the wrong place: `smash_cond_wait` looks whether there is room in
the queue after it has popped the mutex and given it up. `primitive_atomic_iff` says that this branch is the
only one.
-/

set_option autoImplicit false

namespace Smash

variable {sc : Scenario} {w : World} {tid r : Int}

/-- If the call fails, it leaves `w` as it was and returns `false`. -/
def Outcome.Atomic (o : Outcome) (w : World) : Prop := o.fault ≠ none → o.world = w ∧ o.ret = false

theorem atomic_fail {msg : String} {log : List LogEntry} : (Outcome.fail w msg log).Atomic w :=
  fun _ => ⟨rfl, rfl⟩

theorem atomic_ok {w' : World} {log : List LogEntry} {ret : Bool} : (Outcome.ok w' log ret).Atomic w :=
  fun h => absurd rfl h

/-! ## The checks of each primitive -/

theorem mutexLock_atomic : (mutexLock sc w tid r).Atomic w := by
  unfold mutexLock
  dsimp only
  split_ifs
  · exact atomic_fail
  · exact atomic_fail
  · exact atomic_ok
  · exact atomic_fail
  · exact atomic_fail
  · exact atomic_ok

theorem mutexUnlock_atomic : (mutexUnlock sc w tid r).Atomic w := by
  unfold mutexUnlock
  dsimp only
  split
  · exact atomic_fail
  split
  · exact atomic_fail
  split
  · exact atomic_fail
  · exact atomic_ok

theorem semWait_atomic : (semWait w tid r).Atomic w := by
  unfold semWait
  dsimp only
  split_ifs
  · exact atomic_fail
  · exact atomic_fail
  · exact atomic_ok
  · exact atomic_fail
  · exact atomic_ok

theorem semSignal_atomic : (semSignal w tid r).Atomic w := by
  unfold semSignal
  dsimp only
  split_ifs
  · exact atomic_fail
  · exact atomic_ok
  · exact atomic_ok

theorem condSignal_atomic : (condSignal w tid r).Atomic w := by
  unfold condSignal
  dsimp only
  split_ifs
  · exact atomic_fail
  · exact atomic_ok
  · exact atomic_ok

theorem condBroadcast_atomic : (condBroadcast w tid r).Atomic w := by
  unfold condBroadcast
  dsimp only
  split_ifs
  · exact atomic_fail
  · exact atomic_ok

theorem mbBlock_atomic {msg : Int} : (mbBlock w tid r msg).Atomic w := by
  unfold mbBlock
  split
  · exact atomic_fail
  · exact atomic_ok

theorem mbPost_atomic {msg : Int} : (mbPost w tid r msg).Atomic w := by
  unfold mbPost
  dsimp only
  split_ifs
  · exact atomic_fail
  · exact mbBlock_atomic
  · exact atomic_ok

theorem mbPostFront_atomic {msg : Int} : (mbPostFront w tid r msg).Atomic w := by
  unfold mbPostFront
  dsimp only
  split_ifs
  · exact atomic_fail
  · exact mbBlock_atomic
  · exact atomic_ok

theorem mbFetch_atomic : (mbFetch w tid r).1.Atomic w := by
  unfold mbFetch
  dsimp only
  split_ifs
  · exact atomic_fail
  · exact mbBlock_atomic
  · exact atomic_ok
  · exact atomic_ok

/-! ## The wait on a condition variable -/

/-- The mutex is released, and there is no room in the queue to wait in. -/
def CondWaitOverflows (sc : Scenario) (w : World) (tid condId : Int) : Prop :=
  let cnt := w.resources condId
  let mutexId := cnt.associatedMutex
  cnt.type = .condvar ∧ 0 ≤ mutexId ∧ mutexId < sc.resourceCount ∧ (w.resources mutexId).owner = tid ∧
    (w.threads tid).ownedTopIs mutexId = true ∧ smashMaxWaiters ≤ cnt.waiters.count

/-- The owned mutex is off the stack. -/
theorem ownedPop_ne {t : Thread} {m : Int} (htop : t.ownedTopIs m = true) : t.ownedPop ≠ t := by
  intro heq
  have hcount : t.ownedMutexStack.count - 1 = t.ownedMutexStack.count :=
    congrArg (fun t => t.ownedMutexStack.count) heq
  simp only [Thread.ownedTopIs, Bool.and_eq_true, decide_eq_true_eq] at htop
  omega

/-- **The wait fails without a trace, or it overflows the queue**, and then the mutex is gone. -/
theorem condWait_atomic_iff :
    ((condWait sc w tid r).fault ≠ none → (condWait sc w tid r).world = w) ↔
      ¬ CondWaitOverflows sc w tid r := by
  unfold condWait
  dsimp only
  by_cases htype : (w.resources r).type = .condvar
  swap
  · rw [if_pos htype]
    exact iff_of_true (fun _ => rfl) fun h => htype h.1
  rw [if_neg (not_not.mpr htype)]
  by_cases hrange : (w.resources r).associatedMutex < 0 ∨ sc.resourceCount ≤ (w.resources r).associatedMutex
  · rw [if_pos hrange]
    exact iff_of_true (fun _ => rfl) fun ⟨_, hlow, hhigh, _⟩ => by omega
  rw [if_neg hrange]
  by_cases hown : (w.resources (w.resources r).associatedMutex).owner = tid
  swap
  · rw [if_pos hown]
    exact iff_of_true (fun _ => rfl) fun ⟨_, _, _, h, _⟩ => hown h
  rw [if_neg (not_not.mpr hown)]
  by_cases htop : (w.threads tid).ownedTopIs (w.resources r).associatedMutex = false
  · rw [if_pos htop]
    exact iff_of_true (fun _ => rfl) fun ⟨_, _, _, _, h, _⟩ => absurd (htop.symm.trans h) (by simp)
  rw [if_neg htop]
  have htop : (w.threads tid).ownedTopIs (w.resources r).associatedMutex = true := by simpa using htop
  have hqueue : (((w.modThread tid (·.ownedPop)).modResource (w.resources r).associatedMutex
      fun m => { m with owner := -1 }).resources r).waiters = (w.resources r).waiters :=
    World.modResource_field Resource.waiters rfl r
  rw [hqueue]
  by_cases hfull : smashMaxWaiters ≤ (w.resources r).waiters.count
  · rw [if_pos hfull]
    refine iff_of_false (fun hsame => ?_)
      (not_not.mpr ⟨htype, by omega, by omega, hown, htop, hfull⟩)
    have hpop := congrArg (fun w => w.threads tid) (hsame (by simp))
    simp only [Outcome.fail_world, World.modResource_threads, World.modThread_self] at hpop
    exact ownedPop_ne htop hpop
  · rw [if_neg hfull]
    exact iff_of_true (fun h => absurd rfl h) fun ⟨_, _, _, _, _, h⟩ => hfull h

/-! ## All ten -/

/-- The primitives of `chibios_model.c` that can fail, with the message that a post carries. -/
inductive Primitive where
  | mutexLock
  | mutexUnlock
  | semWait
  | semSignal
  | condWait
  | condSignal
  | condBroadcast
  | mbPost (msg : Int)
  | mbPostFront (msg : Int)
  | mbFetch
  deriving DecidableEq

/-- The call of a primitive by `tid` on the resource `r`. -/
def Primitive.call (sc : Scenario) (w : World) (tid r : Int) : Primitive → Outcome
  | .mutexLock => Smash.mutexLock sc w tid r
  | .mutexUnlock => Smash.mutexUnlock sc w tid r
  | .semWait => Smash.semWait w tid r
  | .semSignal => Smash.semSignal w tid r
  | .condWait => Smash.condWait sc w tid r
  | .condSignal => Smash.condSignal w tid r
  | .condBroadcast => Smash.condBroadcast w tid r
  | .mbPost msg => Smash.mbPost w tid r msg
  | .mbPostFront msg => Smash.mbPostFront w tid r msg
  | .mbFetch => (Smash.mbFetch w tid r).1

/-- **A failing call has written nothing, unless it is a wait that overflows the queue** of its condition
variable. -/
theorem primitive_atomic_iff (p : Primitive) :
    ((p.call sc w tid r).fault ≠ none → (p.call sc w tid r).world = w) ↔
      ¬ (p = .condWait ∧ CondWaitOverflows sc w tid r) := by
  by_cases hp : p = .condWait
  · subst hp
    rw [eq_self, true_and]
    exact condWait_atomic_iff
  refine iff_of_true (fun h => ?_) fun hover => hp hover.1
  have hatomic : (p.call sc w tid r).Atomic w := by
    cases p with
    | mutexLock => exact mutexLock_atomic
    | mutexUnlock => exact mutexUnlock_atomic
    | semWait => exact semWait_atomic
    | semSignal => exact semSignal_atomic
    | condWait => exact absurd rfl hp
    | condSignal => exact condSignal_atomic
    | condBroadcast => exact condBroadcast_atomic
    | mbPost msg => exact mbPost_atomic
    | mbPostFront msg => exact mbPostFront_atomic
    | mbFetch => exact mbFetch_atomic
  exact (hatomic h).1

/-- `T0` owns mutex 1, and the queue of condition variable 0 is full. -/
def fullCondvar : World where
  threads _ := { World.zero.threads 0 with ownedMutexStack := (LiveArray.replicate 0).push 1 }
  resources r :=
    if r = 0 then
      { World.zero.resources 0 with
        type := .condvar, associatedMutex := 1, waiters := ⟨fun _ => 0, smashMaxWaiters⟩, alive := true }
    else { World.zero.resources 0 with owner := 0, alive := true }

/-- One thread, a condition variable and its mutex. -/
def oneCondvar : Scenario :=
  { Scenario.ofSteps [[⟨.condWait, 0, 0⟩]] [.condvar, .mutex] [] with associatedMutex := fun _ => 1 }

theorem fullCondvar_not_atomic : ¬ ∀ (sc : Scenario) (w : World) (p : Primitive) (tid r : Int),
    sc.IsThread tid → sc.IsResource r →
      (p.call sc w tid r).fault ≠ none → (p.call sc w tid r).world = w := by
  intro hall
  have hsame := hall oneCondvar fullCondvar .condWait 0 0 (by decide) (by decide)
  exact condWait_atomic_iff.mp hsame (by unfold CondWaitOverflows; decide)

end Smash
