import Smash.Model.Accesses
import Smash.Proof.Mailbox

/-!
# Destroyed resources

`ACT_OBJECT_DESTROY` clears `alive`, and the mutex and semaphore primitives look at it before anything else.
They look at the resource they name: the inheritance loop and the recalculation of a priority read others
unasked. The condition-variable and mailbox primitives do not look at it at all, so a step of theirs that
meets a destroyed resource is stopped only when it fails for another reason (`UseGuarded`). The result is
exact, for each resource that a step accesses (`use_caught_iff`).
-/

set_option autoImplicit false

namespace Smash

variable {sc : Scenario}

/-! ## What a step accesses -/

/-- The test of `smash_mutex_lock` for its last branch. -/
def LockBlocks (w : World) (tid r : Int) : Prop :=
  (w.resources r).alive = true ∧ (w.threads tid).execCtx = .thread ∧ (w.resources r).owner ≠ -1 ∧
    (w.resources r).owner ≠ tid ∧ (w.resources r).waiters.count < smashMaxWaiters

/-- The test of `smash_mutex_unlock` for its last branch. -/
def UnlockGoesThrough (w : World) (tid r : Int) : Prop :=
  (w.resources r).alive = true ∧ (w.resources r).owner = tid ∧ (w.threads tid).ownedTopIs r = true

theorem not_mem_wakeBest {w : World} {r s : Int} : .resource s ∉ wakeBestAccesses w r := by
  simp [wakeBestAccesses, bestWaiterAccesses, waiterRemoveAccesses]

theorem not_mem_ownedPush {t : Thread} {s : Int} : .resource s ∉ ownedPushAccesses t := by
  unfold ownedPushAccesses
  split <;> simp

theorem not_mem_ownedPop {t : Thread} {s : Int} : .resource s ∉ ownedPopAccesses t := by
  unfold ownedPopAccesses
  split <;> simp

/-- A lock goes beyond the mutex it names only when it blocks. -/
theorem mem_mutexLockAccesses {w : World} {tid r s : Int}
    (h : .resource s ∈ mutexLockAccesses sc w tid r) : s = r ∨ LockBlocks w tid r := by
  unfold mutexLockAccesses at h
  simp only [List.mem_cons, Access.resource.injEq, reduceCtorEq, false_or] at h
  refine h.imp id fun h => ?_
  split at h
  · exact absurd h (by simp)
  · split at h
    · exact absurd h (by simp)
    · split at h
      · exact absurd h not_mem_ownedPush
      · split at h
        · exact absurd h (by simp)
        · split at h
          · exact absurd h (by simp)
          · rename_i halive hctx hfree hself hroom
            exact ⟨by simpa using halive, by simpa using hctx, hfree, hself, by omega⟩

/-- An unlock goes beyond the mutex it names only when it goes through. -/
theorem mem_mutexUnlockAccesses {w : World} {tid r s : Int}
    (h : .resource s ∈ mutexUnlockAccesses sc w tid r) : s = r ∨ UnlockGoesThrough w tid r := by
  unfold mutexUnlockAccesses at h
  simp only [List.mem_cons, Access.resource.injEq, reduceCtorEq, false_or] at h
  refine h.imp id fun h => ?_
  split at h
  · exact absurd h (by simp)
  · split at h
    · exact absurd h (by simp)
    · rcases List.mem_append.mp h with h | h
      · exact absurd h not_mem_ownedPop
      · split at h
        · exact absurd h not_mem_ownedPop
        · rename_i halive hown _ htop
          exact ⟨by simpa using halive, by simpa using hown, by simpa using htop⟩

theorem mem_semWaitAccesses {w : World} {tid r s : Int}
    (h : .resource s ∈ semWaitAccesses w tid r) : s = r := by
  unfold semWaitAccesses at h
  simp only [List.mem_cons, Access.resource.injEq, reduceCtorEq, false_or] at h
  rcases h with h | h
  · exact h
  · split_ifs at h <;> simp [enqueueAccesses] at h

theorem mem_semSignalAccesses {w : World} {r s : Int}
    (h : .resource s ∈ semSignalAccesses w r) : s = r := by
  unfold semSignalAccesses at h
  simp only [List.mem_cons, Access.resource.injEq] at h
  rcases h with h | h
  · exact h
  · split_ifs at h
    · exact absurd h (by simp)
    · exact absurd h not_mem_wakeBest
    · exact absurd h (by simp)

/-- The step would fail, for whatever reason, before it changes a resource. -/
def UseGuarded (sc : Scenario) (w : World) (tid : Int) (a : Action) : Prop :=
  let r := w.resources a.resourceId
  match a.type with
  | .mutexLock | .mutexTimedLock | .mutexUnlock | .semWait | .semTimedWait | .semSignal =>
    r.alive = false
  | .condWait =>
    ¬ sc.IsResource r.associatedMutex ∨ (w.resources r.associatedMutex).owner ≠ tid ∨
      (w.threads tid).ownedTopIs r.associatedMutex = false
  | .mbPost | .mbPostFront => r.mbCapacity ≤ r.mbCount ∧ smashMaxWaiters ≤ r.waiters.count
  | .mbFetch => r.mbCount = 0 ∧ smashMaxWaiters ≤ r.waiters.count
  | _ => False

/-! ## What the primitives do about it -/

/-- The call sets `failed` and leaves every resource unchanged. -/
def Outcome.Caught (w : World) (o : Outcome) : Prop :=
  o.fault ≠ none ∧ o.world.resources = w.resources

theorem Outcome.caught_congr {w : World} {o o' : Outcome} (hf : o'.fault = o.fault)
    (hr : o'.world.resources = o.world.resources) : o'.Caught w ↔ o.Caught w := by
  unfold Outcome.Caught
  rw [hf, hr]

@[simp] theorem Outcome.caught_fail {w : World} {msg : String} {log : List LogEntry} :
    (Outcome.fail w msg log).Caught w := ⟨by simp, rfl⟩

@[simp] theorem Outcome.not_caught_ok {w w' : World} {log : List LogEntry} {ret : Bool} :
    ¬ (Outcome.ok w' log ret).Caught w := fun h => h.1 rfl

theorem Outcome.armTimeout_resources (o : Outcome) (tid : Int) (state : ThreadState) (ticks : Int) :
    (o.armTimeout tid state ticks).world.resources = o.world.resources := by
  unfold Outcome.armTimeout
  split <;> rfl

/-- A destroyed mutex is not locked. -/
theorem mutexLock_caught {w : World} {tid r s : Int} (hs : s = r ∨ LockBlocks w tid r)
    (hdead : (w.resources s).alive = false) :
    (mutexLock sc w tid r).Caught w ↔ (w.resources r).alive = false := by
  constructor
  · intro hcaught
    by_contra halive
    rcases hs with rfl | ⟨_, hctx, hfree, hself, hroom⟩
    · exact halive hdead
    · refine hcaught.1 ?_
      unfold mutexLock
      dsimp only
      rw [if_neg halive, if_neg (not_not.mpr hctx), if_neg hfree, if_neg hself,
        if_neg (Nat.not_le.mpr hroom)]
      rfl
  · intro halive
    unfold mutexLock
    dsimp only
    rw [if_pos halive]
    exact Outcome.caught_fail

theorem mutexUnlock_caught {w : World} {tid r s : Int} (hs : s = r ∨ UnlockGoesThrough w tid r)
    (hdead : (w.resources s).alive = false) :
    (mutexUnlock sc w tid r).Caught w ↔ (w.resources r).alive = false := by
  constructor
  · intro hcaught
    by_contra halive
    rcases hs with rfl | ⟨_, hown, htop⟩
    · exact halive hdead
    · refine hcaught.1 ?_
      unfold mutexUnlock
      dsimp only
      rw [if_neg halive, if_neg (not_not.mpr hown), if_neg (by rw [htop]; decide)]
      rfl
  · intro halive
    unfold mutexUnlock
    dsimp only
    rw [if_pos halive]
    exact Outcome.caught_fail

theorem semWait_caught {w : World} {tid r : Int} (hdead : (w.resources r).alive = false) :
    (semWait w tid r).Caught w := by
  unfold semWait
  dsimp only
  rw [if_pos hdead]
  exact Outcome.caught_fail

theorem semSignal_caught {w : World} {tid r : Int} (hdead : (w.resources r).alive = false) :
    (semSignal w tid r).Caught w := by
  unfold semSignal
  dsimp only
  rw [if_pos hdead]
  exact Outcome.caught_fail

/-- A condition variable is waited on, destroyed or not, by an owner of its mutex. When its queue is full
the mutex has been let go before the failure. -/
theorem condWait_caught {w : World} {tid c : Int} (htid : sc.IsThread tid)
    (htype : (w.resources c).type = .condvar) :
    (condWait sc w tid c).Caught w ↔
      ¬ sc.IsResource (w.resources c).associatedMutex ∨
        (w.resources (w.resources c).associatedMutex).owner ≠ tid ∨
        (w.threads tid).ownedTopIs (w.resources c).associatedMutex = false := by
  unfold condWait
  dsimp only
  rw [if_neg (not_not.mpr htype)]
  generalize (w.resources c).associatedMutex = m
  by_cases hrange : m < 0 ∨ sc.resourceCount ≤ m
  · rw [if_pos hrange]
    refine iff_of_true Outcome.caught_fail (.inl fun hm => ?_)
    obtain ⟨h0, hlt⟩ := hm
    omega
  rw [if_neg hrange]
  have hm : sc.IsResource m := ⟨by omega, by omega⟩
  by_cases hown : (w.resources m).owner ≠ tid
  · rw [if_pos hown]
    exact iff_of_true Outcome.caught_fail (.inr (.inl hown))
  rw [if_neg hown]
  by_cases htop : (w.threads tid).ownedTopIs m = false
  · rw [if_pos htop]
    exact iff_of_true Outcome.caught_fail (.inr (.inr htop))
  rw [if_neg htop]
  refine iff_of_false ?_ (by simp [hm, not_not.mp hown, htop])
  split
  · rintro ⟨_, hsame⟩
    have howner := congrArg (fun rs => (rs m).owner) hsame
    simp only [Outcome.fail_world, World.modResource_self] at howner
    have h0 := htid.1
    omega
  · exact Outcome.not_caught_ok

theorem condSignal_not_caught {w : World} {tid c : Int} (htype : (w.resources c).type = .condvar) :
    ¬ (condSignal w tid c).Caught w := by
  unfold condSignal
  dsimp only
  rw [if_neg (not_not.mpr htype)]
  split <;> exact Outcome.not_caught_ok

theorem condBroadcast_not_caught {w : World} {tid c : Int} (htype : (w.resources c).type = .condvar) :
    ¬ (condBroadcast w tid c).Caught w := by
  unfold condBroadcast
  dsimp only
  rw [if_neg (not_not.mpr htype)]
  exact Outcome.not_caught_ok

theorem mbBlock_caught {w : World} {tid m msg : Int} :
    (mbBlock w tid m msg).Caught w ↔ smashMaxWaiters ≤ (w.resources m).waiters.count := by
  unfold mbBlock
  split
  · exact iff_of_true Outcome.caught_fail ‹_›
  · exact iff_of_false Outcome.not_caught_ok ‹_›

theorem mbPost_caught {w : World} {tid m msg : Int} (htype : (w.resources m).type = .mailbox) :
    (mbPost w tid m msg).Caught w ↔ (w.resources m).mbCapacity ≤ (w.resources m).mbCount ∧
      smashMaxWaiters ≤ (w.resources m).waiters.count := by
  unfold mbPost
  dsimp only
  rw [if_neg (not_not.mpr htype)]
  split
  · rw [mbBlock_caught, and_iff_right ‹_›]
  · exact iff_of_false Outcome.not_caught_ok fun h => ‹¬ _› h.1

theorem mbPostFront_caught {w : World} {tid m msg : Int} (htype : (w.resources m).type = .mailbox) :
    (mbPostFront w tid m msg).Caught w ↔ (w.resources m).mbCapacity ≤ (w.resources m).mbCount ∧
      smashMaxWaiters ≤ (w.resources m).waiters.count := by
  unfold mbPostFront
  dsimp only
  rw [if_neg (not_not.mpr htype)]
  split
  · rw [mbBlock_caught, and_iff_right ‹_›]
  · exact iff_of_false Outcome.not_caught_ok fun h => ‹¬ _› h.1

theorem mbFetch_caught {w : World} {tid m : Int} (htype : (w.resources m).type = .mailbox) :
    (mbFetch w tid m).1.Caught w ↔ (w.resources m).mbCount = 0 ∧
      smashMaxWaiters ≤ (w.resources m).waiters.count := by
  unfold mbFetch
  dsimp only
  rw [if_neg (not_not.mpr htype)]
  split
  · rw [mbBlock_caught, and_iff_right ‹_›]
  · refine iff_of_false ?_ fun h => ‹¬ _› h.1
    split <;> exact Outcome.not_caught_ok

/-! ## The step -/

theorem dispatch_caught {w : World} {tid s : Int} {a : Action} (htid : sc.IsThread tid)
    (htype : ∀ type, a.type.operand = some type → (w.resources a.resourceId).type = type)
    (hop : a.type.operand ≠ none) (hs : .resource s ∈ dispatchAccesses sc w tid a)
    (hdead : (w.resources s).alive = false) :
    (w.dispatch sc tid a).Caught w ↔ UseGuarded sc w tid a := by
  obtain ⟨type, r, arg⟩ := a
  have hadvance : ∀ o : Outcome, (o.advanceIfTrue tid).finish.Caught w ↔ o.Caught w := fun o =>
    Outcome.caught_congr (Outcome.advanceIfTrue_fault o tid) (Outcome.advanceIfTrue_resources o tid)
  have harm : ∀ (o : Outcome) state ticks,
      ((o.advanceIfTrue tid).armTimeout tid state ticks).finish.Caught w ↔ o.Caught w := by
    intro o state ticks
    refine Outcome.caught_congr ?_ ?_
    · exact (Outcome.armTimeout_fault _ tid state ticks).trans (Outcome.advanceIfTrue_fault o tid)
    · exact (Outcome.armTimeout_resources _ tid state ticks).trans
        (Outcome.advanceIfTrue_resources o tid)
  have hmap : ∀ o : Outcome, (o.mapWorld (·.advance tid)).finish.Caught w ↔ o.Caught w := fun o =>
    Outcome.caught_congr rfl rfl
  cases type with
  | mutexLock => exact (hadvance _).trans (mutexLock_caught (mem_mutexLockAccesses hs) hdead)
  | mutexTimedLock => exact (harm _ _ _).trans (mutexLock_caught (mem_mutexLockAccesses hs) hdead)
  | mutexUnlock => exact (hmap _).trans (mutexUnlock_caught (mem_mutexUnlockAccesses hs) hdead)
  | semWait =>
    obtain rfl := mem_semWaitAccesses hs
    exact iff_of_true ((hadvance _).mpr (semWait_caught hdead)) hdead
  | semTimedWait =>
    obtain rfl := mem_semWaitAccesses hs
    exact iff_of_true ((harm _ _ _).mpr (semWait_caught hdead)) hdead
  | semSignal =>
    obtain rfl := mem_semSignalAccesses hs
    exact iff_of_true ((hmap _).mpr (semSignal_caught hdead)) hdead
  | condWait => exact (hadvance _).trans (condWait_caught htid (htype _ rfl))
  | condSignal =>
    exact iff_of_false (fun h => condSignal_not_caught (htype _ rfl) ((hmap _).mp h)) id
  | condBroadcast =>
    exact iff_of_false (fun h => condBroadcast_not_caught (htype _ rfl) ((hmap _).mp h)) id
  | mbPost => exact (hadvance _).trans (mbPost_caught (htype _ rfl))
  | mbPostFront => exact (hadvance _).trans (mbPostFront_caught (htype _ rfl))
  | mbFetch => exact (hadvance _).trans (mbFetch_caught (htype _ rfl))
  | nop | yield | done | sysLock | sysUnlock | isrEnter | isrExit | objectInit | objectDestroy | call
  | ret => exact absurd rfl hop
  | condWaitTimeout | mbPostTimeout | mbFetchTimeout =>
    exact absurd hs (by simp [dispatchAccesses])

/-- **When a use after free is caught**: for every destroyed resource that the next step of a READY thread
accesses, if that step is an operation on a mutex, a semaphore, a condition variable or a mailbox, it fails
and leaves the resources unchanged exactly when one of the guards stops it. -/
theorem use_caught_iff (hm : sc.Matching) {w : World} (hw : (callSystem sc).Reach w) {tid : Int}
    (htid : sc.IsThread tid) (hready : (w.threads tid).state = .ready) {a : Action}
    (hat : sc.actionAt tid (w.threads tid).pc = some a) (hop : a.type.operand ≠ none) {r : Int}
    (hr : .resource r ∈ dispatchAccesses sc (w.tick sc).1 tid a)
    (hdead : (w.resources r).alive = false) :
    ((w.executeStep sc tid).fault ≠ none ∧ (w.executeStep sc tid).world.resources = w.resources) ↔
      UseGuarded sc (w.tick sc).1 tid a := by
  obtain ⟨hworld, hfault⟩ := executeStep_act hready hat
    (hm.valid.bounds.resourceId_ok tid htid _ _ hat)
  have htick : (w.tick sc).1.resources = w.resources := tick_resources w
  rw [hworld, hfault, ← htick]
  refine dispatch_caught htid (fun type htype => ?_) hop hr (by rw [htick]; exact hdead)
  obtain ⟨hres, htypes⟩ := hm.operand tid htid _ a hat type htype
  rw [htick, reach_type hw hres, htypes]

/-- A thread that destroys a mailbox and posts to it. -/
def destroyedMailbox : Scenario :=
  { Scenario.ofSteps [[⟨.objectDestroy, 0, 0⟩, ⟨.mbPost, 0, 1⟩]] [.mailbox] [] with
    mbCapacity := fun r => if r = 0 then 4 else 0 }

theorem destroyedMailbox_matching : destroyedMailbox.Matching :=
  Scenario.matching_of_steps (by decide) (by decide)

theorem use_caught_iff_destroyedMailbox :
    let w := (startWorld destroyedMailbox).calls destroyedMailbox [0]
    ((w.executeStep destroyedMailbox 0).fault ≠ none ∧
      (w.executeStep destroyedMailbox 0).world.resources = w.resources) ↔
        UseGuarded destroyedMailbox (w.tick destroyedMailbox).1 0 ⟨.mbPost, 0, 1⟩ :=
  have hreach : (callSystem destroyedMailbox).Reach
      ((startWorld destroyedMailbox).calls destroyedMailbox [0]) := reach_calls (by decide +kernel)
  use_caught_iff destroyedMailbox_matching hreach (by decide) (by decide +kernel) (by decide +kernel)
    (by decide) (r := 0) (by decide +kernel) (by decide +kernel)

/-- The message goes into the destroyed mailbox. -/
theorem destroyedMailbox_posts : ¬ ∀ sc : Scenario, sc.Matching → ∀ w, (callSystem sc).Reach w →
    ∀ tid, sc.Ready w tid → ∀ a, sc.actionAt tid (w.threads tid).pc = some a →
    a.type.operand ≠ none → ∀ r, .resource r ∈ dispatchAccesses sc (w.tick sc).1 tid a →
    (w.resources r).alive = false →
      (w.executeStep sc tid).fault ≠ none ∧ (w.executeStep sc tid).world.resources = w.resources := by
  intro h
  have hcaught := h _ destroyedMailbox_matching
    ((startWorld destroyedMailbox).calls destroyedMailbox [0])
    (reach_calls (by decide +kernel)) 0 (by decide +kernel) ⟨.mbPost, 0, 1⟩ (by decide +kernel)
    (by decide) 0 (by decide +kernel) (by decide +kernel)
  exact hcaught.1 (by decide +kernel)

end Smash
