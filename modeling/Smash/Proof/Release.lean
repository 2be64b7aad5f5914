import Smash.Proof.Bounds
import Smash.Proof.Condvar
import Smash.Proof.Owning

/-!
# Two ways to release a mutex

`smash_cond_wait` lets its mutex go in two lines of its own: it pops the mutex and sets the owner to -1.
`smash_mutex_unlock` also recomputes the priority of the thread and hands the mutex to a waiter. The two
leave the same state exactly where there is nobody to hand it to and the thread was not boosted
(`condWait_likeUnlock_iff`); elsewhere a wait leaves a free mutex with waiters.
-/

set_option autoImplicit false

namespace Smash

variable {sc : Scenario}

/-! ## What a thread has on its stack -/

/-- The stack of `t` holds distinct mutexes, which `t` owns. -/
structure OwnsStack (sc : Scenario) (w : World) (t : Int) : Prop where
  nodup : (w.threads t).ownedMutexStack.toList.Nodup
  mutex : ∀ r ∈ (w.threads t).ownedMutexStack.toList, sc.IsResource r ∧ sc.resTypes r = .mutex
  owned : ∀ r ∈ (w.threads t).ownedMutexStack.toList, (w.resources r).owner = t

/-- So does every thread. -/
def OwnsStacks (sc : Scenario) (w : World) : Prop := ∀ t, sc.IsThread t → OwnsStack sc w t

theorem ownedTopIs_iff {t : Thread} {r : Int} : t.ownedTopIs r = true ↔
    0 < t.ownedMutexStack.count ∧ t.ownedMutexStack.cell (t.ownedMutexStack.count - 1) = r := by
  simp [Thread.ownedTopIs, Nat.pos_iff_ne_zero]

/-- The stack under its top. -/
theorem toList_of_top {t : Thread} {r : Int} (h : t.ownedTopIs r = true) :
    t.ownedMutexStack.toList = t.ownedMutexStack.dropLast.toList ++ [r] := by
  obtain ⟨hlive, htop⟩ := ownedTopIs_iff.mp h
  rw [LiveArray.toList_dropLast hlive, htop]

theorem mem_of_top {t : Thread} {r : Int} (h : t.ownedTopIs r = true) :
    r ∈ t.ownedMutexStack.toList := by
  rw [toList_of_top h]
  exact List.mem_append_right _ (List.mem_singleton.mpr rfl)

theorem Thread.tick_stack (t : Thread) : t.tick.ownedMutexStack = t.ownedMutexStack := by
  unfold Thread.tick
  split
  · rfl
  · split <;> rfl

/-- A push looks at the stack only. -/
theorem Thread.ownedPush_stack {t t' : Thread} (h : t'.ownedMutexStack = t.ownedMutexStack) (r : Int) :
    (t'.ownedPush r).ownedMutexStack = (t.ownedPush r).ownedMutexStack := by
  unfold Thread.ownedPush
  rw [h]
  split
  · rfl
  · exact h

/-- Owners and stacks as before. -/
theorem OwnsStacks.congr {w w' : World} (h : OwnsStacks sc w)
    (hown : ∀ r, (w'.resources r).owner = (w.resources r).owner)
    (hstack : ∀ u, (w'.threads u).ownedMutexStack = (w.threads u).ownedMutexStack) :
    OwnsStacks sc w' := by
  intro u hu
  obtain ⟨hnodup, hmutex, howned⟩ := h u hu
  refine ⟨by rwa [hstack], by rwa [hstack], fun r hr => ?_⟩
  rw [hstack] at hr
  rw [hown]
  exact howned r hr

/-- `tid` pops `r`: now `r` is on no stack, whoever gets it. -/
theorem OwnsStacks.pop {w w' : World} (h : OwnsStacks sc w) {tid r : Int} (htid : sc.IsThread tid)
    (htop : (w.threads tid).ownedTopIs r = true)
    (hown : ∀ s, s ≠ r → (w'.resources s).owner = (w.resources s).owner)
    (hstack : ∀ u, (w'.threads u).ownedMutexStack = if u = tid then
      (w.threads tid).ownedMutexStack.dropLast else (w.threads u).ownedMutexStack) :
    OwnsStacks sc w' ∧ ∀ u, sc.IsThread u → r ∉ (w'.threads u).ownedMutexStack.toList := by
  have hlist := toList_of_top htop
  have hoff : ∀ u, sc.IsThread u → r ∉ (w'.threads u).ownedMutexStack.toList := by
    intro u hu
    rw [hstack]
    split
    · have hnodup := (h tid htid).nodup
      rw [hlist] at hnodup
      exact fun hr => (List.nodup_append.mp hnodup).2.2 r hr r (List.mem_singleton.mpr rfl) rfl
    · rename_i hne
      intro hr
      exact hne (((h u hu).owned r hr).symm.trans ((h tid htid).owned r (mem_of_top htop)))
  have hsub : ∀ u, ((w'.threads u).ownedMutexStack.toList).Sublist (w.threads u).ownedMutexStack.toList := by
    intro u
    rw [hstack]
    split
    · subst u
      rw [hlist]
      exact List.sublist_append_left _ _
    · exact .refl _
  refine ⟨fun u hu => ⟨(h u hu).nodup.sublist (hsub u), fun s hs => (h u hu).mutex s ((hsub u).subset hs),
    fun s hs => ?_⟩, hoff⟩
  have hne : s ≠ r := fun heq => hoff u hu (heq ▸ hs)
  rw [hown s hne]
  exact (h u hu).owned s ((hsub u).subset hs)

/-- `t` is given `r`, which was on no stack. -/
theorem OwnsStacks.push {w w' : World} (h : OwnsStacks sc w) {t r : Int}
    (hr : sc.IsResource r ∧ sc.resTypes r = .mutex)
    (hoff : ∀ u, sc.IsThread u → r ∉ (w.threads u).ownedMutexStack.toList)
    (hown : ∀ s, (w'.resources s).owner = if s = r then t else (w.resources s).owner)
    (hstack : ∀ u, (w'.threads u).ownedMutexStack = if u = t then
      ((w.threads t).ownedPush r).ownedMutexStack else (w.threads u).ownedMutexStack) :
    OwnsStacks sc w' := by
  intro u hu
  obtain ⟨hnodup, hmutex, howned⟩ := h u hu
  have hkept : ∀ s ∈ (w.threads u).ownedMutexStack.toList, (w'.resources s).owner = u := by
    intro s hs
    have hne : s ≠ r := fun heq => hoff u hu (heq ▸ hs)
    rw [hown, if_neg hne]
    exact howned s hs
  by_cases hpushed : u = t ∧ (w.threads t).ownedMutexStack.count < smashMaxResources
  · obtain ⟨rfl, hroom⟩ := hpushed
    have hlist : (w'.threads u).ownedMutexStack.toList = (w.threads u).ownedMutexStack.toList ++ [r] := by
      rw [hstack, if_pos rfl, Thread.ownedPush_of_room hroom, LiveArray.toList_push]
    refine ⟨?_, fun s hs => ?_, fun s hs => ?_⟩
    · rw [hlist]
      exact hnodup.append (List.nodup_singleton r) (List.disjoint_singleton.mpr (hoff u hu))
    · rw [hlist, List.mem_append, List.mem_singleton] at hs
      rcases hs with hs | rfl
      · exact hmutex s hs
      · exact hr
    · rw [hlist, List.mem_append, List.mem_singleton] at hs
      rcases hs with hs | rfl
      · exact hkept s hs
      · rw [hown, if_pos rfl]
  · have hlist : (w'.threads u).ownedMutexStack = (w.threads u).ownedMutexStack := by
      rw [hstack]
      split
      · rename_i heq
        subst heq
        unfold Thread.ownedPush
        rw [if_neg fun hroom => hpushed ⟨rfl, hroom⟩]
      · rfl
    refine ⟨by rwa [hlist], by rwa [hlist], fun s hs => ?_⟩
    rw [hlist] at hs
    exact hkept s hs

/-! ## Over every run -/

/-- An action that does not fail leaves everybody with a stack of its own. -/
theorem Act.ownsStacks {tid : Int} {a : Action} {w w' : World} (hact : Act sc tid a w w')
    (htid : sc.IsThread tid) (hop : ∀ type, a.type.operand = some type →
      sc.IsResource a.resourceId ∧ sc.resTypes a.resourceId = type)
    (h : OwnsStacks sc w) : OwnsStacks sc w' := by
  have hadvance : ∀ {v : World}, OwnsStacks sc v → OwnsStacks sc (v.advance tid) := fun hv =>
    hv.congr (fun _ => rfl) (World.advance_stack _ tid)
  cases hact with
  | bookkeep _ hstand => exact h.congr (fun _ => rfl) (World.modThread_stack hstand.ownedMutexStack)
  | exit => exact h.congr (fun _ => rfl) (World.modThread_stack (f := fun t => { t with state := .done }) rfl)
  | lifecycle | take | signal =>
    exact hadvance (h.congr (World.modResource_owner rfl) fun _ => rfl)
  | mail _ hsame => exact hadvance (h.congr (World.modResource_owner hsame.owner) fun _ => rfl)
  | condLost => exact hadvance h
  | acquire hk hfree =>
    refine hadvance (h.push (hop _ (ActionType.wait_of_locks hk).2) (t := tid) (fun u hu hr => ?_)
      (fun s => ?_) fun u => ?_)
    · have howned := (h u hu).owned _ hr
      have := hu.1
      omega
    · rw [World.modThread_resources, World.modResource_resources]
      split <;> rfl
    · rw [World.modThread_threads]
      split <;> rfl
  | blockMutex =>
    refine h.congr (fun s => ?_) fun u => ?_
    · rw [World.arm_resources, boost_resources, World.enqueue_owner]
    · rw [World.arm_stack, boost_field (·.ownedMutexStack) fun _ _ => rfl, World.enqueue_stack]
  | blockSem =>
    refine h.congr (fun s => ?_) fun u => ?_
    · rw [World.arm_resources, World.enqueue_owner]
    · rw [World.arm_stack, World.enqueue_stack]
  | mailBlock => exact h.congr (World.enqueue_owner w tid _ _) (World.enqueue_stack w tid _ _)
  | grant =>
    exact hadvance (h.congr (World.waiterRemove_owner w _ _)
      (World.modThread_stack (f := fun t => t.resume.advance) rfl))
  | condSignal =>
    exact hadvance (h.congr (World.waiterRemove_owner w _ _)
      (World.modThread_stack (f := (·.resume)) rfl))
  | mailWake _ _ hsame =>
    refine hadvance (h.congr (fun s => ?_) (World.modThread_stack (f := (·.resume)) rfl))
    rw [World.modThread_resources, World.waiterRemove_owner]
    exact World.modResource_owner hsame.owner s
  | condBroadcast => exact hadvance (h.congr (wakeAll_owner _ _ w) (wakeAll_stack _ _ w))
  | condWait m _ _ _ _ _ htop =>
    refine (h.pop htid htop (fun s hs => ?_) fun u => ?_).1
    · rw [World.enqueue_owner, released, World.modResource_of_ne _ hs]
      rfl
    · rw [World.enqueue_stack, released, World.modResource_threads, World.modThread_threads]
      split <;> rfl
  | unlock hk _ htop =>
    have hsame : ∀ s, s ≠ a.resourceId → ((lowered sc w tid a.resourceId).resources s).owner
        = (w.resources s).owner := fun _ _ => rfl
    obtain ⟨hpop, hoff⟩ := h.pop htid htop hsame (lowered_stack sc w tid _)
    by_cases hlive : 0 < ((lowered sc w tid a.resourceId).resources a.resourceId).waiters.count
    · rw [handOver_of_waiters hlive]
      refine hadvance (hpop.push (hop .mutex (by rw [hk]; rfl)) hoff
        (t := ((lowered sc w tid a.resourceId).resources a.resourceId).waiters.cell
          ((lowered sc w tid a.resourceId).bestWaiter a.resourceId)) (fun s => ?_) fun u => ?_)
      · rw [World.modThread_resources, World.modResource_resources]
        split
        · rfl
        · exact World.waiterRemove_owner ..
      · rw [World.modThread_threads]
        split
        · refine Thread.ownedPush_stack ?_ _
          rfl
        · rfl
    · rw [handOver_of_empty hlive]
      refine hadvance fun u hu => ⟨(hpop u hu).nodup, (hpop u hu).mutex, fun s hs => ?_⟩
      have hne : s ≠ a.resourceId := fun heq => hoff u hu (heq ▸ hs)
      rw [World.modResource_of_ne _ hne]
      exact (hpop u hu).owned s hs

theorem reach_ownsStacks (hm : sc.Matching) {w : World} (h : (callSystem sc).Reach w) :
    OwnsStacks sc w := by
  induction h with
  | init hi =>
    obtain ⟨before, rfl⟩ := hi
    intro t ht
    have hempty : ((before.reset sc).threads t).ownedMutexStack.toList = [] := by
      simp [World.reset, ht, Thread.reset]
    exact ⟨by rw [hempty]; exact List.nodup_nil, by simp [hempty], by simp [hempty]⟩
  | @step w _ tid _ hst ih =>
    obtain ⟨htid, hok, rfl⟩ := hst
    have htick : OwnsStacks sc (w.tick sc).1 := by
      refine ih.congr (fun _ => by rw [tick_resources]) fun u => ?_
      rw [tick_threads]
      split
      · exact Thread.tick_stack _
      · rfl
    have hmove := executeStep_move hok
    generalize (w.executeStep sc tid).world = w' at hmove ⊢
    cases hmove with
    | idle => exact htick
    | finish =>
      exact htick.congr (fun _ => rfl)
        (World.modThread_stack (f := fun t => { t with state := .done }) rfl)
    | act _ hat _ hact => exact hact.ownsStacks htid (hm.operand tid htid _ _ hat) htick

/-! ## The release in a wait -/

/-- Release the mutex of `condId` as `smash_mutex_unlock` does, then queue up at `condId`. -/
def unlockThenWait (sc : Scenario) (w : World) (tid condId : Int) : Outcome :=
  let unlocked := mutexUnlock sc w tid (w.resources condId).associatedMutex
  if unlocked.fault.isSome then unlocked
  else if smashMaxWaiters ≤ (unlocked.world.resources condId).waiters.count then
    .fail unlocked.world s!"cond {condId} wait queue overflow" unlocked.log
  else
    .ok (unlocked.world.enqueue tid condId .blockedMutex)
      (unlocked.log ++ [⟨.semWaitBlocked, tid, condId, 0⟩]) false

/-- The call for `tid`, which stands at a wait on `condId`, leaves the threads and resources that the
unlock followed by the wait leaves, and fails when that does. -/
def WaitsLikeUnlock (sc : Scenario) (w : World) (tid condId : Int) : Prop :=
  (w.executeStep sc tid).world = (unlockThenWait sc (w.tick sc).1 tid condId).world ∧
    ((w.executeStep sc tid).fault = none ↔
      (unlockThenWait sc (w.tick sc).1 tid condId).fault = none)

/-- Nobody waits for `m`, and letting it go would not change the priority of `tid`. -/
def QuietRelease (sc : Scenario) (w : World) (tid m : Int) : Prop :=
  (w.resources m).waiters.count = 0 ∧
    recalcPriority sc (w.modThread tid (·.ownedPop)) tid m = (w.threads tid).priority

/-- The mutex of the wait is let go, and what follows is the same on both sides. -/
theorem condWait_eq {w : World} {tid c : Int} (htype : (w.resources c).type = .condvar)
    (hm : sc.IsResource (w.resources c).associatedMutex)
    (hown : (w.resources (w.resources c).associatedMutex).owner = tid)
    (htop : (w.threads tid).ownedTopIs (w.resources c).associatedMutex = true) :
    condWait sc w tid c =
      if smashMaxWaiters ≤ ((released w tid (w.resources c).associatedMutex).resources c).waiters.count then
        .fail (released w tid (w.resources c).associatedMutex) s!"cond {c} wait queue overflow" []
      else .ok ((released w tid (w.resources c).associatedMutex).enqueue tid c .blockedMutex)
        [⟨.semWaitBlocked, tid, c, 0⟩] false := by
  have hrange : ¬ ((w.resources c).associatedMutex < 0 ∨
      sc.resourceCount ≤ (w.resources c).associatedMutex) := by
    have := hm
    unfold Scenario.IsResource at this
    omega
  unfold condWait
  dsimp only
  rw [if_neg (not_not_intro htype), if_neg hrange, if_neg (not_not_intro hown),
    if_neg (by simp [htop])]
  rfl

/-- The unlock takes one waiter out of the queue, if there is one, … -/
theorem handOver_count (w : World) (m : Int) :
    ((handOver w m).1.resources m).waiters.count = (w.resources m).waiters.count - 1 := by
  by_cases hlive : 0 < (w.resources m).waiters.count
  · rw [handOver_of_waiters hlive, World.modThread_resources, World.modResource_self]
    show ((w.waiterRemove m _).resources m).waiters.count = _
    rw [World.waiterRemove_waiters, if_pos rfl, LiveArray.count_swapRemove]
  · rw [handOver_of_empty hlive, World.modResource_self]
    show (w.resources m).waiters.count = _
    omega

/-- … leaves the other resources alone, … -/
theorem handOver_resource_of_ne (w : World) {m s : Int} (hs : s ≠ m) :
    (handOver w m).1.resources s = w.resources s := by
  by_cases hlive : 0 < (w.resources m).waiters.count
  · rw [handOver_of_waiters hlive]
    simp [World.waiterRemove, World.modResource_of_ne _ hs]
  · rw [handOver_of_empty hlive]
    exact World.modResource_of_ne _ hs

/-- … and changes no priority but that of the thread that lets go. -/
theorem handOver_priority (w : World) (m u : Int) :
    ((handOver w m).1.threads u).priority = (w.threads u).priority := by
  by_cases hlive : 0 < (w.resources m).waiters.count
  · rw [handOver_of_waiters hlive]
    refine World.modThread_field (·.priority) ?_ u
    unfold Thread.ownedPush
    split <;> rfl
  · rw [handOver_of_empty hlive]
    rfl

theorem lowered_priority_self (w : World) (tid m : Int) : ((lowered sc w tid m).threads tid).priority
    = recalcPriority sc (w.modThread tid (·.ownedPop)) tid m := by
  rw [lowered, World.modThread_self]

/-- A quiet release is the same either way. -/
theorem QuietRelease.eq {w : World} {tid m : Int} (h : QuietRelease sc w tid m) :
    released w tid m = (handOver (lowered sc w tid m) m).1 := by
  obtain ⟨hempty, hprio⟩ := h
  have hlowered : lowered sc w tid m = w.modThread tid (·.ownedPop) := by
    rw [lowered, hprio, World.modThread_modThread]
    rfl
  rw [handOver_of_empty, hlowered]
  · rfl
  · rw [hlowered]
    exact Nat.not_lt.mpr hempty.le

/-- What tells the two releases apart is left alone by the wait that follows. -/
theorem QuietRelease.of_eq {w v v' : World} {tid m : Int}
    (hv : (v.resources m).waiters.count = ((released w tid m).resources m).waiters.count ∧
      (v.threads tid).priority = ((released w tid m).threads tid).priority)
    (hv' : (v'.resources m).waiters.count
        = ((handOver (lowered sc w tid m) m).1.resources m).waiters.count ∧
      (v'.threads tid).priority = ((handOver (lowered sc w tid m) m).1.threads tid).priority)
    (heq : v = v') : QuietRelease sc w tid m := by
  subst heq
  obtain ⟨hcount, hprio⟩ := hv
  rw [hv'.1, handOver_count, released, World.modResource_self] at hcount
  rw [hv'.2, handOver_priority, lowered_priority_self, released, World.modResource_threads,
    World.modThread_self] at hprio
  have hcount : (w.resources m).waiters.count - 1 = (w.resources m).waiters.count := hcount
  exact ⟨by omega, hprio⟩

/-- Queueing up elsewhere keeps both. -/
theorem enqueue_release {w : World} {tid c m : Int} (hne : m ≠ c) :
    ((w.enqueue tid c .blockedMutex).resources m).waiters.count = (w.resources m).waiters.count ∧
      ((w.enqueue tid c .blockedMutex).threads tid).priority = (w.threads tid).priority := by
  rw [World.enqueue_waiters, if_neg hne, World.enqueue_threads, if_pos rfl]
  exact ⟨rfl, rfl⟩

/-- The two sides of the comparison, once the clock has moved. -/
theorem condWait_eq_unlockThenWait_iff {w : World} {tid c m : Int}
    (hassoc : (w.resources c).associatedMutex = m) (htype : (w.resources c).type = .condvar)
    (hm : sc.IsResource m) (hne : c ≠ m) (halive : (w.resources m).alive = true)
    (hown : (w.resources m).owner = tid) (htop : (w.threads tid).ownedTopIs m = true) :
    ((condWait sc w tid c).world = (unlockThenWait sc w tid c).world ∧
      ((condWait sc w tid c).fault = none ↔ (unlockThenWait sc w tid c).fault = none)) ↔
    QuietRelease sc w tid m := by
  subst hassoc
  generalize hmutex : (w.resources c).associatedMutex = m at *
  have hok : (mutexUnlock sc w tid m).fault = none := mutexUnlock_fault.mpr ⟨halive, hown, htop⟩
  have hunlock := (mutexUnlock_cases hok).2.2
  -- Neither release touches the queue of `c`.
  have hqueue : ((released w tid m).resources c).waiters.count = (w.resources c).waiters.count := by
    rw [released, World.modResource_of_ne _ hne]
    rfl
  have hqueue' : ((handOver (lowered sc w tid m) m).1.resources c).waiters.count
      = (w.resources c).waiters.count := by
    rw [handOver_resource_of_ne _ hne]
    rfl
  have hwait : condWait sc w tid c =
      if smashMaxWaiters ≤ (w.resources c).waiters.count then
        .fail (released w tid m) s!"cond {c} wait queue overflow" []
      else .ok ((released w tid m).enqueue tid c .blockedMutex) [⟨.semWaitBlocked, tid, c, 0⟩] false := by
    rw [condWait_eq htype (by rwa [hmutex]) (by rwa [hmutex]) (by rwa [hmutex]), hmutex, hqueue]
  have hboth : unlockThenWait sc w tid c =
      if smashMaxWaiters ≤ (w.resources c).waiters.count then
        .fail (handOver (lowered sc w tid m) m).1 s!"cond {c} wait queue overflow"
          (mutexUnlock sc w tid m).log
      else .ok ((handOver (lowered sc w tid m) m).1.enqueue tid c .blockedMutex)
        ((mutexUnlock sc w tid m).log ++ [⟨.semWaitBlocked, tid, c, 0⟩]) false := by
    unfold unlockThenWait
    dsimp only
    rw [hmutex, hok, hunlock, hqueue']
    rfl
  rw [hwait, hboth]
  by_cases hfull : smashMaxWaiters ≤ (w.resources c).waiters.count
  · rw [if_pos hfull, if_pos hfull]
    constructor
    · rintro ⟨heq, _⟩
      exact .of_eq ⟨rfl, rfl⟩ ⟨rfl, rfl⟩ heq
    · intro hquiet
      exact ⟨hquiet.eq, by simp⟩
  · rw [if_neg hfull, if_neg hfull]
    constructor
    · rintro ⟨heq, _⟩
      exact .of_eq (enqueue_release (Ne.symm hne)) (enqueue_release (Ne.symm hne)) heq
    · intro hquiet
      refine ⟨?_, by simp⟩
      show (released w tid m).enqueue tid c .blockedMutex = _
      rw [hquiet.eq]
      rfl

/-- At a wait whose mutex is alive and on top of the stack. -/
structure AtWait (sc : Scenario) (w : World) (tid c : Int) : Prop where
  thread : sc.IsThread tid
  ready : (w.threads tid).state = .ready
  standsAt : ∃ a, sc.actionAt tid (w.threads tid).pc = some a ∧ a.type = .condWait ∧ a.resourceId = c
  top : (w.threads tid).ownedTopIs (sc.associatedMutex c) = true
  alive : (w.resources (sc.associatedMutex c)).alive = true

theorem basicCondvar_atWait :
    AtWait basicCondvar ((startWorld basicCondvar).calls basicCondvar [1, 0]) 1 1 where
  thread := by decide
  ready := by decide +kernel
  standsAt := ⟨⟨.condWait, 1, 0⟩, by decide +kernel, rfl, rfl⟩
  top := by decide +kernel
  alive := by decide +kernel

/-- **A wait releases its mutex as an unlock does exactly where the release is quiet**: nobody waits for
the mutex, and the thread has no priority to give back. -/
theorem condWait_likeUnlock_iff (hm : sc.Matching) {w : World} (hw : (callSystem sc).Reach w)
    {tid c : Int} (hat : AtWait sc w tid c) :
    WaitsLikeUnlock sc w tid c ↔ QuietRelease sc (w.tick sc).1 tid (sc.associatedMutex c) := by
  obtain ⟨htid, hready, ⟨a, hact, htype, rfl⟩, htop, halive⟩ := hat
  obtain ⟨hc, hcond⟩ := hm.operand tid htid _ a hact .condvar (by rw [htype]; rfl)
  obtain ⟨hmutex, hkind⟩ := (reach_ownsStacks hm hw tid htid).mutex _ (mem_of_top htop)
  have hown := (reach_ownsStacks hm hw tid htid).owned _ (mem_of_top htop)
  have hne : a.resourceId ≠ sc.associatedMutex a.resourceId := fun heq => by
    rw [← heq, hcond] at hkind
    exact absurd hkind (by decide)
  -- The clock changes neither the thread nor a resource.
  obtain ⟨hworld, hfault⟩ := executeStep_act hready hact (.inr hc)
  have hresources : (w.tick sc).1.resources = w.resources := tick_resources w
  have hself : (w.tick sc).1.threads tid = w.threads tid := tick_threads_of_ready hready
  have hassoc := reach_associatedMutex hw hc
  have hctype := (reach_type hw hc).trans hcond
  unfold WaitsLikeUnlock
  rw [hworld, hfault]
  generalize (w.tick sc).1 = v at hresources hself ⊢
  rw [← hresources] at hassoc hctype halive hown
  rw [← hself] at htop
  have hdispatch : (v.dispatch sc tid a).world = (condWait sc v tid a.resourceId).world ∧
      (v.dispatch sc tid a).fault = (condWait sc v tid a.resourceId).fault := by
    have hret : (condWait sc v tid a.resourceId).ret = false := by
      rw [condWait_eq hctype (hassoc ▸ hmutex) (hassoc ▸ hown) (hassoc ▸ htop)]
      split <;> rfl
    unfold World.dispatch Outcome.advanceIfTrue
    rw [htype]
    dsimp only
    rw [hret, if_neg Bool.false_ne_true]
    exact ⟨rfl, rfl⟩
  rw [hdispatch.1, hdispatch.2]
  exact condWait_eq_unlockThenWait_iff hassoc hctype hmutex hne halive hown htop

/-- `basic_condvar` with both threads at work: the consumer holds the mutex, the producer waits for it, and
the consumer waits on the condition. -/
theorem condWait_likeUnlock_iff_basicCondvar :
    let w := (startWorld basicCondvar).calls basicCondvar [1, 0]
    WaitsLikeUnlock basicCondvar w 1 1 ↔
      QuietRelease basicCondvar (w.tick basicCondvar).1 1 (basicCondvar.associatedMutex 1) :=
  condWait_likeUnlock_iff basicCondvar_matching (reach_calls (by decide +kernel)) basicCondvar_atWait

/-- The wait leaves the mutex free with the producer in its queue. -/
theorem basicCondvar_strands : ¬ ∀ sc : Scenario, sc.Matching → ∀ w, (callSystem sc).Reach w →
    ∀ tid c, AtWait sc w tid c → WaitsLikeUnlock sc w tid c := by
  intro h
  have hreach : (callSystem basicCondvar).Reach
      ((startWorld basicCondvar).calls basicCondvar [1, 0]) := reach_calls (by decide +kernel)
  obtain ⟨heq, _⟩ := h _ basicCondvar_matching _ hreach 1 1 basicCondvar_atWait
  have howner := congrArg (fun w => (w.resources 0).owner) heq
  exact absurd howner (by decide +kernel)

end Smash
