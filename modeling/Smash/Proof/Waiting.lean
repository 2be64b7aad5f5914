import Smash.Lib.Roster
import Smash.Proof.Moves

/-!
# Waiting

Where a thread stands, and what a step can do about it. `Act.effect` says it thread by thread: a thread is
left where it is, or is the scheduled one and runs on, or is the scheduled one and starts to wait, or is
taken out of the queue of the resource the action works on.

Queues and waiting threads are the two halves of a `Roster` (`World.parking`): `place` is what a thread
waits for and `members` the queue of a resource. Every step is a sequence of roster moves
(`executeStep_parking`), up to one: an expired wait gives up its place and stays in the queue. So every
blocked thread is always in the queue it waits in (`parking_listed`), and the queues hold nobody else as
long as nothing expires.
-/

set_option autoImplicit false

namespace Smash

variable {sc : Scenario}

/-! ## Scenarios -/

/-- The type of resource that an action works on. -/
def ActionType.operand : ActionType → Option ResourceType
  | .mutexLock | .mutexUnlock | .mutexTimedLock => some .mutex
  | .semWait | .semSignal | .semTimedWait => some .semaphore
  | .condWait | .condSignal | .condBroadcast | .condWaitTimeout => some .condvar
  | .mbPost | .mbPostFront | .mbFetch | .mbPostTimeout | .mbFetchTimeout => some .mailbox
  | _ => none

/-- The actions that name no resource. -/
def ActionType.resourceFree : ActionType → Bool
  | .nop | .yield | .done | .sysLock | .sysUnlock | .isrEnter | .isrExit | .call | .ret => true
  | _ => false

/-- The state in which an action can leave the thread that runs it waiting. -/
def ActionType.wait : ActionType → Option ThreadState
  | .mutexLock | .mutexTimedLock | .condWait => some .blockedMutex
  | .semWait | .semTimedWait | .mbPost | .mbPostFront | .mbFetch => some .blockedSem
  | _ => none

/-- An accepted scenario whose actions name resources of the matching type. -/
structure Scenario.Matching (sc : Scenario) : Prop where
  valid : sc.Valid
  operand : ∀ t, sc.IsThread t → ∀ pc a, sc.actionAt t pc = some a →
    ∀ type, a.type.operand = some type →
      sc.IsResource a.resourceId ∧ sc.resTypes a.resourceId = type

/-- The operands of a concrete scenario can be checked entry by entry. -/
theorem Scenario.matching_of_steps (hv : sc.Valid)
    (h : ∀ t ∈ sc.threadIds, ∀ pc ∈ List.range (sc.stepCount t).toNat,
      ∀ type ∈ (sc.steps t pc).type.operand,
        sc.IsResource (sc.steps t pc).resourceId ∧ sc.resTypes (sc.steps t pc).resourceId = type) :
    sc.Matching :=
  ⟨hv, forall_actionAt h⟩

theorem ActionType.wait_of_locks {a : ActionType} (h : a.locks = true) :
    a.wait = some .blockedMutex ∧ a.operand = some .mutex := by
  cases a <;> first | exact ⟨rfl, rfl⟩ | exact absurd h (by decide)

theorem ActionType.wait_of_waits {a : ActionType} (h : a.waits = true) :
    a.wait = some .blockedSem ∧ a.operand = some .semaphore := by
  cases a <;> first | exact ⟨rfl, rfl⟩ | exact absurd h (by decide)

theorem ActionType.wait_of_mails {a : ActionType} (h : a.mails = true) :
    a.wait = some .blockedSem ∧ a.operand = some .mailbox := by
  cases a <;> first | exact ⟨rfl, rfl⟩ | exact absurd h (by decide)

/-! ## Parts of the state that a write leaves alone -/

@[simp] theorem World.advance_resources (w : World) (t : Int) :
    (w.advance t).resources = w.resources := rfl

@[simp] theorem World.arm_resources (w : World) (t : Int) (c : Option Int) :
    (w.arm t c).resources = w.resources := by cases c <;> rfl

@[simp] theorem World.waiterRemove_threads (w : World) (r : Int) (i : Nat) :
    (w.waiterRemove r i).threads = w.threads := rfl

/-- The thread a broadcast meets at each turn was in the queue all along. -/
theorem wakeAll_thread (r : Int) (n : Nat) (w : World) (hn : n ≤ (w.resources r).waiters.count)
    (u : Int) :
    (wakeAll r n w).1.threads u = w.threads u ∨
      ((wakeAll r n w).1.threads u = (w.threads u).resume ∧
        u ∈ (w.resources r).waiters.toList) := by
  induction n generalizing w with
  | zero => exact .inl rfl
  | succ n ih =>
    have hlive : 0 < (w.resources r).waiters.count := by omega
    have hcount : n ≤ ((w.waiterRemove r 0).resources r).waiters.count := by
      simp only [World.waiterRemove, World.modResource_self, LiveArray.count_swapRemove]
      omega
    have hrest := ih ((w.waiterRemove r 0).modThread ((w.resources r).waiters.cell 0) (·.resume)) hcount
    have hmem : ∀ x, x ∈ ((w.waiterRemove r 0).resources r).waiters.toList →
        x ∈ (w.resources r).waiters.toList := by
      intro x hx
      simp only [World.waiterRemove, World.modResource_self] at hx
      exact LiveArray.mem_of_mem_swapRemove hlive hx
    rw [World.modThread_threads] at hrest
    by_cases hu : u = (w.resources r).waiters.cell 0
    · -- The first waiter; it is not touched again, or is found a second time.
      rw [if_pos hu, World.waiterRemove_threads] at hrest
      rw [← hu] at hrest
      refine .inr ⟨?_, by rw [hu]; exact LiveArray.cell_mem hlive⟩
      rw [wakeAll, ← hu]
      rcases hrest with h | ⟨h, _⟩
      · exact h
      · exact h
    · rw [if_neg hu, World.waiterRemove_threads] at hrest
      rcases hrest with h | ⟨h, hin⟩
      · exact .inl h
      · exact .inr ⟨h, hmem u hin⟩

/-! ## The configuration of a resource never changes -/

/-- The fields that `smash_engine_reset` copies from the scenario and nothing writes. -/
def Resource.config (r : Resource) : ResourceType × Int := (r.type, r.associatedMutex)

@[simp] theorem waiterRemove_config (w : World) (r : Int) (i : Nat) (s : Int) :
    ((w.waiterRemove r i).resources s).config = (w.resources s).config :=
  World.modResource_field (f := fun r => { r with waiters := r.waiters.swapRemove i })
    Resource.config rfl s

@[simp] theorem enqueue_config (w : World) (tid r : Int) (state : ThreadState) (s : Int) :
    ((w.enqueue tid r state).resources s).config = (w.resources s).config := by
  rw [World.enqueue, World.modThread_resources]
  exact World.modResource_field (f := fun r => { r with waiters := r.waiters.push tid })
    Resource.config rfl s

@[simp] theorem wakeAll_config (r : Int) (n : Nat) (w : World) (s : Int) :
    ((wakeAll r n w).1.resources s).config = (w.resources s).config := by
  induction n generalizing w with
  | zero => rfl
  | succ n ih => exact (ih _).trans (waiterRemove_config w r 0 s)

/-- The mutex goes to the best waiter, … -/
theorem handOver_of_waiters {w : World} {r : Int} (h : 0 < (w.resources r).waiters.count) :
    (handOver w r).1 = ((w.waiterRemove r (w.bestWaiter r)).modResource r fun m =>
        { m with owner := (w.resources r).waiters.cell (w.bestWaiter r) }).modThread
      ((w.resources r).waiters.cell (w.bestWaiter r)) fun t => (t.resume.advance).ownedPush r := by
  unfold handOver
  rw [if_pos h]

/-- … or is free. -/
theorem handOver_of_empty {w : World} {r : Int} (h : ¬ 0 < (w.resources r).waiters.count) :
    (handOver w r).1 = w.modResource r fun m => { m with owner := -1 } := by
  unfold handOver
  rw [if_neg h]

theorem Act.config {tid : Int} {a : Action} {w w' : World} (h : Act sc tid a w w') (s : Int) :
    (w'.resources s).config = (w.resources s).config := by
  have hwrite : ∀ {v : World} {r : Int} {f : Resource → Resource},
      (f (v.resources r)).config = (v.resources r).config →
      ((v.modResource r f).resources s).config = (v.resources s).config :=
    fun hf => World.modResource_field Resource.config hf s
  cases h with
  | bookkeep | exit | condLost => rfl
  | lifecycle | take | signal =>
    rw [World.advance_resources]
    exact hwrite rfl
  | acquire =>
    rw [World.advance_resources, World.modThread_resources]
    exact hwrite rfl
  | blockMutex =>
    rw [World.arm_resources, boost_resources]
    exact enqueue_config ..
  | blockSem =>
    rw [World.arm_resources]
    exact enqueue_config ..
  | unlock =>
    by_cases hlive : 0 < ((lowered sc w tid a.resourceId).resources a.resourceId).waiters.count
    · rw [handOver_of_waiters hlive, World.advance_resources, World.modThread_resources]
      refine (hwrite ?_).trans ?_
      · rfl
      · exact waiterRemove_config (lowered sc w tid a.resourceId) _ _ s
    · rw [handOver_of_empty hlive, World.advance_resources]
      exact hwrite rfl
  | grant | condSignal => exact waiterRemove_config ..
  | condWait m =>
    refine (enqueue_config _ _ _ _ s).trans ?_
    exact hwrite rfl
  | condBroadcast => exact wakeAll_config ..
  | mail _ hf => exact hwrite (Prod.ext hf.type hf.associatedMutex)
  | mailBlock => exact enqueue_config ..
  | mailWake _ _ hf =>
    rw [World.advance_resources, World.modThread_resources, waiterRemove_config]
    exact hwrite (Prod.ext hf.type hf.associatedMutex)

theorem executeStep_config {w : World} {tid : Int} (h : (w.executeStep sc tid).fault = none)
    (s : Int) : ((w.executeStep sc tid).world.resources s).config = (w.resources s).config := by
  have hm := executeStep_move h
  have htick : (w.tick sc).1.resources = w.resources := tick_resources w
  rw [← htick]
  generalize (w.tick sc).1 = v at hm ⊢
  generalize (w.executeStep sc tid).world = w' at hm ⊢
  cases hm with
  | idle => rfl
  | finish => rfl
  | act _ _ _ hact => exact hact.config s

theorem reach_config {w : World} (h : (callSystem sc).Reach w) {r : Int} (hr : sc.IsResource r) :
    (w.resources r).config = (sc.resTypes r, sc.associatedMutex r) := by
  induction h with
  | init hi =>
    obtain ⟨before, rfl⟩ := hi
    simp [World.reset, hr, Resource.reset, Resource.config]
  | step _ hst ih =>
    obtain ⟨_, hok, rfl⟩ := hst
    rw [executeStep_config hok, ih]

theorem reach_type {w : World} (h : (callSystem sc).Reach w) {r : Int} (hr : sc.IsResource r) :
    (w.resources r).type = sc.resTypes r := congrArg Prod.fst (reach_config h hr)

theorem reach_associatedMutex {w : World} (h : (callSystem sc).Reach w) {r : Int}
    (hr : sc.IsResource r) : (w.resources r).associatedMutex = sc.associatedMutex r :=
  congrArg Prod.snd (reach_config h hr)

/-! ## What an action does to a thread -/

/-- The actions that take a thread out of a queue. -/
def ActionType.wakes : ActionType → Bool
  | .mutexUnlock | .semSignal | .condSignal | .condBroadcast | .mbFetch => true
  | _ => false

/-- What the action `a` of `tid` makes of thread `u`, as far as waiting goes. -/
inductive Effect (w : World) (tid : Int) (a : Action) (u : Int) (t' : Thread) : Prop
  | stays : t'.state = (w.threads u).state → t'.blockedOn = (w.threads u).blockedOn →
      t'.pc = (w.threads u).pc → t'.timeoutTicks = (w.threads u).timeoutTicks → Effect w tid a u t'
  | runs : u = tid → t'.blocked = false → t'.timeoutTicks = (w.threads u).timeoutTicks →
      Effect w tid a u t'
  | waits : u = tid → a.type.wait = some t'.state → t'.blockedOn = a.resourceId →
      t'.pc = (w.threads u).pc → t'.timeoutTicks = a.countdown.getD (w.threads u).timeoutTicks →
      Effect w tid a u t'
  | woken : u ≠ tid → a.type.wakes = true → u ∈ (w.resources a.resourceId).waiters.toList →
      t'.state = .ready → t'.timeoutTicks = (w.threads u).timeoutTicks → Effect w tid a u t'

theorem Effect.of_eq {w : World} {tid : Int} {a : Action} {u : Int} {t' : Thread}
    (h : t' = w.threads u) : Effect w tid a u t' := by
  subst h
  exact .stays rfl rfl rfl rfl

theorem World.advance_threads (w : World) (t u : Int) :
    (w.advance t).threads u = if u = t then (w.threads t).advance else w.threads u :=
  World.modThread_threads w t _ u

@[simp] theorem World.advance_state (w : World) (t u : Int) :
    ((w.advance t).threads u).state = (w.threads u).state :=
  World.modThread_field (f := (·.advance)) Thread.state rfl u

/-- The thread that moves on is not blocked. -/
theorem advance_not_blocked {w : World} {tid : Int} (h : (w.threads tid).state = .ready) :
    ((w.advance tid).threads tid).blocked = false := by
  rw [World.advance_threads, if_pos rfl]
  exact Thread.not_blocked_of_ready h

theorem World.arm_threads (w : World) (t : Int) (c : Option Int) (u : Int) :
    (w.arm t c).threads u = if u = t then
      { w.threads t with timeoutTicks := c.getD (w.threads t).timeoutTicks } else w.threads u := by
  cases c with
  | none =>
    show w.threads u = _
    split
    · subst u; rfl
    · rfl
  | some ticks => exact World.modThread_threads w t (fun t => { t with timeoutTicks := ticks }) u

theorem Thread.ownedPush_fields (t : Thread) (r : Int) :
    (t.ownedPush r).state = t.state ∧ (t.ownedPush r).blockedOn = t.blockedOn ∧
      (t.ownedPush r).pc = t.pc ∧ (t.ownedPush r).timeoutTicks = t.timeoutTicks := by
  unfold Thread.ownedPush
  split <;> exact ⟨rfl, rfl, rfl, rfl⟩

/-- A thread that is woken by one of the four wakers, seen after the waker's `pc++`. -/
theorem Effect.of_wake {w v : World} {tid : Int} {a : Action} {best : Nat} {g : Thread → Thread}
    (hready : (w.threads tid).state = .ready) (hwakes : a.type.wakes = true)
    (hlive : best < (w.resources a.resourceId).waiters.count)
    (hg : ∀ t, (g t).state = .ready ∧ (g t).timeoutTicks = t.timeoutTicks)
    (hv : ∀ u, (v.threads u).state = (w.threads u).state ∧
      (v.threads u).blockedOn = (w.threads u).blockedOn ∧ (v.threads u).pc = (w.threads u).pc ∧
      (v.threads u).timeoutTicks = (w.threads u).timeoutTicks) (u : Int) :
    Effect w tid a u
      (((v.modThread ((w.resources a.resourceId).waiters.cell best) g).advance tid).threads u) := by
  rw [World.advance_threads]
  by_cases hu : u = tid
  · subst hu
    rw [if_pos rfl, World.modThread_threads]
    refine .runs rfl (Thread.not_blocked_of_ready ?_) ?_
    · show (if _ then _ else _ : Thread).state = _
      split
      · exact (hg _).1
      · rw [(hv u).1, hready]
    · show (if _ then _ else _ : Thread).timeoutTicks = _
      split
      · rw [(hg _).2, ← (hv u).2.2.2]
        congr 1
        rw [‹u = _›]
      · exact (hv u).2.2.2
  · rw [if_neg hu, World.modThread_threads]
    split
    · rename_i hw
      refine .woken hu hwakes (hw ▸ LiveArray.cell_mem hlive) (hg _).1 ?_
      rw [(hg _).2, ← hw]
      exact (hv u).2.2.2
    · exact .stays (hv u).1 (hv u).2.1 (hv u).2.2.1 (hv u).2.2.2

theorem bestWaiter_lt {w : World} {r : Int} (h : 0 < (w.resources r).waiters.count) :
    w.bestWaiter r < (w.resources r).waiters.count := bestIdx_lt _ h

theorem lowered_fields (sc : Scenario) (w : World) (tid r u : Int) :
    ((lowered sc w tid r).threads u).state = (w.threads u).state ∧
      ((lowered sc w tid r).threads u).blockedOn = (w.threads u).blockedOn ∧
      ((lowered sc w tid r).threads u).pc = (w.threads u).pc ∧
      ((lowered sc w tid r).threads u).timeoutTicks = (w.threads u).timeoutTicks := by
  unfold lowered
  rw [World.modThread_modThread, World.modThread_threads]
  split
  · subst u; exact ⟨rfl, rfl, rfl, rfl⟩
  · exact ⟨rfl, rfl, rfl, rfl⟩

/-- A thread that starts to wait, seen after its countdown is set. -/
theorem Effect.of_enqueue {w v : World} {tid : Int} {a : Action} {state : ThreadState}
    (hwait : a.type.wait = some state)
    (hv : ∀ u, (v.threads u).state = (w.threads u).state ∧
      (v.threads u).blockedOn = (w.threads u).blockedOn ∧ (v.threads u).pc = (w.threads u).pc ∧
      (v.threads u).timeoutTicks = (w.threads u).timeoutTicks)
    {v' : World} (hv' : ∀ u, ∃ q, v'.threads u =
      { (v.enqueue tid a.resourceId state).threads u with priority := q }) (u : Int) :
    Effect w tid a u ((v'.arm tid a.countdown).threads u) := by
  obtain ⟨q, hq⟩ := hv' u
  rw [World.enqueue_threads] at hq
  rw [World.arm_threads]
  split
  · subst u
    rw [if_pos rfl] at hq
    rw [hq]
    exact .waits rfl hwait rfl (hv tid).2.2.1 (congrArg (a.countdown.getD ·) (hv tid).2.2.2)
  · rename_i hu
    rw [if_neg hu] at hq
    rw [hq]
    exact .stays (hv u).1 (hv u).2.1 (hv u).2.2.1 (hv u).2.2.2

/-- **What an action does to each thread.** -/
theorem Act.effect {tid : Int} {a : Action} {w w' : World} (h : Act sc tid a w w')
    (hready : (w.threads tid).state = .ready) (u : Int) : Effect w tid a u (w'.threads u) := by
  cases h with
  | @bookkeep f _ hstand _ =>
    rw [World.modThread_threads]
    split
    · subst u
      exact .runs rfl (hstand.blocked.trans (Thread.not_blocked_of_ready hready)) hstand.timeoutTicks
    · exact .of_eq rfl
  | exit =>
    rw [World.modThread_threads]
    split
    · subst u
      exact .runs rfl (Thread.not_blocked_of_done rfl) rfl
    · exact .of_eq rfl
  | lifecycle | take | signal | condLost | mail =>
    rw [World.advance_threads]
    split
    · subst u
      exact .runs rfl (Thread.not_blocked_of_ready hready) rfl
    · exact .of_eq rfl
  | acquire =>
    rw [World.advance_threads, World.modThread_self]
    split
    · subst u
      obtain ⟨hs, _, _, ht⟩ := Thread.ownedPush_fields (w.threads tid) a.resourceId
      exact .runs rfl (Thread.not_blocked_of_ready (hs.trans hready)) ht
    · rw [World.modThread_of_ne _ ‹_›]
      exact .of_eq rfl
  | blockMutex hk =>
    exact .of_enqueue (ActionType.wait_of_locks hk).1 (fun _ => ⟨rfl, rfl, rfl, rfl⟩)
      (boost_threads _ _ _ _) u
  | blockSem hk =>
    exact .of_enqueue (ActionType.wait_of_waits hk).1 (fun _ => ⟨rfl, rfl, rfl, rfl⟩)
      (fun _ => ⟨_, rfl⟩) u
  | condWait m hk =>
    have hnone : a.countdown = none := by simp [Action.countdown, hk]
    have harm : (released w tid m).enqueue tid a.resourceId .blockedMutex
        = ((released w tid m).enqueue tid a.resourceId .blockedMutex).arm tid a.countdown := by
      rw [hnone]; rfl
    rw [harm]
    refine .of_enqueue (v := released w tid m) (by rw [hk]; rfl) (fun u => ?_) (fun _ => ⟨_, rfl⟩) u
    unfold released
    rw [World.modResource_threads, World.modThread_threads]
    split
    · subst u; exact ⟨rfl, rfl, rfl, rfl⟩
    · exact ⟨rfl, rfl, rfl, rfl⟩
  | mailBlock hk =>
    have hnone : a.countdown = none := by
      cases htype : a.type <;> simp_all [Action.countdown, ActionType.mails]
    have harm : w.enqueue tid a.resourceId .blockedSem
        = (w.enqueue tid a.resourceId .blockedSem).arm tid a.countdown := by
      rw [hnone]; rfl
    rw [harm]
    exact .of_enqueue (v := w) (ActionType.wait_of_mails hk).1 (fun _ => ⟨rfl, rfl, rfl, rfl⟩)
      (fun _ => ⟨_, rfl⟩) u
  | unlock hk =>
    by_cases hlive : 0 < ((lowered sc w tid a.resourceId).resources a.resourceId).waiters.count
    · rw [handOver_of_waiters hlive]
      refine .of_wake hready (by rw [hk]; rfl) ?_ (fun t => ?_) (fun u => ?_) u
      · exact bestWaiter_lt (w := lowered sc w tid a.resourceId) hlive
      · obtain ⟨hs, _, _, ht⟩ := Thread.ownedPush_fields t.resume.advance a.resourceId
        exact ⟨hs, ht⟩
      · exact lowered_fields sc w tid a.resourceId u
    · rw [handOver_of_empty hlive, World.advance_threads]
      split
      · subst u
        refine .runs rfl (Thread.not_blocked_of_ready ?_) (lowered_fields sc w tid _ tid).2.2.2
        exact (lowered_fields sc w tid _ tid).1.trans hready
      · obtain ⟨h₁, h₂, h₃, h₄⟩ := lowered_fields sc w tid a.resourceId u
        exact .stays h₁ h₂ h₃ h₄
  | grant hk hlive =>
    unfold World.grantSem
    dsimp only
    refine .of_wake hready (by rw [hk]; rfl) (bestWaiter_lt hlive) ?_ ?_ u
    · exact fun _ => ⟨rfl, rfl⟩
    · exact fun _ => ⟨rfl, rfl, rfl, rfl⟩
  | condSignal hk hlive =>
    refine .of_wake hready (by rw [hk]; rfl) (bestWaiter_lt hlive) ?_ ?_ u
    · exact fun _ => ⟨rfl, rfl⟩
    · exact fun _ => ⟨rfl, rfl, rfl, rfl⟩
  | mailWake hk hlive =>
    refine .of_wake hready (by rw [hk]; rfl) hlive ?_ ?_ u
    · exact fun _ => ⟨rfl, rfl⟩
    · exact fun _ => ⟨rfl, rfl, rfl, rfl⟩
  | condBroadcast hk =>
    rw [World.advance_threads]
    have hcases := fun x => wakeAll_thread a.resourceId _ w le_rfl x
    split
    · subst u
      rcases hcases tid with h | ⟨h, _⟩
      · rw [h]
        exact .runs rfl (Thread.not_blocked_of_ready hready) rfl
      · rw [h]
        exact .runs rfl (Thread.not_blocked_of_ready rfl) rfl
    · rename_i hu
      rcases hcases u with h | ⟨h, hin⟩
      · exact .of_eq h
      · rw [h]
        exact .woken hu (by rw [hk]; rfl) hin rfl rfl

/-! ## Queues as a roster -/

/-- What a thread waits for. -/
def Thread.place (t : Thread) : Option Int := if t.blocked then some t.blockedOn else none

/-- Who waits for what, and the queues. -/
def World.parking (sc : Scenario) (w : World) : Roster Int Int where
  place t := if sc.IsThread t then (w.threads t).place else none
  members r := if sc.IsResource r then (w.resources r).waiters.toList else []

theorem Thread.place_of_not_blocked {t : Thread} (h : t.blocked = false) : t.place = none := by
  simp [Thread.place, h]

theorem Thread.place_of_ready {t : Thread} (h : t.state = .ready) : t.place = none :=
  Thread.place_of_not_blocked (Thread.not_blocked_of_ready h)

theorem Thread.place_of_blocked {t : Thread} (h : t.blocked = true) :
    t.place = some t.blockedOn := by
  simp [Thread.place, h]

theorem Thread.place_eq_some {t : Thread} {r : Int} :
    t.place = some r ↔ t.blocked = true ∧ t.blockedOn = r := by
  simp [Thread.place]

theorem Thread.place_congr {t t' : Thread} (hs : t'.state = t.state)
    (hb : t'.blockedOn = t.blockedOn) : t'.place = t.place := by
  simp [Thread.place, Thread.blocked, hs, hb]

theorem Thread.place_tick (t : Thread) : t.tick.place = if t.expires then none else t.place := by
  unfold Thread.tick
  by_cases hexp : t.expires = true
  · rw [if_pos hexp, if_pos hexp]
    exact Thread.place_of_ready rfl
  · rw [if_neg hexp, if_neg hexp]
    split
    · exact Thread.place_congr rfl rfl
    · rfl

/-- The clock makes the threads whose time is up quit. -/
theorem tick_parking (w : World) :
    (w.tick sc).1.parking sc = (w.parking sc).quit fun t => (w.threads t).expires := by
  refine Roster.ext (funext fun t => ?_) (funext fun r => by simp [World.parking, Roster.quit])
  simp only [World.parking, Roster.quit, tick_threads]
  by_cases ht : sc.IsThread t
  · simp only [if_pos ht, Thread.place_tick]
  · simp [if_neg ht]

theorem parking_eq {v v' : World} (hplace : ∀ u, (v'.threads u).place = (v.threads u).place)
    (hqueue : ∀ s, (v'.resources s).waiters = (v.resources s).waiters) :
    v'.parking sc = v.parking sc := by
  refine Roster.ext (funext fun t => ?_) (funext fun r => ?_)
  · simp only [World.parking, hplace]
  · simp only [World.parking, hqueue]

theorem parking_enter {v v' : World} {tid r : Int} (htid : sc.IsThread tid) (hr : sc.IsResource r)
    (hplace : ∀ u, (v'.threads u).place = if u = tid then some r else (v.threads u).place)
    (hqueue : ∀ s, (v'.resources s).waiters
      = if s = r then (v.resources r).waiters.push tid else (v.resources s).waiters) :
    v'.parking sc = (v.parking sc).enter tid r := by
  refine Roster.ext (funext fun t => ?_) (funext fun s => ?_)
  · simp only [World.parking, Roster.enter, Function.update_apply, hplace]
    by_cases ht : t = tid
    · subst ht; simp [htid]
    · simp [ht]
  · simp only [World.parking, Roster.enter, Function.update_apply, hqueue]
    by_cases hs : s = r
    · subst hs; simp [hr]
    · simp [hs]

theorem parking_leave {v v' : World} {r woken : Int} {i : Nat} (hr : sc.IsResource r)
    (hlive : i < (v.resources r).waiters.count) (hcell : (v.resources r).waiters.cell i = woken)
    (hplace : ∀ u, (v'.threads u).place = if u = woken then none else (v.threads u).place)
    (hqueue : ∀ s, (v'.resources s).waiters
      = if s = r then (v.resources r).waiters.swapRemove i else (v.resources s).waiters) :
    (v.parking sc).Step (v'.parking sc) := by
  have hleave : v'.parking sc
      = (v.parking sc).leave woken r ((v.resources r).waiters.swapRemove i).toList := by
    refine Roster.ext (funext fun t => ?_) (funext fun s => ?_)
    · simp only [World.parking, Roster.leave, Function.update_apply, hplace]
      by_cases ht : t = woken
      · simp [ht]
      · simp [ht]
    · simp only [World.parking, Roster.leave, Function.update_apply, hqueue]
      by_cases hs : s = r
      · subst hs; simp [hr]
      · simp [hs]
  rw [hleave]
  refine .leave _ _ _ ?_
  simp only [World.parking, if_pos hr, ← hcell]
  exact LiveArray.swapRemove_perm hlive

theorem World.waiterRemove_waiters (w : World) (r : Int) (i : Nat) (s : Int) :
    ((w.waiterRemove r i).resources s).waiters
      = if s = r then (w.resources r).waiters.swapRemove i else (w.resources s).waiters := by
  rw [World.waiterRemove, World.modResource_resources]
  split
  · subst s; rfl
  · rfl

theorem World.enqueue_waiters (w : World) (tid r : Int) (state : ThreadState) (s : Int) :
    ((w.enqueue tid r state).resources s).waiters
      = if s = r then (w.resources r).waiters.push tid else (w.resources s).waiters := by
  rw [World.enqueue, World.modThread_resources, World.modResource_resources]
  split
  · subst s; rfl
  · rfl

theorem World.modResource_waiters {w : World} {r : Int} {f : Resource → Resource}
    (h : (f (w.resources r)).waiters = (w.resources r).waiters) (s : Int) :
    ((w.modResource r f).resources s).waiters = (w.resources s).waiters :=
  World.modResource_field (·.waiters) h s

theorem World.modResource_owner {w : World} {r : Int} {f : Resource → Resource}
    (h : (f (w.resources r)).owner = (w.resources r).owner) (s : Int) :
    ((w.modResource r f).resources s).owner = (w.resources s).owner :=
  World.modResource_field (·.owner) h s

theorem advance_place (w : World) (tid u : Int) :
    ((w.advance tid).threads u).place = (w.threads u).place :=
  World.modThread_field (f := (·.advance)) (·.place) rfl u

/-- A READY thread that finishes was nowhere and stays there. -/
theorem place_of_done {w : World} {tid : Int} (hready : (w.threads tid).state = .ready) (u : Int) :
    ((w.modThread tid fun t => { t with state := .done }).threads u).place = (w.threads u).place := by
  refine World.modThread_field (f := fun t => { t with state := .done }) (·.place) ?_ u
  rw [Thread.place_of_ready hready]
  exact Thread.place_of_not_blocked (Thread.not_blocked_of_done rfl)

/-- The place of each thread once a waker has woken one and moved on. -/
theorem place_of_wake {w v : World} {tid woken : Int} {g : Thread → Thread}
    (hg : ∀ t, (g t).state = .ready) (hv : ∀ u, (v.threads u).place = (w.threads u).place) (u : Int) :
    (((v.modThread woken g).advance tid).threads u).place
      = if u = woken then none else (w.threads u).place := by
  rw [advance_place, World.modThread_threads]
  split
  · exact Thread.place_of_ready (hg _)
  · exact hv u

theorem wakeAll_steps {r : Int} (hr : sc.IsResource r) (n : Nat) (w : World)
    (hn : n ≤ (w.resources r).waiters.count) :
    Roster.Steps (w.parking sc) ((wakeAll r n w).1.parking sc) := by
  induction n generalizing w with
  | zero => exact .refl
  | succ n ih =>
    have hlive : 0 < (w.resources r).waiters.count := by omega
    have hone : (w.parking sc).Step (((w.waiterRemove r 0).modThread
        ((w.resources r).waiters.cell 0) (·.resume)).parking sc) := by
      refine parking_leave hr hlive rfl (fun u => ?_) (World.waiterRemove_waiters w r 0)
      rw [World.modThread_threads]
      split
      · exact Thread.place_of_ready rfl
      · rfl
    refine .head hone (ih _ ?_)
    · simp only [World.waiterRemove, World.modThread_resources, World.modResource_self,
        LiveArray.count_swapRemove]
      omega

/-- **An action is a sequence of roster moves.** -/
theorem Act.parking {tid : Int} {a : Action} {w w' : World} (h : Act sc tid a w w')
    (htid : sc.IsThread tid) (hready : (w.threads tid).state = .ready)
    (hr : a.type.operand ≠ none → sc.IsResource a.resourceId) :
    Roster.Steps (w.parking sc) (w'.parking sc) := by
  have hsame : ∀ {v : World}, (∀ u, (v.threads u).place = (w.threads u).place) →
      (∀ s, (v.resources s).waiters = (w.resources s).waiters) →
      Roster.Steps (w.parking sc) (v.parking sc) := by
    intro v hplace hqueue
    rw [parking_eq hplace hqueue]
  have hfree : (w.parking sc).place tid = none := by
    simp only [World.parking, if_pos htid]
    exact Thread.place_of_ready hready
  have henter : ∀ {v : World}, sc.IsResource a.resourceId →
      (∀ u, (v.threads u).place = if u = tid then some a.resourceId else (w.threads u).place) →
      (∀ s, (v.resources s).waiters = if s = a.resourceId then
        (w.resources a.resourceId).waiters.push tid else (w.resources s).waiters) →
      Roster.Steps (w.parking sc) (v.parking sc) := by
    intro v hop hplace hqueue
    rw [parking_enter htid hop hplace hqueue]
    exact .single (.enter _ _ hfree)
  cases h with
  | @bookkeep f _ hstand _ =>
    exact hsame (World.modThread_field (·.place) (Thread.place_congr hstand.state hstand.blockedOn))
      fun _ => rfl
  | exit =>
    exact hsame (place_of_done hready) fun _ => rfl
  | lifecycle | take | signal =>
    refine hsame (advance_place _ tid) fun s => ?_
    rw [World.advance_resources]
    apply World.modResource_waiters
    rfl
  | condLost => exact hsame (advance_place _ tid) fun _ => rfl
  | mail _ hf =>
    exact hsame (advance_place _ tid) (World.modResource_waiters hf.waiters)
  | acquire =>
    refine hsame (fun u => ?_) fun s => ?_
    · rw [advance_place]
      refine World.modThread_field (f := (·.ownedPush a.resourceId)) (·.place) ?_ u
      obtain ⟨hs, hb, _⟩ := Thread.ownedPush_fields (w.threads tid) a.resourceId
      exact Thread.place_congr hs hb
    · rw [World.advance_resources, World.modThread_resources]
      apply World.modResource_waiters
      rfl
  | blockMutex hk =>
    have hop := hr (by rw [(ActionType.wait_of_locks hk).2]; simp)
    refine henter hop (fun u => ?_) fun s => ?_
    · rw [World.arm_threads]
      have hplace : ∀ x, ((boost sc (w.threads tid).priority sc.threadCount.toNat
          (w.resources a.resourceId).owner (w.enqueue tid a.resourceId .blockedMutex)).threads x).place
          = if x = tid then some a.resourceId else (w.threads x).place := by
        intro x
        rw [boost_field (·.place) fun _ _ => rfl, World.enqueue_threads]
        split <;> rfl
      split
      · subst u
        refine Eq.trans (Thread.place_congr rfl rfl) ((hplace tid).trans (if_pos rfl))
      · rw [hplace, if_neg ‹_›]
    · rw [World.arm_resources, boost_resources]
      exact World.enqueue_waiters w tid _ _ s
  | blockSem hk =>
    have hop := hr (by rw [(ActionType.wait_of_waits hk).2]; simp)
    refine henter hop (fun u => ?_) fun s => ?_
    · rw [World.arm_threads, World.enqueue_threads, World.enqueue_threads, if_pos rfl]
      split <;> rfl
    · rw [World.arm_resources]
      exact World.enqueue_waiters w tid _ _ s
  | condWait m hk =>
    have hop := hr (by rw [hk]; simp [ActionType.operand])
    refine henter hop (fun u => ?_) fun s => ?_
    · rw [World.enqueue_threads]
      split
      · rfl
      · rename_i hu
        rw [released, World.modResource_threads, World.modThread_of_ne _ hu]
    · have hrel : ∀ x, ((released w tid m).resources x).waiters = (w.resources x).waiters := by
        intro x
        unfold released
        apply World.modResource_waiters
        rfl
      rw [World.enqueue_waiters, hrel, hrel]
  | mailBlock hk =>
    have hop := hr (by rw [(ActionType.wait_of_mails hk).2]; simp)
    refine henter hop (fun u => ?_) (World.enqueue_waiters w tid _ _)
    rw [World.enqueue_threads]
    split <;> rfl
  | unlock hk =>
    have hop := hr (by rw [hk]; simp [ActionType.operand])
    have hlow : ∀ u, ((lowered sc w tid a.resourceId).threads u).place = (w.threads u).place := by
      intro u
      obtain ⟨hs, hb, _⟩ := lowered_fields sc w tid a.resourceId u
      exact Thread.place_congr hs hb
    by_cases hlive : 0 < ((lowered sc w tid a.resourceId).resources a.resourceId).waiters.count
    · rw [handOver_of_waiters hlive]
      refine .single (parking_leave hop (bestWaiter_lt (w := lowered sc w tid a.resourceId) hlive) rfl
        (place_of_wake (fun t => ?_) hlow) fun s => ?_)
      · exact (Thread.ownedPush_fields _ _).1
      · refine Eq.trans ?_ (World.waiterRemove_waiters (lowered sc w tid a.resourceId) _ _ s)
        rw [World.advance_resources, World.modThread_resources]
        apply World.modResource_waiters
        rfl
    · rw [handOver_of_empty hlive]
      refine hsame (fun u => (advance_place _ tid u).trans (hlow u)) fun s => ?_
      rw [World.advance_resources]
      apply World.modResource_waiters
      rfl
  | grant hk hlive =>
    have hop := hr (by rw [hk]; simp [ActionType.operand])
    exact .single (parking_leave hop (bestWaiter_lt hlive) rfl
      (place_of_wake (fun _ => rfl) fun _ => rfl) (World.waiterRemove_waiters w _ _))
  | condSignal hk hlive =>
    have hop := hr (by rw [hk]; simp [ActionType.operand])
    exact .single (parking_leave hop (bestWaiter_lt hlive) rfl
      (place_of_wake (fun _ => rfl) fun _ => rfl) (World.waiterRemove_waiters w _ _))
  | @mailWake f hk hlive hf =>
    have hop := hr (by rw [hk]; simp [ActionType.operand])
    refine .single (parking_leave hop hlive rfl
      (place_of_wake (fun _ => rfl) fun _ => rfl) fun s => ?_)
    refine (World.waiterRemove_waiters (w.modResource a.resourceId f) _ 0 s).trans ?_
    rw [World.modResource_waiters hf.waiters, World.modResource_waiters hf.waiters]
  | condBroadcast hk =>
    have hop := hr (by rw [hk]; simp [ActionType.operand])
    have hadv : (((wakeAll a.resourceId (w.resources a.resourceId).waiters.count w).1.advance
        tid).parking sc) = (wakeAll a.resourceId (w.resources a.resourceId).waiters.count w).1.parking sc :=
      parking_eq (advance_place _ tid) fun _ => rfl
    rw [hadv]
    exact wakeAll_steps hop _ w le_rfl

theorem Move.parking {tid : Int} {v w' : World} (hm : sc.Matching) (htid : sc.IsThread tid)
    (h : Move sc tid v w') : Roster.Steps (v.parking sc) (w'.parking sc) := by
  cases h with
  | idle => exact .refl
  | finish hready _ =>
    have hsame : (v.modThread tid fun t => { t with state := .done }).parking sc = v.parking sc := by
      exact parking_eq (place_of_done hready) fun _ => rfl
    rw [hsame]
  | act hready hat _ hact =>
    refine hact.parking htid hready fun hop => ?_
    obtain ⟨type, htype⟩ := Option.ne_none_iff_exists'.mp hop
    exact (hm.operand tid htid _ _ hat type htype).1

theorem reset_parking (w : World) :
    (w.reset sc).parking sc = ⟨fun _ => none, fun _ => []⟩ := by
  refine Roster.ext (funext fun t => ?_) (funext fun r => ?_)
  · simp only [World.parking, World.reset]
    split
    · exact Thread.place_of_ready rfl
    · rfl
  · simp only [World.parking, World.reset]
    split
    · simp [Resource.reset]
    · rfl

/-- **A blocked thread is in the queue it waits in**, whatever expired before. -/
theorem parking_listed (hm : sc.Matching) {w : World} (h : (callSystem sc).Reach w) :
    (w.parking sc).Listed := by
  induction h with
  | init hi =>
    obtain ⟨before, rfl⟩ := hi
    rw [reset_parking]
    intro a b hab
    exact absurd hab (by simp)
  | step _ hst ih =>
    obtain ⟨htid, hok, rfl⟩ := hst
    refine Roster.Listed.steps ?_ ((executeStep_move hok).parking hm htid)
    rw [tick_parking]
    exact ih.quit _

/-- The queues hold exactly the blocked threads after a call that times nobody out, if they did
before. -/
theorem parking_sound_step (hm : sc.Matching) {w : World} {tid : Int} (htid : sc.IsThread tid)
    (hok : (w.executeStep sc tid).fault = none)
    (hexp : ∀ t, sc.IsThread t → (w.threads t).expires = false) (h : (w.parking sc).Sound) :
    ((w.executeStep sc tid).world.parking sc).Sound := by
  refine Roster.Sound.steps ?_ ((executeStep_move hok).parking hm htid)
  rw [tick_parking, Roster.quit_eq_self]
  · exact h
  · intro t ht
    by_cases hthread : sc.IsThread t
    · rw [hexp t hthread] at ht
      exact absurd ht (by simp)
    · simp [World.parking, hthread]

/-! ## A blocked thread stands at the action it waits in -/

/-- The queue of a resource, when the queues hold exactly the blocked threads. -/
theorem mem_waiters_of_sound {w : World} (h : (w.parking sc).Sound) {t r : Int}
    (hr : sc.IsResource r) : t ∈ (w.resources r).waiters.toList ↔
      sc.IsThread t ∧ (w.threads t).blocked = true ∧ (w.threads t).blockedOn = r := by
  have := h.mem_iff t r
  simp only [World.parking, if_pos hr] at this
  rw [this]
  split
  · rename_i ht
    rw [Thread.place_eq_some]
    simp [ht]
  · rename_i ht
    simp [ht]

/-- What a move does to each thread. -/
theorem Move.effect {tid : Int} {v w' : World} (h : Move sc tid v w') (u : Int) :
    ∃ a : Action, (a = ⟨.nop, -1, 0⟩ ∨ sc.actionAt tid (v.threads tid).pc = some a) ∧
      Effect v tid a u (w'.threads u) := by
  cases h with
  | idle => exact ⟨_, .inl rfl, .of_eq rfl⟩
  | finish =>
    refine ⟨_, .inl rfl, ?_⟩
    rw [World.modThread_threads]
    split
    · subst u
      exact .runs rfl (Thread.not_blocked_of_done rfl) rfl
    · exact .of_eq rfl
  | act hready hat _ hact => exact ⟨_, .inr hat, hact.effect hready u⟩

/-- The action at a thread's `pc` is one that waits, and what it waits for is the action's
resource. -/
def Thread.StandsAt (t : Thread) (a : Action) : Prop :=
  a.type.wait = some t.state ∧ t.blockedOn = a.resourceId

/-- The clock moves no thread that it does not time out. -/
theorem Thread.tick_of_not_expires {t : Thread} (h : t.expires = false) :
    t.tick.state = t.state ∧ t.tick.blockedOn = t.blockedOn ∧ t.tick.pc = t.pc ∧
      t.tick.ownedMutexStack = t.ownedMutexStack ∧ t.tick.basePriority = t.basePriority ∧
      t.tick.priority = t.priority := by
  unfold Thread.tick
  rw [if_neg (by simp [h])]
  split <;> exact ⟨rfl, rfl, rfl, rfl, rfl, rfl⟩

theorem Thread.tick_of_expires {t : Thread} (h : t.expires = true) :
    t.tick = { t.resume.advance with timeoutTicks := -1 } := by
  unfold Thread.tick
  rw [if_pos h]

theorem Thread.not_expires_of_tick_blocked {t : Thread} (h : t.tick.blocked = true) :
    t.expires = false := by
  by_contra hexp
  rw [Thread.tick_of_expires (by simpa using hexp)] at h
  exact (Thread.not_ready_of_blocked h rfl).elim

theorem tick_blocked {w : World} {t : Int} (ht : sc.IsThread t)
    (h : ((w.tick sc).1.threads t).blocked = true) :
    (w.threads t).expires = false ∧ (w.threads t).blocked = true := by
  rw [tick_threads, if_pos ht] at h
  have hexp := Thread.not_expires_of_tick_blocked h
  exact ⟨hexp, (Thread.blocked_congr (Thread.tick_of_not_expires hexp).1).symm.trans h⟩

theorem standsAt_step {w : World} {tid : Int} (hok : (w.executeStep sc tid).fault = none)
    (h : ∀ t, sc.IsThread t → (w.threads t).blocked = true →
      ∃ a, sc.actionAt t (w.threads t).pc = some a ∧ (w.threads t).StandsAt a)
    {t : Int} (ht : sc.IsThread t) (hb : ((w.executeStep sc tid).world.threads t).blocked = true) :
    ∃ a, sc.actionAt t ((w.executeStep sc tid).world.threads t).pc = some a ∧
      ((w.executeStep sc tid).world.threads t).StandsAt a := by
  obtain ⟨a, ha, heff⟩ := (executeStep_move hok).effect t
  generalize hw' : (w.executeStep sc tid).world.threads t = t' at heff hb ⊢
  cases heff with
  | stays hs hbo hpc _ =>
    have hbt : ((w.tick sc).1.threads t).blocked = true :=
      (Thread.blocked_congr hs).symm.trans hb
    obtain ⟨hexp, hbw⟩ := tick_blocked ht hbt
    obtain ⟨b, hat, hwait, hres⟩ := h t ht hbw
    rw [tick_threads, if_pos ht] at hs hbo hpc
    obtain ⟨hs', hbo', hpc', _⟩ := Thread.tick_of_not_expires hexp
    exact ⟨b, by rw [hpc, hpc', hat], by rw [hwait, hs, hs'], by rw [hbo, hbo', hres]⟩
  | runs _ hnot _ =>
    rw [hnot] at hb
    exact absurd hb (by simp)
  | waits htid hwait hbo hpc _ =>
    subst htid
    rcases ha with rfl | hat
    · exact absurd hwait (by simp [ActionType.wait])
    · exact ⟨a, by rw [hpc, hat], hwait, hbo⟩
  | woken _ _ _ hs _ =>
    exact absurd hs (Thread.not_ready_of_blocked hb)

/-- **A blocked thread stands at the action it waits in.** -/
theorem reach_standsAt {w : World} (h : (callSystem sc).Reach w) {t : Int} (ht : sc.IsThread t)
    (hb : (w.threads t).blocked = true) :
    ∃ a, sc.actionAt t (w.threads t).pc = some a ∧ (w.threads t).StandsAt a := by
  induction h generalizing t with
  | init hi =>
    obtain ⟨before, rfl⟩ := hi
    simp only [World.reset, if_pos ht] at hb
    exact (Thread.not_ready_of_blocked hb rfl).elim
  | step _ hst ih =>
    obtain ⟨_, hok, rfl⟩ := hst
    exact standsAt_step hok (fun t => ih) ht hb

/-! ## Scenarios without a countdown -/

/-- No action starts a countdown. -/
def Scenario.Untimed (sc : Scenario) : Prop :=
  ∀ t, sc.IsThread t → ∀ pc a, sc.actionAt t pc = some a → a.countdown = none

/-- No countdown runs, and the queues hold exactly the blocked threads. -/
structure Parked (sc : Scenario) (w : World) : Prop where
  untimed : ∀ t, sc.IsThread t → (w.threads t).timeoutTicks = -1
  sound : (w.parking sc).Sound

theorem Parked.not_timed {w : World} (h : Parked sc w) {t : Int} (ht : sc.IsThread t) :
    (w.threads t).timed = false := by
  simp [Thread.timed, h.untimed t ht]

theorem Parked.tick_eq {w : World} (h : Parked sc w) : (w.tick sc).1 = w :=
  tick_eq_self fun _ => h.not_timed

theorem Parked.step (hm : sc.Matching) (hu : sc.Untimed) {w : World} (h : Parked sc w) {tid : Int}
    (htid : sc.IsThread tid) (hok : (w.executeStep sc tid).fault = none) :
    Parked sc (w.executeStep sc tid).world := by
  refine ⟨fun t ht => ?_, parking_sound_step hm htid hok (fun t ht => ?_) h.sound⟩
  · have hmove := executeStep_move hok
    rw [h.tick_eq] at hmove
    obtain ⟨a, ha, heff⟩ := hmove.effect t
    have hcd : a.countdown = none := by
      rcases ha with rfl | hat
      · rfl
      · exact hu tid htid _ _ hat
    cases heff with
    | stays _ _ _ hticks | runs _ _ hticks | woken _ _ _ _ hticks => rw [hticks, h.untimed t ht]
    | waits _ _ _ _ hticks => rw [hticks, hcd, Option.getD_none, h.untimed t ht]
  · simp [Thread.expires, h.not_timed ht]

theorem Parked.reset (before : World) : Parked sc (before.reset sc) := by
  refine ⟨fun t ht => ?_, ?_⟩
  · simp [World.reset, ht, Thread.reset]
  · rw [reset_parking]
    exact ⟨fun _ _ => by simp, fun _ => List.nodup_nil⟩

/-- **Without countdowns the queues are always exact.** -/
theorem parked_reach (hm : sc.Matching) (hu : sc.Untimed) {w : World}
    (h : (callSystem sc).Reach w) : Parked sc w := by
  induction h with
  | init hi =>
    obtain ⟨before, rfl⟩ := hi
    exact Parked.reset before
  | step _ hst ih =>
    obtain ⟨htid, hok, rfl⟩ := hst
    exact ih.step hm hu htid hok

/-! ## Owners and waiters are threads -/

theorem mem_of_mem_waiterRemove {w : World} {r : Int} {i : Nat}
    (hi : i < (w.resources r).waiters.count) {u s : Int}
    (hu : u ∈ ((w.waiterRemove r i).resources s).waiters.toList) :
    u ∈ (w.resources s).waiters.toList := by
  rw [World.waiterRemove_waiters] at hu
  split at hu
  · subst s
    exact LiveArray.mem_of_mem_swapRemove hi hu
  · exact hu

theorem mem_of_mem_enqueue {w : World} {tid r : Int} {state : ThreadState} {u s : Int}
    (hu : u ∈ ((w.enqueue tid r state).resources s).waiters.toList) :
    u ∈ (w.resources s).waiters.toList ∨ (u = tid ∧ s = r) := by
  rw [World.enqueue_waiters] at hu
  split at hu
  · subst s
    rw [LiveArray.toList_push, List.mem_append, List.mem_singleton] at hu
    exact hu.imp id fun h => ⟨h, rfl⟩
  · exact .inl hu

theorem mem_of_mem_wakeAll {r : Int} {n : Nat} {w : World}
    (hn : n ≤ (w.resources r).waiters.count) {u s : Int}
    (hu : u ∈ ((wakeAll r n w).1.resources s).waiters.toList) :
    u ∈ (w.resources s).waiters.toList := by
  induction n generalizing w with
  | zero => exact hu
  | succ n ih =>
    have hlive : 0 < (w.resources r).waiters.count := by omega
    refine mem_of_mem_waiterRemove hlive (ih (w := (w.waiterRemove r 0).modThread
      ((w.resources r).waiters.cell 0) (·.resume)) ?_ hu)
    simp only [World.waiterRemove, World.modThread_resources, World.modResource_self,
      LiveArray.count_swapRemove]
    omega

/-- Only the thread that starts to wait enters a queue. -/
theorem Act.queue_mem {tid : Int} {a : Action} {w w' : World} (h : Act sc tid a w w') {u s : Int}
    (hu : u ∈ (w'.resources s).waiters.toList) :
    u ∈ (w.resources s).waiters.toList ∨ (u = tid ∧ s = a.resourceId) := by
  cases h with
  | bookkeep | exit | condLost => exact .inl hu
  | lifecycle | take | signal =>
    rw [World.advance_resources, World.modResource_waiters rfl] at hu
    exact .inl hu
  | acquire =>
    rw [World.advance_resources, World.modThread_resources, World.modResource_waiters rfl] at hu
    exact .inl hu
  | blockMutex =>
    rw [World.arm_resources, boost_resources] at hu
    exact mem_of_mem_enqueue hu
  | blockSem =>
    rw [World.arm_resources] at hu
    exact mem_of_mem_enqueue hu
  | unlock =>
    left
    by_cases hlive : 0 < ((lowered sc w tid a.resourceId).resources a.resourceId).waiters.count
    · rw [handOver_of_waiters hlive, World.advance_resources, World.modThread_resources,
        World.modResource_waiters rfl] at hu
      exact mem_of_mem_waiterRemove (bestWaiter_lt hlive) hu
    · rw [handOver_of_empty hlive, World.advance_resources, World.modResource_waiters rfl] at hu
      exact hu
  | grant _ hlive | condSignal _ hlive =>
    exact .inl (mem_of_mem_waiterRemove (bestWaiter_lt hlive) hu)
  | condWait m =>
    refine (mem_of_mem_enqueue hu).imp (fun h => ?_) id
    have hrel : ((released w tid m).resources s).waiters = (w.resources s).waiters := by
      unfold released
      apply World.modResource_waiters
      rfl
    rwa [hrel] at h
  | condBroadcast => exact .inl (mem_of_mem_wakeAll le_rfl hu)
  | mail _ hf =>
    rw [World.advance_resources, World.modResource_waiters hf.waiters] at hu
    exact .inl hu
  | mailBlock => exact mem_of_mem_enqueue hu
  | @mailWake f _ hlive hf =>
    left
    have hlive' : 0 < ((w.modResource a.resourceId f).resources a.resourceId).waiters.count := by
      rw [World.modResource_waiters hf.waiters]
      exact hlive
    have := mem_of_mem_waiterRemove hlive' hu
    rwa [World.modResource_waiters hf.waiters] at this

@[simp] theorem World.waiterRemove_owner (w : World) (r : Int) (i : Nat) (s : Int) :
    ((w.waiterRemove r i).resources s).owner = (w.resources s).owner := by
  unfold World.waiterRemove
  apply World.modResource_owner
  rfl

@[simp] theorem World.enqueue_owner (w : World) (tid r : Int) (state : ThreadState) (s : Int) :
    ((w.enqueue tid r state).resources s).owner = (w.resources s).owner := by
  rw [World.enqueue, World.modThread_resources]
  apply World.modResource_owner
  rfl

@[simp] theorem wakeAll_owner (r : Int) (n : Nat) (w : World) (s : Int) :
    ((wakeAll r n w).1.resources s).owner = (w.resources s).owner := by
  induction n generalizing w with
  | zero => rfl
  | succ n ih =>
    refine (ih _).trans ?_
    rw [World.modThread_resources]
    exact World.waiterRemove_owner w r 0 s

/-- An owner is replaced only if there is none or it is the thread that runs. The new one is none, the thread
that runs, or a waiter that is made READY. -/
theorem Act.owner {tid : Int} {a : Action} {w w' : World} (h : Act sc tid a w w') (s : Int) :
    (w'.resources s).owner = (w.resources s).owner ∨
      (((w.resources s).owner = -1 ∨ (w.resources s).owner = tid) ∧
        ((w'.resources s).owner = -1 ∨ (w'.resources s).owner = tid ∨
          ((w'.resources s).owner ∈ (w.resources s).waiters.toList ∧
            (w'.threads (w'.resources s).owner).state = .ready))) := by
  cases h with
  | bookkeep | exit | condLost => exact .inl rfl
  | lifecycle | take | signal =>
    left
    rw [World.advance_resources]
    apply World.modResource_owner
    rfl
  | mail _ hf =>
    left
    rw [World.advance_resources]
    exact World.modResource_owner hf.owner s
  | acquire _ hfree =>
    rw [World.advance_resources, World.modThread_resources, World.modResource_resources]
    split
    · subst s
      exact .inr ⟨.inl hfree, .inr (.inl rfl)⟩
    · exact .inl rfl
  | blockMutex =>
    rw [World.arm_resources, boost_resources]
    exact .inl (World.enqueue_owner ..)
  | blockSem =>
    rw [World.arm_resources]
    exact .inl (World.enqueue_owner ..)
  | unlock _ hown =>
    by_cases hlive : 0 < ((lowered sc w tid a.resourceId).resources a.resourceId).waiters.count
    · rw [handOver_of_waiters hlive, World.advance_resources, World.modThread_resources,
        World.modResource_resources]
      split
      · subst s
        refine .inr ⟨.inr hown, .inr (.inr ⟨LiveArray.cell_mem (bestWaiter_lt hlive), ?_⟩)⟩
        rw [World.advance_state]
        exact (congrArg Thread.state (World.modThread_self ..)).trans (Thread.ownedPush_fields _ _).1
      · exact .inl (World.waiterRemove_owner ..)
    · rw [handOver_of_empty hlive, World.advance_resources, World.modResource_resources]
      split
      · subst s
        exact .inr ⟨.inr hown, .inl rfl⟩
      · exact .inl rfl
  | grant | condSignal =>
    left
    exact World.waiterRemove_owner ..
  | condWait m _ _ _ _ hown =>
    rw [World.enqueue_owner, released, World.modResource_resources]
    split
    · subst s
      exact .inr ⟨.inr hown, .inl rfl⟩
    · exact .inl rfl
  | condBroadcast => exact .inl (wakeAll_owner ..)
  | mailBlock => exact .inl (World.enqueue_owner ..)
  | mailWake _ _ hf =>
    left
    rw [World.advance_resources, World.modThread_resources, World.waiterRemove_owner]
    exact World.modResource_owner hf.owner s

theorem alive_modResource {w : World} {r : Int} {f : Resource → Resource}
    (h : (f (w.resources r)).alive = (w.resources r).alive) (s : Int) :
    ((w.modResource r f).resources s).alive = (w.resources s).alive :=
  World.modResource_field (·.alive) h s

theorem alive_enqueue (w : World) (tid r : Int) (state : ThreadState) (s : Int) :
    ((w.enqueue tid r state).resources s).alive = (w.resources s).alive := by
  rw [World.enqueue, World.modThread_resources]
  apply alive_modResource
  rfl

theorem alive_waiterRemove (w : World) (r : Int) (i : Nat) (s : Int) :
    ((w.waiterRemove r i).resources s).alive = (w.resources s).alive := by
  unfold World.waiterRemove
  apply alive_modResource
  rfl

theorem alive_handOver (w : World) (r s : Int) :
    ((handOver w r).1.resources s).alive = (w.resources s).alive := by
  by_cases hlive : 0 < (w.resources r).waiters.count
  · rw [handOver_of_waiters hlive, World.modThread_resources, alive_modResource rfl]
    exact alive_waiterRemove ..
  · rw [handOver_of_empty hlive]
    apply alive_modResource
    rfl

theorem alive_wakeAll (r : Int) (n : Nat) (w : World) (s : Int) :
    ((wakeAll r n w).1.resources s).alive = (w.resources s).alive := by
  induction n generalizing w with
  | zero => rfl
  | succ n ih => exact (ih _).trans (alive_waiterRemove w r 0 s)

/-- Only the two lifecycle actions begin or end the life of an object. -/
theorem Act.alive {tid : Int} {a : Action} {w w' : World} (h : Act sc tid a w w')
    (hk : ¬ (a.type = .objectInit ∨ a.type = .objectDestroy)) (s : Int) :
    (w'.resources s).alive = (w.resources s).alive := by
  cases h with
  | bookkeep | exit | condLost => rfl
  | lifecycle _ hlife => exact absurd hlife hk
  | take | signal =>
    rw [World.advance_resources]
    apply alive_modResource
    rfl
  | acquire =>
    rw [World.advance_resources, World.modThread_resources]
    apply alive_modResource
    rfl
  | blockMutex =>
    rw [World.arm_resources, boost_resources]
    exact alive_enqueue ..
  | blockSem =>
    rw [World.arm_resources]
    exact alive_enqueue ..
  | unlock =>
    rw [World.advance_resources, alive_handOver]
    rfl
  | grant | condSignal => exact alive_waiterRemove ..
  | condWait =>
    rw [alive_enqueue, released]
    apply alive_modResource
    rfl
  | condBroadcast => exact alive_wakeAll ..
  | mail _ hf =>
    rw [World.advance_resources]
    exact alive_modResource hf.alive s
  | mailBlock => exact alive_enqueue ..
  | mailWake _ _ hf =>
    rw [World.advance_resources, World.modThread_resources, alive_waiterRemove]
    exact alive_modResource hf.alive s

/-- The ids in the resources of the scenario are ids of its threads. -/
structure Crew (sc : Scenario) (w : World) : Prop where
  waiter : ∀ r, sc.IsResource r → ∀ u ∈ (w.resources r).waiters.toList, sc.IsThread u
  owner : ∀ r, sc.IsResource r → 0 ≤ (w.resources r).owner → sc.IsThread (w.resources r).owner

theorem Act.crew {tid : Int} {a : Action} {w w' : World} (h : Act sc tid a w w')
    (htid : sc.IsThread tid) (hw : Crew sc w) : Crew sc w' := by
  refine ⟨fun r hr u hu => ?_, fun r hr h0 => ?_⟩
  · rcases h.queue_mem hu with hold | ⟨rfl, _⟩
    · exact hw.waiter r hr u hold
    · exact htid
  · rcases h.owner r with hold | ⟨_, hnone | hself | ⟨hwaiter, _⟩⟩
    · rw [hold] at h0 ⊢
      exact hw.owner r hr h0
    · omega
    · rw [hself]
      exact htid
    · exact hw.waiter r hr _ hwaiter

theorem Crew.tick {w : World} (h : Crew sc w) : Crew sc (w.tick sc).1 := by
  have hresources : (w.tick sc).1.resources = w.resources := tick_resources w
  refine ⟨fun r hr => ?_, fun r hr => ?_⟩
  · rw [hresources]
    exact h.waiter r hr
  · rw [hresources]
    exact h.owner r hr

/-- **Owners and waiters are threads** in every reached state, whatever the actions name. -/
theorem crew_reach {w : World} (h : (callSystem sc).Reach w) : Crew sc w := by
  induction h with
  | init hi =>
    obtain ⟨before, rfl⟩ := hi
    refine ⟨fun r hr u hu => ?_, fun r hr h0 => ?_⟩
    · simp only [World.reset, if_pos hr] at hu
      exact absurd hu (by simp [Resource.reset])
    · simp only [World.reset, if_pos hr] at h0
      exact absurd h0 (by simp [Resource.reset])
  | @step w _ tid _ hst ih =>
    obtain ⟨htid, hok, rfl⟩ := hst
    have htick := ih.tick
    have hmove := executeStep_move hok
    generalize (w.executeStep sc tid).world = w' at hmove ⊢
    cases hmove with
    | idle => exact htick
    | finish => exact ⟨htick.waiter, htick.owner⟩
    | act _ _ _ hact => exact hact.crew htid htick

end Smash
