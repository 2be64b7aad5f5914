import Smash.Proof.Step

/-!
# The moves of the live state

`Act sc tid a w w'` says once, for every action type, what the action `a` of thread `tid` can turn `w`
into when it does not fail, guards included; `executeStep_move` is the inversion. The invariants are
proved by cases on it and never unfold the `switch`.

Actions with the same effect share a constructor: the timed and the untimed lock, the bookkeeping
actions that only touch fields of the scheduled thread which no other thread reads, the three mailbox
operations that block.
-/

set_option autoImplicit false

namespace Smash

variable {sc : Scenario}

/-! ## Threads that stay where they are -/

/-- The fields that say where a thread stands: what it waits for and until when, what it owns. -/
structure Thread.SameStand (t t' : Thread) : Prop where
  basePriority : t'.basePriority = t.basePriority
  state : t'.state = t.state
  blockedOn : t'.blockedOn = t.blockedOn
  timeoutTicks : t'.timeoutTicks = t.timeoutTicks
  ownedMutexStack : t'.ownedMutexStack = t.ownedMutexStack

theorem Thread.SameStand.refl (t : Thread) : t.SameStand t := ⟨rfl, rfl, rfl, rfl, rfl⟩

theorem Thread.SameStand.trans {t t' t'' : Thread} (h : t.SameStand t') (h' : t'.SameStand t'') :
    t.SameStand t'' :=
  ⟨h'.1.trans h.1, h'.2.trans h.2, h'.3.trans h.3, h'.4.trans h.4, h'.5.trans h.5⟩

theorem Thread.SameStand.blocked {t t' : Thread} (h : t.SameStand t') : t'.blocked = t.blocked := by
  simp [Thread.blocked, h.state]

/-! ## Kinds of actions -/

/-- `ACT_MUTEX_LOCK` and `ACT_MUTEX_TIMED_LOCK`. -/
def ActionType.locks (a : ActionType) : Bool := a = .mutexLock || a = .mutexTimedLock

/-- `ACT_SEM_WAIT` and `ACT_SEM_TIMED_WAIT`. -/
def ActionType.waits (a : ActionType) : Bool := a = .semWait || a = .semTimedWait

/-- The actions that can only change bookkeeping fields of the scheduled thread. -/
def ActionType.bookkeeping : ActionType → Bool
  | .nop | .yield | .sysLock | .sysUnlock | .isrEnter | .isrExit | .call | .ret | .condWaitTimeout
  | .mbPostTimeout | .mbFetchTimeout => true
  | _ => false

/-- The mailbox operations that are modelled. -/
def ActionType.mails (a : ActionType) : Bool := a = .mbPost || a = .mbPostFront || a = .mbFetch

/-- The countdown a blocking action starts; `none` for one without. -/
def Action.countdown (a : Action) : Option Int :=
  if a.type = .mutexTimedLock ∨ a.type = .semTimedWait then some (argOr a.arg 10) else none

/-- `t->timeout_ticks = ticks` when there are any. -/
def World.arm (w : World) (tid : Int) : Option Int → World
  | none => w
  | some ticks => w.modThread tid fun t => { t with timeoutTicks := ticks }

/-- The live state inside `smash_mutex_unlock` once the mutex is popped and the priority lowered. -/
def lowered (sc : Scenario) (w : World) (tid resId : Int) : World :=
  (w.modThread tid (·.ownedPop)).modThread tid fun t =>
    { t with priority := recalcPriority sc (w.modThread tid (·.ownedPop)) tid resId }

/-- The live state inside `smash_cond_wait` once the mutex is let go. -/
def released (w : World) (tid mutexId : Int) : World :=
  (w.modThread tid (·.ownedPop)).modResource mutexId fun m => { m with owner := -1 }

/-- What `smash_mb_post`, `smash_mb_post_front` and `smash_mb_fetch` may change of a mailbox. -/
structure Resource.SameButMail (r r' : Resource) : Prop where
  type : r'.type = r.type
  owner : r'.owner = r.owner
  count : r'.count = r.count
  associatedMutex : r'.associatedMutex = r.associatedMutex
  waiters : r'.waiters = r.waiters
  alive : r'.alive = r.alive

/-- What `smash_mb_post` makes of a mailbox with room. -/
def Resource.post (msg : Int) (m : Resource) : Resource :=
  { m with
    mbMessages := Function.update m.mbMessages m.mbTail msg
    mbTail := (m.mbTail + 1).tmod m.mbCapacity
    mbCount := m.mbCount + 1 }

/-- What `smash_mb_post_front` makes of it. -/
def Resource.postFront (msg : Int) (m : Resource) : Resource :=
  let head := frontSlot m
  { m with
    mbHead := head
    mbMessages := Function.update m.mbMessages head msg
    mbCount := m.mbCount + 1 }

/-- What `smash_mb_fetch` makes of a mailbox with a message. -/
def Resource.fetch (m : Resource) : Resource :=
  { m with mbHead := (m.mbHead + 1).tmod m.mbCapacity, mbCount := m.mbCount - 1 }

theorem Resource.sameButMail_post (m : Resource) (msg : Int) : m.SameButMail (m.post msg) :=
  ⟨rfl, rfl, rfl, rfl, rfl, rfl⟩

theorem Resource.sameButMail_postFront (m : Resource) (msg : Int) :
    m.SameButMail (m.postFront msg) := ⟨rfl, rfl, rfl, rfl, rfl, rfl⟩

theorem Resource.sameButMail_fetch (m : Resource) : m.SameButMail m.fetch :=
  ⟨rfl, rfl, rfl, rfl, rfl, rfl⟩

/-! ## The inversion -/

/-- What the action `a` of the READY thread `tid` makes of `w` when it does not fail. -/
inductive Act (sc : Scenario) (tid : Int) (a : Action) (w : World) : World → Prop
  | bookkeep {f : Thread → Thread} : a.type.bookkeeping = true →
      (w.threads tid).SameStand (f (w.threads tid)) →
      (f (w.threads tid)).priority = (w.threads tid).priority → Act sc tid a w (w.modThread tid f)
  | exit : a.type = .done → (w.threads tid).ownedMutexStack.count = 0 →
      Act sc tid a w (w.modThread tid fun t => { t with state := .done })
  | lifecycle (alive : Bool) : a.type = .objectInit ∨ a.type = .objectDestroy →
      Act sc tid a w ((w.modResource a.resourceId fun r => { r with alive := alive }).advance tid)
  | acquire : a.type.locks = true → (w.resources a.resourceId).owner = -1 →
      Act sc tid a w (((w.modResource a.resourceId fun m => { m with owner := tid }).modThread tid
        (·.ownedPush a.resourceId)).advance tid)
  | blockMutex : a.type.locks = true → (w.resources a.resourceId).owner ≠ -1 →
      (w.resources a.resourceId).owner ≠ tid →
      (w.resources a.resourceId).waiters.count < smashMaxWaiters →
      (w.threads tid).execCtx = .thread → (w.resources a.resourceId).alive = true →
      Act sc tid a w ((boost sc (w.threads tid).priority sc.threadCount.toNat
        (w.resources a.resourceId).owner (w.enqueue tid a.resourceId .blockedMutex)).arm tid a.countdown)
  | unlock : a.type = .mutexUnlock → (w.resources a.resourceId).owner = tid →
      (w.threads tid).ownedTopIs a.resourceId = true →
      Act sc tid a w ((handOver (lowered sc w tid a.resourceId) a.resourceId).1.advance tid)
  | take : a.type.waits = true → 0 < (w.resources a.resourceId).count →
      Act sc tid a w ((w.modResource a.resourceId fun s => { s with count := s.count - 1 }).advance tid)
  | blockSem : a.type.waits = true → (w.resources a.resourceId).count ≤ 0 →
      (w.resources a.resourceId).waiters.count < smashMaxWaiters →
      (w.threads tid).execCtx = .thread → (w.resources a.resourceId).alive = true →
      Act sc tid a w ((w.enqueue tid a.resourceId .blockedSem).arm tid a.countdown)
  | grant : a.type = .semSignal → 0 < (w.resources a.resourceId).waiters.count →
      Act sc tid a w ((w.grantSem a.resourceId).advance tid)
  | signal : a.type = .semSignal → (w.resources a.resourceId).waiters.count = 0 →
      Act sc tid a w ((w.modResource a.resourceId fun s => { s with count := s.count + 1 }).advance tid)
  | condWait (m : Int) : a.type = .condWait → (w.resources a.resourceId).type = .condvar →
      m = (w.resources a.resourceId).associatedMutex → sc.IsResource m →
      (w.resources m).owner = tid → (w.threads tid).ownedTopIs m = true →
      (w.resources a.resourceId).waiters.count < smashMaxWaiters →
      Act sc tid a w ((released w tid m).enqueue tid a.resourceId .blockedMutex)
  | condSignal : a.type = .condSignal → 0 < (w.resources a.resourceId).waiters.count →
      Act sc tid a w (((w.waiterRemove a.resourceId (w.bestWaiter a.resourceId)).modThread
        ((w.resources a.resourceId).waiters.cell (w.bestWaiter a.resourceId)) (·.resume)).advance tid)
  | condLost : a.type = .condSignal → (w.resources a.resourceId).waiters.count = 0 →
      Act sc tid a w (w.advance tid)
  | condBroadcast : a.type = .condBroadcast →
      Act sc tid a w ((wakeAll a.resourceId (w.resources a.resourceId).waiters.count w).1.advance tid)
  | mail {f : Resource → Resource} : a.type.mails = true →
      (w.resources a.resourceId).SameButMail (f (w.resources a.resourceId)) →
      Act sc tid a w ((w.modResource a.resourceId f).advance tid)
  | mailBlock : a.type.mails = true → (w.resources a.resourceId).waiters.count < smashMaxWaiters →
      Act sc tid a w (w.enqueue tid a.resourceId .blockedSem)
  | mailWake {f : Resource → Resource} : a.type = .mbFetch →
      0 < (w.resources a.resourceId).waiters.count →
      (w.resources a.resourceId).SameButMail (f (w.resources a.resourceId)) →
      Act sc tid a w (((((w.modResource a.resourceId f).waiterRemove a.resourceId 0).modThread
        ((w.resources a.resourceId).waiters.cell 0) (·.resume))).advance tid)

/-- What a call of `smash_execute_step` for `tid` makes of the ticked state when it does not fail. -/
inductive Move (sc : Scenario) (tid : Int) (w : World) : World → Prop
  | idle : (w.threads tid).state ≠ .ready → Move sc tid w w
  | finish : (w.threads tid).state = .ready → sc.actionAt tid (w.threads tid).pc = none →
      Move sc tid w (w.modThread tid fun t => { t with state := .done })
  | act {a : Action} {w' : World} : (w.threads tid).state = .ready →
      sc.actionAt tid (w.threads tid).pc = some a →
      a.resourceId = -1 ∨ sc.IsResource a.resourceId → Act sc tid a w w' → Move sc tid w w'

/-! ### Composing writes -/

theorem World.modThread_modThread (w : World) (t : Int) (f g : Thread → Thread) :
    (w.modThread t f).modThread t g = w.modThread t fun x => g (f x) := by
  simp [World.modThread]

theorem World.modThread_id (w : World) (t : Int) : (w.modThread t fun x => x) = w := by
  simp [World.modThread]

/-- `boost` writes priorities and nothing else, … -/
theorem boost_threads (p : Int) (fuel : Nat) (cur : Int) (w : World) (u : Int) :
    ∃ q, (boost sc p fuel cur w).threads u = { w.threads u with priority := q } := by
  induction fuel generalizing cur w with
  | zero => exact ⟨_, rfl⟩
  | succ fuel ih =>
    have hraised : ∃ q, (w.modThread cur fun t => { t with priority := p }).threads u
        = { w.threads u with priority := q } := by
      rw [World.modThread_threads]
      split
      · subst u; exact ⟨p, rfl⟩
      · exact ⟨_, rfl⟩
    rw [boost]
    split
    · exact ⟨_, rfl⟩
    · split
      · exact ⟨_, rfl⟩
      · dsimp only
        split
        · exact hraised
        · split
          · exact hraised
          · obtain ⟨q, hq⟩ := hraised
            obtain ⟨q', hq'⟩ := ih (w.resources (w.threads cur).blockedOn).owner
              (w.modThread cur fun t => { t with priority := p })
            exact ⟨q', by rw [hq', hq]⟩

/-- … so any part of a thread that does not depend on its priority is as before, … -/
theorem boost_field {α : Type} (g : Thread → α) (hg : ∀ t q, g { t with priority := q } = g t)
    {p : Int} {fuel : Nat} {cur : Int} {w : World} {u : Int} :
    g ((boost sc p fuel cur w).threads u) = g (w.threads u) := by
  have ⟨q, hq⟩ : ∃ q, (boost sc p fuel cur w).threads u = { w.threads u with priority := q } :=
    boost_threads p fuel cur w u
  rw [hq, hg]

/-- … and no resource is written. -/
@[simp] theorem boost_resources (p : Int) (fuel : Nat) (cur : Int) (w : World) :
    (boost sc p fuel cur w).resources = w.resources := by
  induction fuel generalizing cur w with
  | zero => rfl
  | succ fuel ih =>
    rw [boost]
    split
    · rfl
    · split
      · rfl
      · dsimp only
        split
        · rfl
        · split
          · rfl
          · rw [ih, World.modThread_resources]

/-! ### The primitives -/

/-- A lock that does not fail takes a free mutex or queues up at one that is taken. -/
theorem mutexLock_cases {w : World} {tid r : Int} (h : (mutexLock sc w tid r).fault = none) :
    ((mutexLock sc w tid r).ret = true ∧ (w.resources r).owner = -1 ∧
      (mutexLock sc w tid r).world =
        (w.modResource r fun m => { m with owner := tid }).modThread tid (·.ownedPush r)) ∨
    ((mutexLock sc w tid r).ret = false ∧ (w.resources r).owner ≠ -1 ∧
      (w.resources r).owner ≠ tid ∧ (w.resources r).waiters.count < smashMaxWaiters ∧
      (w.threads tid).execCtx = .thread ∧ (w.resources r).alive = true ∧
      (mutexLock sc w tid r).world = boost sc (w.threads tid).priority sc.threadCount.toNat
        (w.resources r).owner (w.enqueue tid r .blockedMutex)) := by
  unfold mutexLock at h ⊢
  dsimp only at h ⊢
  by_cases halive : (w.resources r).alive = false
  · rw [if_pos halive] at h; exact absurd h (by simp)
  rw [if_neg halive] at h ⊢
  by_cases hctx : (w.threads tid).execCtx ≠ .thread
  · rw [if_pos hctx] at h; exact absurd h (by simp)
  rw [if_neg hctx] at h ⊢
  by_cases hfree : (w.resources r).owner = -1
  · rw [if_pos hfree]
    exact .inl ⟨rfl, hfree, rfl⟩
  rw [if_neg hfree] at h ⊢
  by_cases hself : (w.resources r).owner = tid
  · rw [if_pos hself] at h; exact absurd h (by simp)
  rw [if_neg hself] at h ⊢
  by_cases hfull : smashMaxWaiters ≤ (w.resources r).waiters.count
  · rw [if_pos hfull] at h; exact absurd h (by simp)
  rw [if_neg hfull]
  exact .inr ⟨rfl, hfree, hself, by omega, by simpa using hctx, by simpa using halive, rfl⟩

theorem mutexUnlock_cases {w : World} {tid r : Int} (h : (mutexUnlock sc w tid r).fault = none) :
    (w.resources r).owner = tid ∧ (w.threads tid).ownedTopIs r = true ∧
      (mutexUnlock sc w tid r).world = (handOver (lowered sc w tid r) r).1 := by
  unfold mutexUnlock at h ⊢
  dsimp only at h ⊢
  by_cases halive : (w.resources r).alive = false
  · rw [if_pos halive] at h; exact absurd h (by simp)
  rw [if_neg halive] at h ⊢
  by_cases hown : (w.resources r).owner ≠ tid
  · rw [if_pos hown] at h; exact absurd h (by simp)
  rw [if_neg hown] at h ⊢
  by_cases htop : (w.threads tid).ownedTopIs r = false
  · rw [if_pos htop] at h; exact absurd h (by simp)
  rw [if_neg htop]
  exact ⟨by simpa using hown, by simpa using htop, rfl⟩

/-- A wait that does not fail takes a unit or queues up. -/
theorem semWait_cases {w : World} {tid r : Int} (h : (semWait w tid r).fault = none) :
    ((semWait w tid r).ret = true ∧ 0 < (w.resources r).count ∧
      (semWait w tid r).world = w.modResource r fun s => { s with count := s.count - 1 }) ∨
    ((semWait w tid r).ret = false ∧ (w.resources r).count ≤ 0 ∧
      (w.resources r).waiters.count < smashMaxWaiters ∧
      (w.threads tid).execCtx = .thread ∧ (w.resources r).alive = true ∧
      (semWait w tid r).world = w.enqueue tid r .blockedSem) := by
  unfold semWait at h ⊢
  dsimp only at h ⊢
  by_cases halive : (w.resources r).alive = false
  · rw [if_pos halive] at h; exact absurd h (by simp)
  rw [if_neg halive] at h ⊢
  by_cases hctx : (w.threads tid).execCtx ≠ .thread
  · rw [if_pos hctx] at h; exact absurd h (by simp)
  rw [if_neg hctx] at h ⊢
  by_cases hunit : 0 < (w.resources r).count
  · rw [if_pos hunit]
    exact .inl ⟨rfl, hunit, rfl⟩
  rw [if_neg hunit] at h ⊢
  by_cases hfull : smashMaxWaiters ≤ (w.resources r).waiters.count
  · rw [if_pos hfull] at h; exact absurd h (by simp)
  rw [if_neg hfull]
  exact .inr ⟨rfl, by omega, by omega, by simpa using hctx, by simpa using halive, rfl⟩

theorem semSignal_cases {w : World} {tid r : Int} (h : (semSignal w tid r).fault = none) :
    (0 < (w.resources r).waiters.count ∧ (semSignal w tid r).world = w.grantSem r) ∨
    ((w.resources r).waiters.count = 0 ∧
      (semSignal w tid r).world = w.modResource r fun s => { s with count := s.count + 1 }) := by
  unfold semSignal at h ⊢
  dsimp only at h ⊢
  by_cases halive : (w.resources r).alive = false
  · rw [if_pos halive] at h; exact absurd h (by simp)
  rw [if_neg halive]
  by_cases hwait : 0 < (w.resources r).waiters.count
  · rw [if_pos hwait]
    exact .inl ⟨hwait, rfl⟩
  · rw [if_neg hwait, if_neg hwait]
    exact .inr ⟨by omega, rfl⟩

theorem condWait_cases {w : World} {tid r : Int} (h : (condWait sc w tid r).fault = none) :
    (condWait sc w tid r).ret = false ∧ (w.resources r).type = .condvar ∧
      sc.IsResource (w.resources r).associatedMutex ∧
      (w.resources (w.resources r).associatedMutex).owner = tid ∧
      (w.threads tid).ownedTopIs (w.resources r).associatedMutex = true ∧
      (w.resources r).waiters.count < smashMaxWaiters ∧
      (condWait sc w tid r).world =
        (released w tid (w.resources r).associatedMutex).enqueue tid r .blockedMutex := by
  unfold condWait at h ⊢
  dsimp only at h ⊢
  by_cases htype : (w.resources r).type ≠ .condvar
  · rw [if_pos htype] at h; exact absurd h (by simp)
  rw [if_neg htype] at h ⊢
  by_cases hrange : (w.resources r).associatedMutex < 0 ∨
      sc.resourceCount ≤ (w.resources r).associatedMutex
  · rw [if_pos hrange] at h; exact absurd h (by simp)
  rw [if_neg hrange] at h ⊢
  by_cases hown : (w.resources (w.resources r).associatedMutex).owner ≠ tid
  · rw [if_pos hown] at h; exact absurd h (by simp)
  rw [if_neg hown] at h ⊢
  by_cases htop : (w.threads tid).ownedTopIs (w.resources r).associatedMutex = false
  · rw [if_pos htop] at h; exact absurd h (by simp)
  rw [if_neg htop] at h ⊢
  have hsame : (((w.modThread tid (·.ownedPop)).modResource (w.resources r).associatedMutex
      fun m => { m with owner := -1 }).resources r).waiters = (w.resources r).waiters :=
    World.modResource_field (f := fun m => { m with owner := -1 }) Resource.waiters rfl r
  rw [hsame] at h ⊢
  by_cases hfull : smashMaxWaiters ≤ (w.resources r).waiters.count
  · rw [if_pos hfull] at h; exact absurd h (by simp)
  rw [if_neg hfull]
  exact ⟨rfl, by simpa using htype, ⟨by omega, by omega⟩, by simpa using hown, by simpa using htop,
    by omega, rfl⟩

theorem condSignal_cases {w : World} {tid r : Int} (h : (condSignal w tid r).fault = none) :
    (0 < (w.resources r).waiters.count ∧ (condSignal w tid r).world =
      (w.waiterRemove r (w.bestWaiter r)).modThread
        ((w.resources r).waiters.cell (w.bestWaiter r)) (·.resume)) ∨
    ((w.resources r).waiters.count = 0 ∧ (condSignal w tid r).world = w) := by
  unfold condSignal at h ⊢
  dsimp only at h ⊢
  by_cases htype : (w.resources r).type ≠ .condvar
  · rw [if_pos htype] at h; exact absurd h (by simp)
  rw [if_neg htype]
  by_cases hwait : 0 < (w.resources r).waiters.count
  · rw [if_pos hwait]
    exact .inl ⟨hwait, rfl⟩
  · rw [if_neg hwait]
    exact .inr ⟨by omega, rfl⟩

theorem condBroadcast_world {w : World} {tid r : Int} (h : (condBroadcast w tid r).fault = none) :
    (condBroadcast w tid r).world = (wakeAll r (w.resources r).waiters.count w).1 := by
  unfold condBroadcast at h ⊢
  dsimp only at h ⊢
  split at h
  · exact absurd h (by simp)
  · rw [if_neg ‹_›]; rfl

theorem mbBlock_cases {w : World} {tid r msg : Int} (h : (mbBlock w tid r msg).fault = none) :
    (mbBlock w tid r msg).ret = false ∧ (w.resources r).waiters.count < smashMaxWaiters ∧
      (mbBlock w tid r msg).world = w.enqueue tid r .blockedSem := by
  unfold mbBlock at h ⊢
  split at h
  · exact absurd h (by simp)
  · rw [if_neg ‹_›]
    exact ⟨rfl, by omega, rfl⟩

/-- A post that does not fail finds room, and `f` is what it makes of the mailbox, or it queues up. -/
inductive Posted (w : World) (tid m : Int) (f : Resource → Resource) (o : Outcome) : Prop
  | sent : o.ret = true → (w.resources m).mbCount < (w.resources m).mbCapacity →
      o.world = w.modResource m f → Posted w tid m f o
  | waits : (w.resources m).mbCapacity ≤ (w.resources m).mbCount → o.ret = false →
      (w.resources m).waiters.count < smashMaxWaiters → o.world = w.enqueue tid m .blockedSem →
      Posted w tid m f o

theorem mbPost_cases {w : World} {tid m msg : Int} (h : (mbPost w tid m msg).fault = none) :
    Posted w tid m (·.post msg) (mbPost w tid m msg) := by
  unfold mbPost at h ⊢
  dsimp only at h ⊢
  by_cases htype : (w.resources m).type ≠ .mailbox
  · rw [if_pos htype] at h; exact absurd h (by simp)
  rw [if_neg htype] at h ⊢
  by_cases hfull : (w.resources m).mbCapacity ≤ (w.resources m).mbCount
  · rw [if_pos hfull] at h ⊢
    obtain ⟨hret, hroom, hw⟩ := mbBlock_cases h
    exact .waits hfull hret hroom hw
  · rw [if_neg hfull]
    exact .sent rfl (by omega) rfl

theorem mbPostFront_cases {w : World} {tid m msg : Int}
    (h : (mbPostFront w tid m msg).fault = none) :
    Posted w tid m (·.postFront msg) (mbPostFront w tid m msg) := by
  unfold mbPostFront at h ⊢
  dsimp only at h ⊢
  by_cases htype : (w.resources m).type ≠ .mailbox
  · rw [if_pos htype] at h; exact absurd h (by simp)
  rw [if_neg htype] at h ⊢
  by_cases hfull : (w.resources m).mbCapacity ≤ (w.resources m).mbCount
  · rw [if_pos hfull] at h ⊢
    obtain ⟨hret, hroom, hw⟩ := mbBlock_cases h
    exact .waits hfull hret hroom hw
  · rw [if_neg hfull]
    exact .sent rfl (by omega) rfl

/-- A fetch writes out a message and wakes the first waiter when there is one, or queues up. -/
theorem mbFetch_cases {w : World} {tid m : Int} (h : (mbFetch w tid m).1.fault = none) :
    ((mbFetch w tid m).1.ret = true ∧ (w.resources m).mbCount ≠ 0 ∧
      (mbFetch w tid m).2 = some ((w.resources m).mbMessages (w.resources m).mbHead) ∧
      ((0 < (w.resources m).waiters.count ∧ (mbFetch w tid m).1.world =
          ((w.modResource m (·.fetch)).waiterRemove m 0).modThread ((w.resources m).waiters.cell 0)
            (·.resume)) ∨
        ((w.resources m).waiters.count = 0 ∧
          (mbFetch w tid m).1.world = w.modResource m (·.fetch)))) ∨
    ((w.resources m).mbCount = 0 ∧ (mbFetch w tid m).2 = none ∧ (mbFetch w tid m).1.ret = false ∧
      (w.resources m).waiters.count < smashMaxWaiters ∧
      (mbFetch w tid m).1.world = w.enqueue tid m .blockedSem) := by
  unfold mbFetch at h ⊢
  dsimp only at h ⊢
  by_cases htype : (w.resources m).type ≠ .mailbox
  · rw [if_pos htype] at h; exact absurd h (by simp)
  rw [if_neg htype] at h ⊢
  by_cases hempty : (w.resources m).mbCount = 0
  · rw [if_pos hempty] at h ⊢
    exact .inr ⟨hempty, rfl, mbBlock_cases h⟩
  rw [if_neg hempty]
  by_cases hwait : 0 < (w.resources m).waiters.count
  · rw [if_pos hwait]
    exact .inl ⟨rfl, hempty, rfl, .inl ⟨hwait, rfl⟩⟩
  · rw [if_neg hwait]
    exact .inl ⟨rfl, hempty, rfl, .inr ⟨by omega, rfl⟩⟩

/-! ### The switch -/

/-- The tail of the two timed waits changes nothing when the wait went through, … -/
theorem Outcome.armTimeout_of_ret {o : Outcome} {tid : Int} {state : ThreadState} {ticks : Int}
    (h : o.ret = true) : o.armTimeout tid state ticks = o := by
  simp [Outcome.armTimeout, h]

/-- … and starts the countdown when it did not. -/
theorem Outcome.armTimeout_world {o : Outcome} {tid : Int} {state : ThreadState} {ticks : Int}
    (h : o.ret = false) (hstate : (o.world.threads tid).state = state) :
    (o.armTimeout tid state ticks).world = o.world.arm tid (some ticks) := by
  unfold Outcome.armTimeout
  rw [if_pos ⟨h, hstate⟩]
  rfl

@[simp] theorem Outcome.advanceIfTrue_fault (o : Outcome) (tid : Int) :
    (o.advanceIfTrue tid).fault = o.fault := by
  unfold Outcome.advanceIfTrue
  split <;> rfl

@[simp] theorem Outcome.armTimeout_fault (o : Outcome) (tid : Int) (state : ThreadState)
    (ticks : Int) : (o.armTimeout tid state ticks).fault = o.fault := by
  unfold Outcome.armTimeout
  split <;> rfl

theorem Outcome.advanceIfTrue_of_ret {o : Outcome} {tid : Int} (h : o.ret = true) :
    o.advanceIfTrue tid = o.mapWorld (·.advance tid) := by
  simp [Outcome.advanceIfTrue, h]

theorem Outcome.advanceIfTrue_of_not_ret {o : Outcome} {tid : Int} (h : o.ret = false) :
    o.advanceIfTrue tid = o := by
  simp [Outcome.advanceIfTrue, h]

theorem Outcome.advance_world_of_ret {o : Outcome} {tid : Int} (h : o.ret = true) :
    (o.advanceIfTrue tid).world = o.world.advance tid := by
  rw [Outcome.advanceIfTrue_of_ret h, Outcome.mapWorld_world]

theorem Outcome.advance_world_of_not_ret {o : Outcome} {tid : Int} (h : o.ret = false) :
    (o.advanceIfTrue tid).world = o.world := by
  rw [Outcome.advanceIfTrue_of_not_ret h]

theorem World.enqueue_threads (w : World) (tid r : Int) (state : ThreadState) (u : Int) :
    (w.enqueue tid r state).threads u
      = if u = tid then (w.threads tid).block state r else w.threads u := by
  simp [World.enqueue, World.modThread_threads]

/-- The scheduled thread's fields of the bookkeeping actions. -/
theorem Act.bookkeep_advance {w : World} {tid : Int} {a : Action} (h : a.type.bookkeeping = true)
    {f : Thread → Thread} (hf : (w.threads tid).SameStand (f (w.threads tid)))
    (hp : (f (w.threads tid)).priority = (w.threads tid).priority) :
    Act sc tid a w ((w.modThread tid f).advance tid) := by
  rw [World.advance, World.modThread_modThread]
  exact .bookkeep h ⟨hf.1, hf.2, hf.3, hf.4, hf.5⟩ hp

/-- An action that the `switch` has no case for. -/
theorem Act.bookkeep_same {w : World} {tid : Int} {a : Action} (h : a.type.bookkeeping = true) :
    Act sc tid a w w := by
  have hact : Act sc tid a w (w.modThread tid fun x => x) := .bookkeep h (.refl _) rfl
  rwa [World.modThread_id] at hact

/-- The bookkeeping of the `switch` around a lock or a wait: the thread moves on when the primitive returns
`true`, and is armed when it does not and the action is a timed one. -/
theorem act_armed {w : World} {tid : Int} {a : Action} {o : Outcome} {state : ThreadState}
    (hgo : o.ret = true → Act sc tid a w (o.world.advance tid))
    (hstay : o.ret = false → (o.world.threads tid).state = state ∧
      Act sc tid a w (o.world.arm tid a.countdown)) :
    Act sc tid a w (match a.countdown with
      | none => o.advanceIfTrue tid
      | some ticks => (o.advanceIfTrue tid).armTimeout tid state ticks).world := by
  cases hret : o.ret with
  | true =>
    cases a.countdown with
    | none =>
      show Act sc tid a w (o.advanceIfTrue tid).world
      rw [Outcome.advanceIfTrue_of_ret hret]
      exact hgo hret
    | some ticks =>
      show Act sc tid a w ((o.advanceIfTrue tid).armTimeout tid state ticks).world
      rw [Outcome.advanceIfTrue_of_ret hret, Outcome.armTimeout_of_ret (by exact hret)]
      exact hgo hret
  | false =>
    obtain ⟨hstate, hact⟩ := hstay hret
    cases hcd : a.countdown with
    | none =>
      show Act sc tid a w (o.advanceIfTrue tid).world
      rw [Outcome.advanceIfTrue_of_not_ret hret]
      rw [hcd] at hact
      exact hact
    | some ticks =>
      show Act sc tid a w ((o.advanceIfTrue tid).armTimeout tid state ticks).world
      rw [Outcome.advanceIfTrue_of_not_ret hret, Outcome.armTimeout_world hret hstate]
      rw [hcd] at hact
      exact hact

/-- A lock, timed or not. -/
theorem act_lock {w : World} {tid : Int} {a : Action} (hk : a.type.locks = true)
    (h : (mutexLock sc w tid a.resourceId).fault = none) :
    Act sc tid a w (match a.countdown with
      | none => (mutexLock sc w tid a.resourceId).advanceIfTrue tid
      | some ticks => ((mutexLock sc w tid a.resourceId).advanceIfTrue tid).armTimeout tid
          .blockedMutex ticks).world := by
  rcases mutexLock_cases h with ⟨hret, hfree, hw⟩ | ⟨hret, hfree, hself, hroom, hctx, halive, hw⟩
  · refine act_armed (fun _ => ?_) fun hno => absurd (hret.symm.trans hno) (by decide)
    rw [hw]
    exact .acquire hk hfree
  · refine act_armed (fun hgo => absurd (hret.symm.trans hgo) (by decide)) fun _ => ?_
    rw [hw]
    refine ⟨?_, .blockMutex hk hfree hself hroom hctx halive⟩
    rw [boost_field (·.state) fun _ _ => rfl, World.enqueue_threads, if_pos rfl]
    rfl

/-- A semaphore wait, timed or not. -/
theorem act_wait {w : World} {tid : Int} {a : Action} (hk : a.type.waits = true)
    (h : (semWait w tid a.resourceId).fault = none) :
    Act sc tid a w (match a.countdown with
      | none => (semWait w tid a.resourceId).advanceIfTrue tid
      | some ticks => ((semWait w tid a.resourceId).advanceIfTrue tid).armTimeout tid
          .blockedSem ticks).world := by
  rcases semWait_cases h with ⟨hret, hunit, hw⟩ | ⟨hret, hunit, hroom, hctx, halive, hw⟩
  · refine act_armed (fun _ => ?_) fun hno => absurd (hret.symm.trans hno) (by decide)
    rw [hw]
    exact .take hk hunit
  · refine act_armed (fun hgo => absurd (hret.symm.trans hgo) (by decide)) fun _ => ?_
    rw [hw]
    refine ⟨?_, .blockSem hk hunit hroom hctx halive⟩
    rw [World.enqueue_threads, if_pos rfl]
    rfl

/-- A post, at either end. -/
theorem act_post {w : World} {tid : Int} {a : Action} {f : Resource → Resource} {o : Outcome}
    (hk : a.type.mails = true)
    (hf : (w.resources a.resourceId).SameButMail (f (w.resources a.resourceId)))
    (h : Posted w tid a.resourceId f o) : Act sc tid a w (o.advanceIfTrue tid).world := by
  cases h with
  | sent hret _ hw =>
    rw [Outcome.advance_world_of_ret hret, hw]
    exact .mail hk hf
  | waits _ hret hroom hw =>
    rw [Outcome.advance_world_of_not_ret hret, hw]
    exact .mailBlock hk hroom

/-- **What the `switch` does**, for an action that does not fail. -/
theorem dispatch_act {w : World} {tid : Int} {a : Action}
    (h : (w.dispatch sc tid a).fault = none) : Act sc tid a w (w.dispatch sc tid a).world := by
  obtain ⟨type, r, arg⟩ := a
  cases type with
  | mutexLock =>
    simp only [World.dispatch, Outcome.finish_fault, Outcome.advanceIfTrue_fault] at h
    exact act_lock (a := ⟨.mutexLock, r, arg⟩) rfl h
  | mutexTimedLock =>
    simp only [World.dispatch, Outcome.finish_fault, Outcome.armTimeout_fault,
      Outcome.advanceIfTrue_fault] at h
    exact act_lock (a := ⟨.mutexTimedLock, r, arg⟩) rfl h
  | semWait =>
    simp only [World.dispatch, Outcome.finish_fault, Outcome.advanceIfTrue_fault] at h
    exact act_wait (a := ⟨.semWait, r, arg⟩) rfl h
  | semTimedWait =>
    simp only [World.dispatch, Outcome.finish_fault, Outcome.armTimeout_fault,
      Outcome.advanceIfTrue_fault] at h
    exact act_wait (a := ⟨.semTimedWait, r, arg⟩) rfl h
  | mutexUnlock =>
    have hok : (mutexUnlock sc w tid r).fault = none := h
    obtain ⟨hown, htop, hw⟩ := mutexUnlock_cases hok
    show Act sc tid _ w ((mutexUnlock sc w tid r).world.advance tid)
    rw [hw]
    exact .unlock rfl hown htop
  | semSignal =>
    show Act sc tid _ w ((semSignal w tid r).world.advance tid)
    have hok : (semSignal w tid r).fault = none := h
    rcases semSignal_cases hok with ⟨hwait, hw⟩ | ⟨hwait, hw⟩
    · rw [hw]; exact .grant rfl hwait
    · rw [hw]; exact .signal rfl hwait
  | condWait =>
    simp only [World.dispatch, Outcome.finish_fault, Outcome.advanceIfTrue_fault] at h
    obtain ⟨hret, htype, hrange, hown, htop, hroom, hw⟩ := condWait_cases h
    show Act sc tid _ w ((condWait sc w tid r).advanceIfTrue tid).world
    rw [Outcome.advanceIfTrue_of_not_ret hret, hw]
    exact .condWait _ rfl htype rfl hrange hown htop hroom
  | condSignal =>
    show Act sc tid _ w ((condSignal w tid r).world.advance tid)
    have hok : (condSignal w tid r).fault = none := h
    rcases condSignal_cases hok with ⟨hwait, hw⟩ | ⟨hwait, hw⟩
    · rw [hw]; exact .condSignal rfl hwait
    · rw [hw]; exact .condLost rfl hwait
  | condBroadcast =>
    show Act sc tid _ w ((condBroadcast w tid r).world.advance tid)
    rw [condBroadcast_world h]
    exact .condBroadcast rfl
  | mbPost =>
    simp only [World.dispatch, Outcome.finish_fault, Outcome.advanceIfTrue_fault] at h
    exact act_post (a := ⟨.mbPost, r, arg⟩) rfl (Resource.sameButMail_post _ _) (mbPost_cases h)
  | mbPostFront =>
    simp only [World.dispatch, Outcome.finish_fault, Outcome.advanceIfTrue_fault] at h
    exact act_post (a := ⟨.mbPostFront, r, arg⟩) rfl (Resource.sameButMail_postFront _ _)
      (mbPostFront_cases h)
  | mbFetch =>
    simp only [World.dispatch, Outcome.finish_fault, Outcome.advanceIfTrue_fault] at h
    show Act sc tid _ w ((mbFetch w tid r).1.advanceIfTrue tid).world
    rcases mbFetch_cases h with ⟨hret, _, _, ⟨hwait, hw⟩ | ⟨_, hw⟩⟩ | ⟨_, _, hret, hroom, hw⟩
    · rw [Outcome.advanceIfTrue_of_ret hret, Outcome.mapWorld_world, hw]
      exact .mailWake rfl hwait (Resource.sameButMail_fetch _)
    · rw [Outcome.advanceIfTrue_of_ret hret, Outcome.mapWorld_world, hw]
      exact .mail rfl (Resource.sameButMail_fetch _)
    · rw [Outcome.advanceIfTrue_of_not_ret hret, hw]
      exact .mailBlock rfl hroom
  | nop => exact .bookkeep rfl ⟨rfl, rfl, rfl, rfl, rfl⟩ rfl
  | yield => exact .bookkeep rfl ⟨rfl, rfl, rfl, rfl, rfl⟩ rfl
  | done =>
    show Act sc tid _ w (actDone w tid).world
    have hdone : (actDone w tid).fault = none := h
    unfold actDone at hdone ⊢
    dsimp only at hdone ⊢
    split at hdone
    · exact absurd hdone (by simp)
    · rw [if_neg ‹_›]
      exact .exit rfl (by omega)
  | sysLock => exact .bookkeep_advance rfl ⟨rfl, rfl, rfl, rfl, rfl⟩ rfl
  | sysUnlock =>
    simp only [World.dispatch, actSysUnlock] at h ⊢
    split
    · rw [if_pos ‹_›] at h; exact absurd h (by simp)
    · exact .bookkeep_advance rfl ⟨rfl, rfl, rfl, rfl, rfl⟩ rfl
  | isrEnter =>
    simp only [World.dispatch, actIsrEnter] at h ⊢
    split
    · rw [if_pos ‹_›] at h; exact absurd h (by simp)
    · exact .bookkeep_advance rfl ⟨rfl, rfl, rfl, rfl, rfl⟩ rfl
  | isrExit =>
    simp only [World.dispatch, actIsrExit] at h ⊢
    split
    · rw [if_pos ‹_›] at h; exact absurd h (by simp)
    · exact .bookkeep_advance rfl ⟨rfl, rfl, rfl, rfl, rfl⟩ rfl
  | objectInit => exact .lifecycle true (.inl rfl)
  | objectDestroy =>
    simp only [World.dispatch, actObjectDestroy] at h ⊢
    split
    · rw [if_pos ‹_›] at h; exact absurd h (by simp)
    · exact .lifecycle false (.inr rfl)
  | call =>
    simp only [World.dispatch, actCall] at h ⊢
    split
    · rw [if_pos ‹_›] at h; exact absurd h (by simp)
    · exact .bookkeep_advance rfl ⟨rfl, rfl, rfl, rfl, rfl⟩ rfl
  | ret => exact .bookkeep_advance rfl ⟨rfl, rfl, rfl, rfl, rfl⟩ rfl
  | condWaitTimeout => exact .bookkeep_same rfl
  | mbPostTimeout => exact .bookkeep_same rfl
  | mbFetchTimeout => exact .bookkeep_same rfl

/-- **What a call can do**: the clock ticks, and then the ticked state makes a move. -/
theorem executeStep_move {w : World} {tid : Int} (h : (w.executeStep sc tid).fault = none) :
    Move sc tid (w.tick sc).1 (w.executeStep sc tid).world := by
  rcases executeStep_cases h with ⟨hidle, hw⟩ | ⟨hready, hat, hw⟩ | ⟨a, hready, hat, hr, hok, hw⟩
  · rw [hw]
    exact .idle hidle
  · rw [hw]
    exact .finish hready hat
  · rw [hw]
    exact .act hready hat hr (dispatch_act hok)

/-! ### The untimed actions on mutexes and semaphores -/

/-- What a lock makes of the state. -/
theorem Act.lock_cases {tid : Int} {a : Action} {w w' : World} (h : Act sc tid a w w')
    (hk : a.type = .mutexLock) :
    ((w.resources a.resourceId).owner = -1 ∧ w' = ((w.modResource a.resourceId fun m =>
        { m with owner := tid }).modThread tid (·.ownedPush a.resourceId)).advance tid) ∨
    ((w.resources a.resourceId).owner ≠ -1 ∧ (w.resources a.resourceId).owner ≠ tid ∧
      w' = boost sc (w.threads tid).priority sc.threadCount.toNat (w.resources a.resourceId).owner
        (w.enqueue tid a.resourceId .blockedMutex)) := by
  cases h with
  | acquire _ hfree => exact .inl ⟨hfree, rfl⟩
  | blockMutex _ hown hne =>
    have hcd : a.countdown = none := by simp [Action.countdown, hk]
    rw [hcd]
    exact .inr ⟨hown, hne, rfl⟩
  | _ => simp_all [ActionType.bookkeeping, ActionType.waits, ActionType.mails]

/-- What an unlock makes of it. -/
theorem Act.unlock_cases {tid : Int} {a : Action} {w w' : World} (h : Act sc tid a w w')
    (hk : a.type = .mutexUnlock) : (w.resources a.resourceId).owner = tid ∧
      (w.threads tid).ownedTopIs a.resourceId = true ∧
      w' = (handOver (lowered sc w tid a.resourceId) a.resourceId).1.advance tid := by
  cases h with
  | unlock _ hown htop => exact ⟨hown, htop, rfl⟩
  | _ => simp_all [ActionType.bookkeeping, ActionType.locks, ActionType.waits, ActionType.mails]

/-- What a semaphore wait makes of it. -/
theorem Act.wait_cases {tid : Int} {a : Action} {w w' : World} (h : Act sc tid a w w')
    (hk : a.type = .semWait) :
    (0 < (w.resources a.resourceId).count ∧
      w' = (w.modResource a.resourceId fun s => { s with count := s.count - 1 }).advance tid) ∨
    (¬ 0 < (w.resources a.resourceId).count ∧ w' = w.enqueue tid a.resourceId .blockedSem) := by
  cases h with
  | take _ hunit => exact .inl ⟨hunit, rfl⟩
  | blockSem _ hunit =>
    have hcd : a.countdown = none := by simp [Action.countdown, hk]
    rw [hcd]
    exact .inr ⟨by omega, rfl⟩
  | _ => simp_all [ActionType.bookkeeping, ActionType.locks, ActionType.mails]

/-- What a signal makes of it. -/
theorem Act.signal_cases {tid : Int} {a : Action} {w w' : World} (h : Act sc tid a w w')
    (hk : a.type = .semSignal) :
    (0 < (w.resources a.resourceId).waiters.count ∧ w' = (w.grantSem a.resourceId).advance tid) ∨
    (¬ 0 < (w.resources a.resourceId).waiters.count ∧
      w' = (w.modResource a.resourceId fun s => { s with count := s.count + 1 }).advance tid) := by
  cases h with
  | grant _ hlive => exact .inl ⟨hlive, rfl⟩
  | signal _ hempty => exact .inr ⟨by omega, rfl⟩
  | _ => simp_all [ActionType.bookkeeping, ActionType.locks, ActionType.waits, ActionType.mails]

/-! ### The actions on condition variables -/

/-- What a wait on a condition variable makes of it: it blocks, and its mutex is free. -/
theorem Act.condWait_cases {tid : Int} {a : Action} {w w' : World} (h : Act sc tid a w w')
    (hk : a.type = .condWait) :
    w' = (released w tid (w.resources a.resourceId).associatedMutex).enqueue tid a.resourceId
      .blockedMutex := by
  cases h with
  | condWait m _ _ hm => rw [hm]
  | _ => simp_all [ActionType.bookkeeping, ActionType.locks, ActionType.waits, ActionType.mails]

/-- What `smash_cond_signal` makes of it. -/
theorem Act.condSignal_cases {tid : Int} {a : Action} {w w' : World} (h : Act sc tid a w w')
    (hk : a.type = .condSignal) :
    (0 < (w.resources a.resourceId).waiters.count ∧
      w' = ((w.waiterRemove a.resourceId (w.bestWaiter a.resourceId)).modThread
        ((w.resources a.resourceId).waiters.cell (w.bestWaiter a.resourceId)) (·.resume)).advance tid) ∨
    ((w.resources a.resourceId).waiters.count = 0 ∧ w' = w.advance tid) := by
  cases h with
  | condSignal _ hlive => exact .inl ⟨hlive, rfl⟩
  | condLost _ hempty => exact .inr ⟨hempty, rfl⟩
  | _ => simp_all [ActionType.bookkeeping, ActionType.locks, ActionType.waits, ActionType.mails]

/-- What `smash_cond_broadcast` makes of it. -/
theorem Act.condBroadcast_cases {tid : Int} {a : Action} {w w' : World} (h : Act sc tid a w w')
    (hk : a.type = .condBroadcast) :
    w' = (wakeAll a.resourceId (w.resources a.resourceId).waiters.count w).1.advance tid := by
  cases h with
  | condBroadcast => rfl
  | _ => simp_all [ActionType.bookkeeping, ActionType.locks, ActionType.waits, ActionType.mails]

/-! ### When they fail -/

theorem mutexLock_fault {w : World} {tid r : Int}
    (hroom : (w.resources r).waiters.count < smashMaxWaiters) :
    (mutexLock sc w tid r).fault = none ↔ (w.resources r).alive = true ∧
      (w.threads tid).execCtx = .thread ∧
      ((w.resources r).owner = -1 ∨ (w.resources r).owner ≠ tid) := by
  have hfull : ¬ smashMaxWaiters ≤ (w.resources r).waiters.count := by omega
  unfold mutexLock
  dsimp only
  by_cases halive : (w.resources r).alive = false
  · rw [if_pos halive]
    simp [halive]
  rw [if_neg halive]
  by_cases hctx : (w.threads tid).execCtx ≠ .thread
  · rw [if_pos hctx]
    simp [hctx]
  rw [if_neg hctx]
  by_cases hfree : (w.resources r).owner = -1
  · rw [if_pos hfree]
    simp_all
  rw [if_neg hfree]
  by_cases hown : (w.resources r).owner = tid
  · rw [if_pos hown]
    simp [hown, hown ▸ hfree]
  · rw [if_neg hown, if_neg hfull]
    simp_all

theorem mutexUnlock_fault {w : World} {tid r : Int} :
    (mutexUnlock sc w tid r).fault = none ↔ (w.resources r).alive = true ∧
      (w.resources r).owner = tid ∧ (w.threads tid).ownedTopIs r = true := by
  unfold mutexUnlock
  dsimp only
  by_cases halive : (w.resources r).alive = false
  · rw [if_pos halive]
    simp [halive]
  rw [if_neg halive]
  by_cases hown : (w.resources r).owner ≠ tid
  · rw [if_pos hown]
    simp [hown]
  rw [if_neg hown]
  by_cases htop : (w.threads tid).ownedTopIs r = false
  · rw [if_pos htop]
    simp [htop]
  · rw [if_neg htop]
    simp_all

theorem semWait_fault {w : World} {tid r : Int}
    (hroom : (w.resources r).waiters.count < smashMaxWaiters) :
    (semWait w tid r).fault = none ↔ (w.resources r).alive = true ∧
      (w.threads tid).execCtx = .thread := by
  have hfull : ¬ smashMaxWaiters ≤ (w.resources r).waiters.count := by omega
  unfold semWait
  dsimp only
  by_cases halive : (w.resources r).alive = false
  · rw [if_pos halive]
    simp [halive]
  rw [if_neg halive]
  by_cases hctx : (w.threads tid).execCtx ≠ .thread
  · rw [if_pos hctx]
    simp [hctx]
  rw [if_neg hctx]
  by_cases hunit : 0 < (w.resources r).count
  · rw [if_pos hunit]
    simp_all
  · rw [if_neg hunit, if_neg hfull]
    simp_all

theorem semSignal_fault {w : World} {tid r : Int} :
    (semSignal w tid r).fault = none ↔ (w.resources r).alive = true := by
  unfold semSignal
  dsimp only
  by_cases halive : (w.resources r).alive = false
  · rw [if_pos halive]
    simp [halive]
  rw [if_neg halive]
  by_cases hlive : 0 < (w.resources r).waiters.count
  · rw [if_pos hlive]
    simp_all
  · rw [if_neg hlive, if_neg hlive]
    simp_all

end Smash
