import Smash.Lib.Holding
import Smash.Proof.Destroyed
import Smash.Proof.Owning
import Smash.Proof.Truthful

/-!
# The lock history of a trace

Three events of a trace say who holds a mutex: `EVT_MUTEX_LOCK_ACQUIRED`, `EVT_MUTEX_UNLOCK`, and the
`EVT_SEM_WAIT_BLOCKED` that `smash_cond_wait` logs on a condition variable, whose mutex is let go. Read as a
history of locks they are never refused: a call that does not fail plays the owners it finds to the owners it
leaves (`dispatch_plays`), and one that fails logs none of the three. So the events of one mutex are whole
sessions, each of one thread, and after them the session of the owner (`mutex_sessions`).
-/

set_option autoImplicit false

namespace Smash

variable {sc : Scenario}

/-! ## The history -/

/-- What an entry says about a mutex. -/
def LogEntry.lockOp (sc : Scenario) (e : LogEntry) : Option (LockOp Int Int) :=
  match e.type with
  | .mutexLockAcquired => some (.acquire e.tid e.resourceId)
  | .mutexUnlock => some (.release e.tid e.resourceId)
  | .semWaitBlocked =>
    if sc.IsResource e.resourceId ∧ sc.resTypes e.resourceId = .condvar then
      some (.release e.tid (sc.associatedMutex e.resourceId))
    else none
  | _ => none

/-- What a list of entries says about the mutexes. -/
def lockOps (sc : Scenario) (es : List LogEntry) : List (LockOp Int Int) := es.filterMap (·.lockOp sc)

/-- The owners, resource by resource. -/
def World.holders (sc : Scenario) (w : World) (r : Int) : Option Int :=
  if sc.IsResource r ∧ (w.resources r).owner ≠ -1 then some (w.resources r).owner else none

@[simp] theorem lockOps_nil : lockOps sc [] = [] := rfl

@[simp] theorem lockOps_append (es es' : List LogEntry) :
    lockOps sc (es ++ es') = lockOps sc es ++ lockOps sc es' := List.filterMap_append

@[simp] theorem lockOps_cons (e : LogEntry) (es : List LogEntry) :
    lockOps sc (e :: es) = (e.lockOp sc).toList ++ lockOps sc es := by
  cases h : e.lockOp sc <;> simp [lockOps, h]

theorem lockOps_eq_nil {es : List LogEntry} (h : ∀ e ∈ es, e.lockOp sc = none) : lockOps sc es = [] :=
  List.filterMap_eq_nil_iff.mpr h

theorem holders_eq_none {w : World} {r : Int} (h : (w.resources r).owner = -1) : w.holders sc r = none := by
  simp [World.holders, h]

theorem holders_eq_some {w : World} {r : Int} (hr : sc.IsResource r) (h : (w.resources r).owner ≠ -1) :
    w.holders sc r = some (w.resources r).owner := if_pos ⟨hr, h⟩

theorem holders_congr {w w' : World} (h : ∀ s, (w'.resources s).owner = (w.resources s).owner) :
    w'.holders sc = w.holders sc := by
  funext s
  simp only [World.holders, h s]

/-- A thread becomes the owner. -/
theorem holders_taken {w w' : World} {t r : Int} (hr : sc.IsResource r) (ht : sc.IsThread t)
    (hself : (w'.resources r).owner = t)
    (helse : ∀ s, s ≠ r → (w'.resources s).owner = (w.resources s).owner) :
    w'.holders sc = Function.update (w.holders sc) r (some t) := by
  funext s
  by_cases hs : s = r
  · subst hs
    have hne : (w'.resources s).owner ≠ -1 := by
      have := ht.1
      omega
    rw [Function.update_self, holders_eq_some hr hne, hself]
  · rw [Function.update_of_ne hs, World.holders, World.holders, helse s hs]

/-- Nobody is the owner any more. -/
theorem holders_freed {w w' : World} {r : Int} (hself : (w'.resources r).owner = -1)
    (helse : ∀ s, s ≠ r → (w'.resources s).owner = (w.resources s).owner) :
    w'.holders sc = Function.update (w.holders sc) r none := by
  funext s
  by_cases hs : s = r
  · subst hs
    rw [Function.update_self, holders_eq_none hself]
  · rw [Function.update_of_ne hs, World.holders, World.holders, helse s hs]

/-! ## What the actions log -/

theorem mutexLock_ops (w : World) (tid r : Int) : lockOps sc (mutexLock sc w tid r).log =
    if (mutexLock sc w tid r).fault = none ∧ (mutexLock sc w tid r).ret = true then [.acquire tid r]
    else [] := by
  unfold mutexLock
  dsimp only
  split_ifs <;> simp_all [Outcome.fail, Outcome.ok, LogEntry.lockOp]

theorem mutexUnlock_ops (w : World) (tid r : Int) : lockOps sc (mutexUnlock sc w tid r).log =
    if (mutexUnlock sc w tid r).fault = none then
      .release tid r :: lockOps sc (handOver (lowered sc w tid r) r).2
    else [] := by
  unfold mutexUnlock
  dsimp only
  split_ifs <;> simp_all [Outcome.fail, Outcome.ok, LogEntry.lockOp, lowered]

theorem condWait_ops {w : World} {tid r : Int} (hr : sc.IsResource r) (hcond : sc.resTypes r = .condvar) :
    lockOps sc (condWait sc w tid r).log =
      if (condWait sc w tid r).fault = none then [.release tid (sc.associatedMutex r)] else [] := by
  unfold condWait
  dsimp only
  split_ifs <;> simp_all [Outcome.fail, Outcome.ok, LogEntry.lockOp]

/-- The actions that write an owner. -/
def ActionType.hands (a : ActionType) : Bool := a.locks || a = .mutexUnlock || a = .condWait

/-- The other actions log nothing about a mutex. -/
theorem dispatch_ops_of_not_hands {w : World} {tid : Int} {a : Action} (hk : a.type.hands = false)
    (hoper : ∀ type, a.type.operand = some type → sc.resTypes a.resourceId = type) :
    lockOps sc (w.dispatch sc tid a).log = [] := by
  refine lockOps_eq_nil fun e he => ?_
  obtain ⟨htype, hres, _⟩ := dispatch_reports w tid a e he
  obtain ⟨etype, etid, er, earg⟩ := e
  obtain ⟨type, r, arg⟩ := a
  have hcond : etype = .semWaitBlocked → sc.IsResource er → sc.resTypes er ≠ .condvar := by
    intro hblocked hr
    subst hblocked
    obtain rfl : er = r := by
      have hsame : er = r ∨ er = -1 := hres
      have := hr.1
      omega
    cases type <;> simp_all [ActionType.reports, ActionType.hands, ActionType.operand]
  cases etype with
  | semWaitBlocked =>
    refine if_neg fun h => hcond rfl h.1 h.2
  | mutexLockAcquired | mutexUnlock =>
    cases type <;> simp_all [ActionType.reports, ActionType.hands, ActionType.locks]
  | _ => rfl

/-- … and write no owner. -/
theorem Act.owner_of_not_hands {tid : Int} {a : Action} {w w' : World} (h : Act sc tid a w w')
    (hk : a.type.hands = false) (s : Int) : (w'.resources s).owner = (w.resources s).owner := by
  cases h with
  | bookkeep | exit | condLost => rfl
  | lifecycle | take | signal =>
    rw [World.advance_resources]
    apply World.modResource_owner
    rfl
  | mail _ hf =>
    rw [World.advance_resources]
    exact World.modResource_owner hf.owner s
  | acquire hlock | blockMutex hlock => simp [ActionType.hands, hlock] at hk
  | unlock htype | condWait _ htype => simp [ActionType.hands, htype] at hk
  | blockSem =>
    rw [World.arm_resources]
    exact World.enqueue_owner ..
  | grant | condSignal => exact World.waiterRemove_owner ..
  | condBroadcast => exact wakeAll_owner ..
  | mailBlock => exact World.enqueue_owner ..
  | mailWake _ _ hf =>
    rw [World.advance_resources, World.modThread_resources, World.waiterRemove_owner]
    exact World.modResource_owner hf.owner s

/-! ## A call plays the owners -/

theorem handOver_plays {v : World} {r : Int} (hv : Crew sc v) (hr : sc.IsResource r) :
    LockOp.play (Function.update (v.holders sc) r none) (lockOps sc (handOver v r).2)
      = some ((handOver v r).1.holders sc) := by
  by_cases hlive : 0 < (v.resources r).waiters.count
  · have hlog : lockOps sc (handOver v r).2
        = [.acquire ((v.resources r).waiters.cell (v.bestWaiter r)) r] := by
      unfold handOver
      rw [if_pos hlive]
      rfl
    have hwoken : sc.IsThread ((v.resources r).waiters.cell (v.bestWaiter r)) :=
      hv.waiter r hr _ (LiveArray.cell_mem (bestWaiter_lt hlive))
    rw [hlog, LockOp.play_cons, LockOp.step, if_pos (Function.update_self ..), Function.update_idem,
      handOver_of_waiters hlive]
    refine congrArg some (holders_taken hr hwoken ?_ fun s hs => ?_).symm
    · rw [World.modThread_resources, World.modResource_self]
    · rw [World.modThread_resources, World.modResource_of_ne _ hs]
      exact World.waiterRemove_owner ..
  · have hlog : lockOps sc (handOver v r).2 = [] := by
      unfold handOver
      rw [if_neg hlive]
      rfl
    rw [hlog, LockOp.play_nil, handOver_of_empty hlive]
    refine congrArg some (holders_freed ?_ fun s hs => ?_).symm
    · rw [World.modResource_self]
    · rw [World.modResource_of_ne _ hs]

theorem holders_of_owner {w : World} {t r : Int} (hr : sc.IsResource r) (ht : sc.IsThread t)
    (h : (w.resources r).owner = t) : w.holders sc r = some t := by
  have hne : (w.resources r).owner ≠ -1 := by
    have := ht.1
    omega
  rw [holders_eq_some hr hne, h]

theorem mutexUnlock_plays {w : World} {tid r : Int} (hw : Crew sc w) (htid : sc.IsThread tid)
    (hr : sc.IsResource r) (hok : (mutexUnlock sc w tid r).fault = none) :
    LockOp.play (w.holders sc) (lockOps sc (mutexUnlock sc w tid r).log)
      = some ((mutexUnlock sc w tid r).world.holders sc) := by
  obtain ⟨hown, _, hworld⟩ := mutexUnlock_cases hok
  rw [mutexUnlock_ops, if_pos hok, LockOp.play_cons, LockOp.step,
    if_pos (holders_of_owner hr htid hown), Option.bind_some, hworld]
  exact @handOver_plays sc (lowered sc w tid r) r ⟨hw.waiter, hw.owner⟩ hr

theorem mutexLock_plays {w : World} {tid r : Int} (htid : sc.IsThread tid) (hr : sc.IsResource r)
    (hok : (mutexLock sc w tid r).fault = none) :
    LockOp.play (w.holders sc) (lockOps sc (mutexLock sc w tid r).log)
      = some ((mutexLock sc w tid r).world.holders sc) := by
  rw [mutexLock_ops]
  rcases mutexLock_cases hok with ⟨hret, hfree, hworld⟩ | ⟨hret, _, _, _, _, _, hworld⟩
  · rw [if_pos ⟨hok, hret⟩, LockOp.play_cons, LockOp.step, if_pos (holders_eq_none hfree), hworld]
    refine congrArg some (holders_taken hr htid ?_ fun s hs => ?_).symm
    · rw [World.modThread_resources, World.modResource_self]
    · rw [World.modThread_resources, World.modResource_of_ne _ hs]
  · rw [if_neg (by simp [hret]), LockOp.play_nil, hworld]
    refine congrArg some (holders_congr fun s => ?_).symm
    rw [boost_resources]
    exact World.enqueue_owner ..

theorem condWait_plays {w : World} {tid r : Int} (htid : sc.IsThread tid) (hr : sc.IsResource r)
    (hcond : sc.resTypes r = .condvar) (hassoc : (w.resources r).associatedMutex = sc.associatedMutex r)
    (hok : (condWait sc w tid r).fault = none) :
    LockOp.play (w.holders sc) (lockOps sc (condWait sc w tid r).log)
      = some ((condWait sc w tid r).world.holders sc) := by
  obtain ⟨_, _, hm, hown, _, _, hworld⟩ := condWait_cases hok
  rw [hassoc] at hm hown hworld
  rw [condWait_ops hr hcond, if_pos hok, LockOp.play_cons, LockOp.step,
    if_pos (holders_of_owner hm htid hown), hworld]
  refine congrArg some (holders_freed ?_ fun s hs => ?_).symm
  · rw [World.enqueue_owner, released, World.modResource_self]
  · rw [World.enqueue_owner, released, World.modResource_of_ne _ hs]
    rfl

/-- **An action that does not fail** plays the owners that it finds to the owners that it leaves. -/
theorem dispatch_plays {w : World} {tid : Int} {a : Action} (hw : Crew sc w) (htid : sc.IsThread tid)
    (hoper : ∀ type, a.type.operand = some type →
      sc.IsResource a.resourceId ∧ sc.resTypes a.resourceId = type)
    (hassoc : ∀ r, sc.IsResource r → (w.resources r).associatedMutex = sc.associatedMutex r)
    (hok : (w.dispatch sc tid a).fault = none) :
    LockOp.play (w.holders sc) (lockOps sc (w.dispatch sc tid a).log)
      = some ((w.dispatch sc tid a).world.holders sc) := by
  by_cases hk : a.type.hands = false
  · rw [dispatch_ops_of_not_hands hk fun type h => (hoper type h).2, LockOp.play_nil]
    exact congrArg some (holders_congr ((dispatch_act hok).owner_of_not_hands hk)).symm
  obtain ⟨type, r, arg⟩ := a
  have hkept : ∀ {v v' : World}, v'.resources = v.resources → v'.holders sc = v.holders sc :=
    fun h => holders_congr fun s => by rw [h]
  cases type with
  | mutexLock =>
    simp only [World.dispatch, Outcome.finish_fault, Outcome.advanceIfTrue_fault, Outcome.finish_log,
      Outcome.finish_world, Outcome.advanceIfTrue_log] at hok ⊢
    rw [hkept (Outcome.advanceIfTrue_resources _ _)]
    exact mutexLock_plays htid (hoper _ rfl).1 hok
  | mutexTimedLock =>
    simp only [World.dispatch, Outcome.finish_fault, Outcome.armTimeout_fault,
      Outcome.advanceIfTrue_fault, Outcome.finish_log, Outcome.finish_world, Outcome.armTimeout_log,
      Outcome.advanceIfTrue_log] at hok ⊢
    rw [hkept (Outcome.armTimeout_resources _ _ _ _), hkept (Outcome.advanceIfTrue_resources _ _)]
    exact mutexLock_plays htid (hoper _ rfl).1 hok
  | mutexUnlock => exact mutexUnlock_plays hw htid (hoper _ rfl).1 hok
  | condWait =>
    simp only [World.dispatch, Outcome.finish_fault, Outcome.advanceIfTrue_fault, Outcome.finish_log,
      Outcome.finish_world, Outcome.advanceIfTrue_log] at hok ⊢
    obtain ⟨hr, hcond⟩ := hoper .condvar rfl
    rw [hkept (Outcome.advanceIfTrue_resources _ _)]
    exact condWait_plays htid hr hcond (hassoc r hr) hok
  | _ => exact absurd rfl hk

/-- An action that fails logs nothing about a mutex. -/
theorem dispatch_ops_of_fault {w : World} {tid : Int} {a : Action}
    (hoper : ∀ type, a.type.operand = some type →
      sc.IsResource a.resourceId ∧ sc.resTypes a.resourceId = type)
    (hfault : (w.dispatch sc tid a).fault ≠ none) : lockOps sc (w.dispatch sc tid a).log = [] := by
  by_cases hk : a.type.hands = false
  · exact dispatch_ops_of_not_hands hk fun type h => (hoper type h).2
  obtain ⟨type, r, arg⟩ := a
  cases type with
  | mutexLock | mutexTimedLock =>
    simp only [World.dispatch, Outcome.finish_fault, Outcome.armTimeout_fault,
      Outcome.advanceIfTrue_fault, Outcome.finish_log, Outcome.armTimeout_log,
      Outcome.advanceIfTrue_log] at hfault ⊢
    rw [mutexLock_ops, if_neg fun h => hfault h.1]
  | mutexUnlock =>
    exact (mutexUnlock_ops w tid r).trans (if_neg hfault)
  | condWait =>
    simp only [World.dispatch, Outcome.finish_fault, Outcome.advanceIfTrue_fault, Outcome.finish_log,
      Outcome.advanceIfTrue_log] at hfault ⊢
    obtain ⟨hr, hcond⟩ := hoper .condvar rfl
    rw [condWait_ops hr hcond, if_neg hfault]
  | _ => exact absurd rfl hk

/-! ## Runs -/

theorem tick_ops (w : World) : lockOps sc (w.tick sc).2 = [] := by
  rw [tick_log]
  refine lockOps_eq_nil fun e he => ?_
  obtain ⟨i, _, rfl⟩ := List.mem_map.mp he
  rfl

theorem opening_ops (v : World) (tid : Int) : (v.opening sc tid).lockOp sc = none := by
  unfold World.opening
  split <;> rfl

/-- A call logs about the mutexes what its action does. -/
theorem executeStep_ops {w : World} {tid : Int} (hlog : (w.executeStep sc tid).log =
      (w.tick sc).2 ++ (w.tick sc).1.opening sc tid :: (w.tick sc).1.report sc tid) :
    lockOps sc (w.executeStep sc tid).log = lockOps sc ((w.tick sc).1.report sc tid) := by
  rw [hlog, lockOps_append, lockOps_cons, tick_ops, opening_ops]
  rfl

theorem runThread_fault (hv : sc.Valid) {v : World} {tid : Int} {a : Action} (h : sc.Ready v tid)
    (hat : sc.actionAt tid (v.threads tid).pc = some a) :
    (v.runThread sc tid).fault = (v.dispatch sc tid a).fault := by
  unfold World.runThread
  simp only [h.2, ne_eq, not_true_eq_false, if_false, hat]
  rw [if_neg (in_range (hv.bounds.resourceId_ok tid h.1 _ a hat))]
  rfl

section matching

variable (hsc : sc.Matching)

include hsc

theorem executeStep_plays {w : World} (hw : (callSystem sc).Reach w) {tid : Int} (htid : sc.IsThread tid)
    (hok : (w.executeStep sc tid).fault = none) :
    LockOp.play (w.holders sc) (lockOps sc (w.executeStep sc tid).log)
      = some ((w.executeStep sc tid).world.holders sc) := by
  have htick : (w.tick sc).1.resources = w.resources := tick_resources w
  have hsame : ∀ {v : World}, v.resources = w.resources → v.holders sc = w.holders sc :=
    fun h => holders_congr fun s => by rw [h]
  rcases executeStep_cases hok with ⟨hidle, hworld⟩ | ⟨hready, hat, hworld⟩ | ⟨a, hready, hat, _, hok', hworld⟩
  · rw [(executeStep_of_idle hidle).1, tick_ops, LockOp.play_nil, hworld, hsame htick]
  · rw [executeStep_ops (executeStep_log_of_ok hready hok), World.report, hat, lockOps_nil,
      LockOp.play_nil, hworld]
    exact congrArg some (hsame htick).symm
  · rw [executeStep_ops (executeStep_log_of_ok hready hok), World.report, hat, hworld,
      ← hsame htick]
    refine dispatch_plays (crew_reach hw).tick htid (hsc.operand tid htid _ a hat) (fun r hr => ?_) hok'
    rw [htick]
    exact reach_associatedMutex hw hr

theorem executeStep_ops_of_fault {w : World} {tid : Int} (htid : sc.IsThread tid)
    (hfault : (w.executeStep sc tid).fault ≠ none) : lockOps sc (w.executeStep sc tid).log = [] := by
  by_cases hready : ((w.tick sc).1.threads tid).state = .ready
  · rw [executeStep_ops (executeStep_log hsc.valid ⟨htid, hready⟩), World.report]
    cases hat : sc.actionAt tid ((w.tick sc).1.threads tid).pc with
    | none => rfl
    | some a =>
      refine dispatch_ops_of_fault (hsc.operand tid htid _ a hat) fun hok => hfault ?_
      exact (runThread_fault hsc.valid ⟨htid, hready⟩ hat).trans hok
  · rw [(executeStep_of_idle hready).1, tick_ops]

/-- **A replay is never refused**, and one that does not fail ends with the owners of its last state. -/
theorem replayLog_plays {e : Engine} (hw : (callSystem sc).Reach e.world) (hfailed : e.failed = false)
    (i : Nat) (s : List Int) : ∃ held,
    LockOp.play (e.world.holders sc) (lockOps sc (replayLog sc e.world s)) = some held ∧
      ((runScheduleFrom sc i s e).1.failed = false →
        held = (runScheduleFrom sc i s e).1.world.holders sc) := by
  induction s generalizing i e with
  | nil => exact ⟨_, rfl, fun _ => rfl⟩
  | cons t rest ih =>
    by_cases hdone : allDone sc e.world = true
    · rw [runScheduleFrom, replayLog, if_pos hdone, if_pos hdone]
      exact ⟨_, rfl, fun _ => rfl⟩
    by_cases hrange : t < 0 ∨ sc.threadCount ≤ t
    · rw [runScheduleFrom, replayLog, if_neg hdone, if_neg hdone, if_pos hrange, if_pos hrange]
      exact ⟨_, rfl, fun h => absurd h (by simp)⟩
    have ht : sc.IsThread t := by
      unfold Scenario.IsThread
      omega
    rw [runScheduleFrom_called i rest hdone hrange, replayLog, if_neg hdone, if_neg hrange]
    dsimp only
    have hnext : (e.replayStep sc t).failed = (e.world.executeStep sc t).fault.isSome := by
      rw [replayStep_failed, hfailed, Bool.false_or]
    rw [hnext, lockOps_append]
    by_cases hfault : (e.world.executeStep sc t).fault = none
    · have hplay := executeStep_plays hsc hw ht hfault
      have hnone : (e.world.executeStep sc t).fault.isSome = false := by rw [hfault]; rfl
      rw [LockOp.play_append, hplay, Option.bind_some, hnone]
      by_cases hret : (e.world.executeStep sc t).ret = false
      · rw [if_pos hret, if_pos (.inl hret)]
        exact ⟨_, rfl, fun _ => rfl⟩
      · rw [if_neg hret, if_neg Bool.false_ne_true, if_neg (by simpa using hret)]
        have hok : (e.replayStep sc t).failed = false := hnext.trans hnone
        exact @ih (e.replayStep sc t) (.step hw ⟨ht, hfault, rfl⟩) hok (i + 1)
    · have hsome : (e.world.executeStep sc t).fault.isSome = true := Option.isSome_iff_ne_none.mpr hfault
      rw [executeStep_ops_of_fault hsc ht hfault, if_pos (.inr hsome), lockOps_nil]
      refine ⟨_, rfl, fun h => ?_⟩
      have hfails : (e.replayStep sc t).failed = true := hnext.trans hsome
      have hend : (if (e.world.executeStep sc t).ret = false then (e.replayStep sc t, false)
          else if (e.world.executeStep sc t).fault.isSome = true then (e.replayStep sc t, false)
          else runScheduleFrom sc (i + 1) rest (e.replayStep sc t)).1 = e.replayStep sc t := by
        rw [if_pos hsome, ite_self]
      rw [hend, hfails] at h
      exact absurd h (by simp)

end matching

/-! ## The sessions of a mutex -/

/-- What a list of entries says about one mutex. -/
def lockOpsOn (sc : Scenario) (r : Int) (es : List LogEntry) : List (LockOp Int Int) :=
  (lockOps sc es).filter fun op => op.lock = r

/-- The entries on `r` are whole sessions, each of one thread, and then the open one of `last`, if any. -/
def SessionsOf (sc : Scenario) (r : Int) (es : List LogEntry) (last : Option Int) : Prop :=
  ∃ threads : List Int,
    lockOpsOn sc r es = threads.flatMap (LockOp.session r) ++ LockOp.openSession r last

theorem sessionsOf_play {es : List LogEntry} {held : Int → Option Int}
    (h : LockOp.play (fun _ => none) (lockOps sc es) = some held) (r : Int) :
    SessionsOf sc r es (held r) := by
  obtain ⟨threads, hsessions⟩ := LockOp.play_sessions h r
  exact ⟨threads, hsessions⟩

/-- A replay that loses no event leaves all that its steps log. -/
theorem runScheduleFrom_complete {s : List Int} (i : Nat) {e : Engine}
    (hfull : (runScheduleFrom sc i s e).1.trace.truncated = false) : e.trace.truncated = false ∧
      ((runScheduleFrom sc i s e).1.failed = false →
        (runScheduleFrom sc i s e).1.trace.entries = e.trace.entries ++ replayLog sc e.world s) := by
  induction s generalizing i e with
  | nil => exact ⟨hfull, fun _ => (List.append_nil _).symm⟩
  | cons t rest ih =>
    by_cases hdone : allDone sc e.world = true
    · rw [runScheduleFrom, if_pos hdone] at hfull ⊢
      rw [replayLog, if_pos hdone]
      exact ⟨hfull, fun _ => (List.append_nil _).symm⟩
    by_cases hrange : t < 0 ∨ sc.threadCount ≤ t
    · rw [runScheduleFrom, if_neg hdone, if_pos hrange] at hfull ⊢
      exact ⟨hfull, fun h => absurd h (by simp)⟩
    have hlog : (e.replayStep sc t).trace.truncated = false → e.trace.truncated = false ∧
        (e.replayStep sc t).trace.entries = e.trace.entries ++ (e.world.executeStep sc t).log :=
      @logAll_complete { e.trace with schedule := e.trace.schedule.push t } e.stepCounter
        (e.world.executeStep sc t).log
    have hstops : ∀ {ok : Bool}, (e.replayStep sc t).trace.truncated = false →
        e.trace.truncated = false ∧ ((e.replayStep sc t).failed = ok →
          (e.replayStep sc t).trace.entries = e.trace.entries ++ ((e.world.executeStep sc t).log ++ [])) :=
      fun h => ⟨(hlog h).1, fun _ => by rw [List.append_nil]; exact (hlog h).2⟩
    rw [runScheduleFrom_called i rest hdone hrange] at hfull ⊢
    rw [replayLog, if_neg hdone, if_neg hrange]
    dsimp only
    by_cases hret : (e.world.executeStep sc t).ret = false
    · rw [if_pos hret] at hfull ⊢
      rw [if_pos (.inl hret)]
      exact hstops hfull
    by_cases hfailed : (e.replayStep sc t).failed = true
    · rw [if_neg hret, if_pos hfailed] at hfull ⊢
      exact ⟨(hlog hfull).1, fun h => absurd (hfailed.symm.trans h) (by simp)⟩
    · rw [if_neg hret, if_neg hfailed] at hfull ⊢
      obtain ⟨hone, hrest⟩ := ih (i + 1) hfull
      have hnext : (e.world.executeStep sc t).fault.isSome = false := by
        rw [replayStep_failed, Bool.or_eq_true, not_or] at hfailed
        simpa using hfailed.2
      refine ⟨(hlog hone).1, fun h => ?_⟩
      rw [if_neg (by simp [hret, hnext]), hrest h, (hlog hone).2, replayStep_world, List.append_assoc]

/-- What the loop of `smash_run_schedule` leaves of a history is a beginning of it. -/
theorem runSchedule_ops_front (e : Engine) (s : List Int) :
    lockOps sc (runSchedule sc e s).1.trace.entries <+: lockOps sc (replayLog sc (e.reset sc).world s) := by
  have hfresh : (e.reset sc).failed = false := rfl
  rw [runSchedule, runScheduleFrom_entries 0 hfresh (Nat.zero_le _)]
  exact (List.take_prefix ..).filterMap _

theorem holders_reset (e : Engine) : (e.reset sc).world.holders sc = fun _ => none := by
  funext r
  unfold World.holders Engine.reset World.reset
  by_cases hr : sc.IsResource r
  · simp [hr, Resource.reset]
  · simp [hr]

theorem replay_sessions (hsc : sc.Matching) (e : Engine) (s : List Int) (r : Int) :
    ∃ last, SessionsOf sc r (runSchedule sc e s).1.trace.entries last := by
  obtain ⟨held, hplay, _⟩ :=
    replayLog_plays hsc (.init ⟨e.world, rfl⟩) (rfl : (e.reset sc).failed = false) 0 s
  rw [holders_reset] at hplay
  obtain ⟨mid, hmid⟩ := LockOp.play_front (runSchedule_ops_front e s) hplay
  exact ⟨mid r, sessionsOf_play hmid r⟩

/-- With nothing lost the last session is the owner's. -/
theorem replay_sessions_holders (hsc : sc.Matching) {e : Engine} {s : List Int}
    (hok : (runSchedule sc e s).1.failed = false) (hfull : (runSchedule sc e s).1.trace.truncated = false)
    (r : Int) : SessionsOf sc r (runSchedule sc e s).1.trace.entries
      ((runSchedule sc e s).1.world.holders sc r) := by
  obtain ⟨held, hplay, hheld⟩ :=
    replayLog_plays hsc (.init ⟨e.world, rfl⟩) (rfl : (e.reset sc).failed = false) 0 s
  have hentries : (runSchedule sc e s).1.trace.entries = replayLog sc (e.reset sc).world s :=
    (runScheduleFrom_complete 0 hfull).2 hok
  rw [holders_reset, ← hentries, hheld hok] at hplay
  exact sessionsOf_play hplay r

/-- The event of a deadlock says nothing about a mutex. -/
theorem lockOps_stepEvents (trace : Trace) :
    lockOps sc trace.entries = lockOps sc (trace.stepEvents.map TraceEvent.entry) := by
  unfold Trace.stepEvents
  split
  · rename_i hends
    obtain ⟨last, hlast, htype⟩ := Option.map_eq_some_iff.mp hends
    have hnone : last.entry.lockOp sc = none := by
      have hdeadlock : last.entry.type = .deadlock := htype
      unfold LogEntry.lockOp
      rw [hdeadlock]
    have hsplit : trace.events.toList = trace.events.toList.dropLast ++ [last] :=
      (List.dropLast_append_getLast? last hlast).symm
    rw [Trace.entries, hsplit, List.map_append, lockOps_append, List.map_singleton, lockOps_cons, hnone,
      ← hsplit]
    simp
  · rfl

/-- **The mutex events of a trace are sessions.** In the trace that a replay leaves, from whatever engine, and
in the failing trace that `smash_explore` returns, the events of a mutex are whole sessions and then at most
one open one, which is that of the owner when the replay neither fails nor loses an event. -/
theorem mutex_sessions (hsc : sc.Matching) (r : Int) :
    (∀ (e : Engine) (s : List Int),
      (∃ last, SessionsOf sc r (runSchedule sc e s).1.trace.entries last) ∧
        ((runSchedule sc e s).1.failed = false → (runSchedule sc e s).1.trace.truncated = false →
          SessionsOf sc r (runSchedule sc e s).1.trace.entries
            ((runSchedule sc e s).1.world.holders sc r))) ∧
      ∀ (cfg : Config) (stack : Nat → Saved) (trace : Trace),
        (explore sc cfg stack).failingTrace = some trace → ∃ last, SessionsOf sc r trace.entries last := by
  refine ⟨fun e s => ⟨replay_sessions hsc e s r, fun hok hfull => replay_sessions_holders hsc hok hfull r⟩,
    fun cfg stack trace h => ?_⟩
  obtain ⟨last, threads, hsessions⟩ := replay_sessions hsc (engineInit sc) trace.schedule.toList r
  refine ⟨last, threads, ?_⟩
  rw [← hsessions, lockOpsOn, lockOpsOn, lockOps_stepEvents,
    recordedTrace_replay hsc.valid (explore_recordedTrace hsc.valid cfg stack h)]
  rfl

/-- When the two threads are stuck the first still holds the mutex that the second waits for. -/
theorem mutex_sessions_abba : SessionsOf abbaDeadlock 0
    (runSchedule abbaDeadlock (engineInit abbaDeadlock) [0, 1, 0]).1.trace.entries (some 0) :=
  ((mutex_sessions abbaDeadlock_matching 0).1 (engineInit abbaDeadlock) [0, 1, 0]).2 (by decide) (by decide)

end Smash
