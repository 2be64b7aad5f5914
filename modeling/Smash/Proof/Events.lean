import Mathlib.Tactic.SplitIfs
import Smash.Proof.Waiting

/-!
# What a step logs

A step logs the countdowns that ran out, then the thread that it schedules, then what the action reports
(`executeStep_log`). What an action can report is `ActionType.reports`, and whom the report is about is the
thread that runs it or one that it wakes (`dispatch_reports`).
-/

set_option autoImplicit false

namespace Smash

variable {sc : Scenario}

/-! ## The wrappers of the `switch` -/

@[simp] theorem Outcome.finish_log (o : Outcome) : o.finish.log = o.log := rfl

@[simp] theorem Outcome.mapWorld_log (o : Outcome) (f : World → World) : (o.mapWorld f).log = o.log := rfl

@[simp] theorem Outcome.afterLog_log (es : List LogEntry) (o : Outcome) : (o.afterLog es).log = es ++ o.log := rfl

@[simp] theorem Outcome.advanceIfTrue_log (o : Outcome) (tid : Int) : (o.advanceIfTrue tid).log = o.log := by
  unfold Outcome.advanceIfTrue
  split <;> rfl

@[simp] theorem Outcome.armTimeout_log (o : Outcome) (tid : Int) (state : ThreadState) (ticks : Int) :
    (o.armTimeout tid state ticks).log = o.log := by
  unfold Outcome.armTimeout
  split <;> rfl

/-! ## The reports of an action -/

/-- The events that an action can log. -/
def ActionType.reports : ActionType → List EventType
  | .mutexLock | .mutexTimedLock =>
    [.useAfterFree, .contextViolation, .mutexLockAttempt, .mutexLockAcquired, .invariantFail, .mutexLockBlocked]
  | .mutexUnlock => [.useAfterFree, .invariantFail, .mutexUnlock, .mutexLockAcquired]
  | .semWait | .semTimedWait => [.useAfterFree, .contextViolation, .semWait, .invariantFail, .semWaitBlocked]
  | .semSignal => [.useAfterFree, .semSignal, .semWakeup]
  | .condWait => [.semWaitBlocked]
  | .condSignal | .condBroadcast => [.semWakeup]
  | .mbPost | .mbPostFront => [.semWaitBlocked, .semSignal]
  | .mbFetch => [.semWaitBlocked, .semWakeup]
  | .yield => [.yield]
  | .done => [.invariantFail, .threadDone]
  | .sysLock => [.sysLock]
  | .sysUnlock => [.contextViolation, .sysUnlock]
  | .isrEnter => [.isrEnter]
  | .isrExit => [.contextViolation, .isrExit]
  | .objectInit => [.objectInit]
  | .objectDestroy => [.contextViolation, .objectDestroy]
  | .call => [.stackOverflow, .call]
  | .ret => [.ret]
  | .nop | .condWaitTimeout | .mbPostTimeout | .mbFetchTimeout => []

/-- An entry that the action `a` of `tid` can log: on its resource or on none, about `tid` or a waiter. -/
structure Reports (w : World) (tid : Int) (a : Action) (e : LogEntry) : Prop where
  type : e.type ∈ a.type.reports
  resource : e.resourceId = a.resourceId ∨ e.resourceId = -1
  who : e.tid = tid ∨ e.tid ∈ (w.resources a.resourceId).waiters.toList

theorem wakeAll_reports {r : Int} {n : Nat} {w : World} (hn : n ≤ (w.resources r).waiters.count) :
    ∀ e ∈ (wakeAll r n w).2, e.type = .semWakeup ∧ e.resourceId = r ∧
      e.tid ∈ (w.resources r).waiters.toList := by
  induction n generalizing w with
  | zero => exact fun e he => absurd he List.not_mem_nil
  | succ n ih =>
    intro e he
    rw [wakeAll] at he
    rcases List.mem_cons.mp he with rfl | he
    · exact ⟨rfl, rfl, LiveArray.cell_mem (by omega)⟩
    · have hlive : 0 < (w.resources r).waiters.count := by omega
      have hcount : n ≤ ((w.waiterRemove r 0).resources r).waiters.count := by
        simp only [World.waiterRemove, World.modResource_self, LiveArray.count_swapRemove]
        omega
      obtain ⟨htype, hres, hmem⟩ := ih (w := (w.waiterRemove r 0).modThread _ (·.resume)) hcount e he
      simp only [World.modThread_resources, World.waiterRemove, World.modResource_self] at hmem
      exact ⟨htype, hres, LiveArray.mem_of_mem_swapRemove hlive hmem⟩

theorem handOver_reports {w : World} {r : Int} :
    ∀ e ∈ (handOver w r).2, e.type = .mutexLockAcquired ∧ e.resourceId = r ∧
      e.tid ∈ (w.resources r).waiters.toList := by
  unfold handOver
  split
  · rename_i hlive
    exact List.forall_mem_singleton.mpr ⟨rfl, rfl, LiveArray.cell_mem (bestWaiter_lt hlive)⟩
  · exact fun e he => absurd he List.not_mem_nil

theorem reports_self {w : World} {tid : Int} {a : Action} {type : EventType} {r x : Int} :
    Reports w tid a ⟨type, tid, r, x⟩ ↔ type ∈ a.type.reports ∧ (r = a.resourceId ∨ r = -1) :=
  ⟨fun h => ⟨h.type, h.resource⟩, fun h => ⟨h.1, h.2, .inl rfl⟩⟩

theorem reports_woken {w : World} {tid : Int} {a : Action} {type : EventType} {x : Int} {i : Nat}
    (htype : type ∈ a.type.reports) (hi : i < (w.resources a.resourceId).waiters.count) :
    Reports w tid a ⟨type, (w.resources a.resourceId).waiters.cell i, a.resourceId, x⟩ :=
  ⟨htype, .inl rfl, .inr (LiveArray.cell_mem hi)⟩

theorem mbBlock_reports {w : World} {tid r msg : Int} {a : Action} (hr : r = a.resourceId)
    (htype : EventType.semWaitBlocked ∈ a.type.reports) :
    ∀ e ∈ (mbBlock w tid r msg).log, Reports w tid a e := by
  unfold mbBlock
  split_ifs
  · simp [Outcome.fail]
  · simp [Outcome.ok, reports_self, htype, hr]

/-- **What an action reports.** -/
theorem dispatch_reports (w : World) (tid : Int) (a : Action) :
    ∀ e ∈ (w.dispatch sc tid a).log, Reports w tid a e := by
  obtain ⟨type, r, arg⟩ := a
  cases type with
  | mutexLock | mutexTimedLock =>
    simp only [World.dispatch, Outcome.finish_log, Outcome.advanceIfTrue_log, Outcome.armTimeout_log, mutexLock]
    split_ifs <;> simp [Outcome.fail, Outcome.ok, reports_self, ActionType.reports]
  | mutexUnlock =>
    simp only [World.dispatch, Outcome.finish_log, Outcome.mapWorld_log, mutexUnlock]
    split
    · simp [Outcome.fail, reports_self, ActionType.reports]
    split
    · simp [Outcome.fail, reports_self, ActionType.reports]
    split
    · simp [Outcome.fail, reports_self, ActionType.reports]
    · refine List.forall_mem_cons.mpr ⟨reports_self.mpr (by simp [ActionType.reports]), fun e he => ?_⟩
      obtain ⟨htype, hres, hmem⟩ := handOver_reports e he
      exact ⟨by simp [htype, ActionType.reports], .inl hres, .inr hmem⟩
  | semWait | semTimedWait =>
    simp only [World.dispatch, Outcome.finish_log, Outcome.advanceIfTrue_log, Outcome.armTimeout_log, semWait]
    split_ifs <;> simp [Outcome.fail, Outcome.ok, reports_self, ActionType.reports]
  | semSignal =>
    simp only [World.dispatch, Outcome.finish_log, Outcome.mapWorld_log, semSignal]
    split_ifs <;> simp [Outcome.fail, Outcome.ok, reports_self, ActionType.reports]
  | condWait =>
    simp only [World.dispatch, Outcome.finish_log, Outcome.advanceIfTrue_log, condWait]
    split_ifs <;> simp [Outcome.fail, Outcome.ok, reports_self, ActionType.reports]
  | condSignal =>
    simp only [World.dispatch, Outcome.finish_log, Outcome.mapWorld_log, condSignal]
    split_ifs with _ hlive
    · simp [Outcome.fail]
    · refine List.forall_mem_singleton.mpr ?_
      exact reports_woken (a := ⟨.condSignal, r, arg⟩) (by simp [ActionType.reports]) (bestWaiter_lt hlive)
    · simp [Outcome.ok]
  | condBroadcast =>
    simp only [World.dispatch, Outcome.finish_log, Outcome.mapWorld_log, condBroadcast]
    split_ifs
    · simp [Outcome.fail]
    · intro e he
      obtain ⟨htype, hres, hmem⟩ := wakeAll_reports le_rfl e he
      exact ⟨by simp [htype, ActionType.reports], .inl hres, .inr hmem⟩
  | mbPost =>
    simp only [World.dispatch, Outcome.finish_log, Outcome.advanceIfTrue_log, mbPost]
    split_ifs
    · simp [Outcome.fail]
    · exact mbBlock_reports rfl (by simp [ActionType.reports])
    · simp [Outcome.ok, reports_self, ActionType.reports]
  | mbPostFront =>
    simp only [World.dispatch, Outcome.finish_log, Outcome.advanceIfTrue_log, mbPostFront]
    split_ifs
    · simp [Outcome.fail]
    · exact mbBlock_reports rfl (by simp [ActionType.reports])
    · simp [Outcome.ok, reports_self, ActionType.reports]
  | mbFetch =>
    simp only [World.dispatch, Outcome.finish_log, Outcome.advanceIfTrue_log, mbFetch]
    split_ifs with _ _ hlive
    · simp [Outcome.fail]
    · exact mbBlock_reports rfl (by simp [ActionType.reports])
    · refine List.forall_mem_cons.mpr ⟨?_, ?_⟩
      · exact reports_woken (a := ⟨.mbFetch, r, arg⟩) (by simp [ActionType.reports]) hlive
      · simp [reports_self, ActionType.reports]
    · simp [Outcome.ok, reports_self, ActionType.reports]
  | done =>
    simp only [World.dispatch, actDone]
    split_ifs <;> simp [Outcome.fail, Outcome.ok, reports_self, ActionType.reports]
  | sysUnlock | isrEnter | isrExit | objectDestroy | call =>
    simp only [World.dispatch, actSysUnlock, actIsrEnter, actIsrExit, actObjectDestroy, actCall]
    split_ifs <;> simp [Outcome.fail, Outcome.ok, reports_self, ActionType.reports]
  | nop | yield | sysLock | objectInit | ret | condWaitTimeout | mbPostTimeout | mbFetchTimeout =>
    simp [World.dispatch, actSysLock, actObjectInit, actReturn, Outcome.ok, reports_self, ActionType.reports]

/-! ## The log of a step -/

/-- The countdowns that run out at this tick. -/
def World.expired (sc : Scenario) (w : World) : List Int := sc.threadIds.filter fun i => (w.threads i).expires

theorem foldl_tickTurn_log (is : List Int) (hnd : is.Nodup) (acc : World × List LogEntry) :
    (is.foldl tickTurn acc).2 = acc.2 ++ (is.filter fun i => (acc.1.threads i).expires).map fun i =>
      ⟨.semTimeoutExpired, i, -1, 0⟩ := by
  induction is generalizing acc with
  | nil => simp
  | cons i is ih =>
    obtain ⟨hnot, hnd⟩ := List.nodup_cons.mp hnd
    have hrest : ∀ j ∈ is, (acc.1.modThread i (·.tick)).threads j = acc.1.threads j := fun j hj =>
      World.modThread_of_ne _ (by rintro rfl; exact hnot hj)
    rw [List.foldl_cons, ih hnd, tickTurn_world, List.filter_congr fun j hj => by rw [hrest j hj]]
    cases hexp : (acc.1.threads i).expires with
    | true =>
      -- `state` is READY by the time that the event is chosen.
      have hready : (acc.1.threads i).tick.state = .ready := by rw [Thread.tick_of_expires hexp]; rfl
      simp [tickTurn, hexp, hready]
    | false => simp [tickTurn, hexp]

/-- **The clock logs every countdown that runs out**, each as one of a semaphore. -/
theorem tick_log (w : World) :
    (w.tick sc).2 = (w.expired sc).map fun i => ⟨.semTimeoutExpired, i, -1, 0⟩ :=
  foldl_tickTurn_log sc.threadIds (nodup_upTo _) (w, [])

/-- The entry that says which thread is scheduled, or that it has come to its end. -/
def World.opening (sc : Scenario) (v : World) (tid : Int) : LogEntry :=
  match sc.actionAt tid (v.threads tid).pc with
  | none => ⟨.threadDone, tid, -1, 0⟩
  | some _ => ⟨.schedule, tid, -1, (v.threads tid).priority⟩

/-- What the action reports, if there is one. -/
def World.report (sc : Scenario) (v : World) (tid : Int) : List LogEntry :=
  match sc.actionAt tid (v.threads tid).pc with
  | none => []
  | some a => (v.dispatch sc tid a).log

theorem opening_tid (v : World) (tid : Int) : (v.opening sc tid).tid = tid := by
  unfold World.opening
  split <;> rfl

theorem runThread_log (hv : sc.Valid) {v : World} {tid : Int} (h : sc.Ready v tid) :
    (v.runThread sc tid).log = v.opening sc tid :: v.report sc tid := by
  obtain ⟨ht, hready⟩ := h
  unfold World.runThread World.opening World.report
  simp only [hready, ne_eq, not_true_eq_false, if_false]
  cases hact : sc.actionAt tid (v.threads tid).pc with
  | none => rfl
  | some a =>
    dsimp only
    rw [if_neg (in_range (hv.bounds.resourceId_ok tid ht _ a hact))]
    rfl

/-- **The log of a step**: a thread whose countdown runs out at this tick can be the one that runs. -/
theorem executeStep_log (hv : sc.Valid) {w : World} {tid : Int} (h : sc.Ready (w.tick sc).1 tid) :
    (w.executeStep sc tid).log =
      (w.tick sc).2 ++ (w.tick sc).1.opening sc tid :: (w.tick sc).1.report sc tid := by
  unfold World.executeStep
  rw [Outcome.afterLog_log, runThread_log hv h]

/-- The same of a step that does not fail, whatever the scenario. -/
theorem executeStep_log_of_ok {w : World} {tid : Int} (h : ((w.tick sc).1.threads tid).state = .ready)
    (hok : (w.executeStep sc tid).fault = none) :
    (w.executeStep sc tid).log =
      (w.tick sc).2 ++ (w.tick sc).1.opening sc tid :: (w.tick sc).1.report sc tid := by
  unfold World.executeStep World.runThread at hok ⊢
  unfold World.opening World.report
  simp only [h, ne_eq, not_true_eq_false, if_false, Outcome.afterLog_fault, Outcome.afterLog_log] at hok ⊢
  cases hact : sc.actionAt tid ((w.tick sc).1.threads tid).pc with
  | none => rfl
  | some a =>
    rw [hact] at hok
    dsimp only at hok ⊢
    split at hok
    · exact absurd hok (by simp)
    · rw [if_neg ‹_›]
      rfl

/-- A thread that is not READY does nothing. -/
theorem executeStep_of_idle {w : World} {tid : Int} (h : ((w.tick sc).1.threads tid).state ≠ .ready) :
    (w.executeStep sc tid).log = (w.tick sc).2 ∧ (w.executeStep sc tid).ret = false := by
  unfold World.executeStep World.runThread
  simp [h, Outcome.ok]

/-- The action that a call of `smash_execute_step` comes to: the thread is READY after the clock. -/
def World.acting (sc : Scenario) (w : World) (tid : Int) : Option Action :=
  let v := (w.tick sc).1
  if (v.threads tid).state = .ready then sc.actionAt tid (v.threads tid).pc else none

theorem acting_eq_some {w : World} {tid : Int} {a : Action} (h : w.acting sc tid = some a) :
    ((w.tick sc).1.threads tid).state = .ready ∧ sc.actionAt tid ((w.tick sc).1.threads tid).pc = some a := by
  unfold World.acting at h
  dsimp only at h
  split at h
  · exact ⟨‹_›, h⟩
  · exact absurd h (by simp)

theorem ready_tick {w : World} {tid : Int} (h : sc.Ready w tid) : sc.Ready (w.tick sc).1 tid :=
  ⟨h.1, by rw [tick_threads_of_ready h.2]; exact h.2⟩

end Smash
