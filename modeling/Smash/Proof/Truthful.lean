import Mathlib.Algebra.GroupWithZero.Nat
import Smash.Proof.Recorded

/-!
# What the log says of semaphores and timeouts

A run is a list of calls of `smash_execute_step` from reset; as long as it neither fails nor fills the buffer,
its trace is what these calls log, one after the other (`executeSteps_log`). Two slips make the trace say
something else than what the engine did. A signal logs `EVT_SEM_SIGNAL` twice, or `EVT_USE_AFTER_FREE` where
the wakeup should stand (`callLog_signal`); and every countdown that runs out is logged as one of a semaphore
(`callLog_timeouts`). The trace tells the truth exactly when the run comes to neither (`truthful_iff`).
-/

set_option autoImplicit false

namespace Smash

variable {sc : Scenario}

/-- Mutex and semaphore actions at their declared types, and actions that name no resource. -/
def Scenario.MutexSem (sc : Scenario) : Prop :=
  ∀ t, sc.IsThread t → ∀ pc a, sc.actionAt t pc = some a → a.type.resourceFree = true ∨
    ∃ type, a.type.operand = some type ∧ (type = .mutex ∨ type = .semaphore) ∧
      sc.IsResource a.resourceId ∧ sc.resTypes a.resourceId = type

/-! ## The calls of a run -/

/-- `smash_execute_step`, call after call. -/
def Engine.executeSteps (sc : Scenario) (e : Engine) (tids : List Int) : Engine :=
  tids.foldl (fun e tid => e.executeStep sc tid) e

/-- The calls of a run, each with the live state that it finds. -/
def runCalls (sc : Scenario) : World → List Int → List (World × Int)
  | _, [] => []
  | w, tid :: rest => (w, tid) :: runCalls sc (w.executeStep sc tid).world rest

/-- What a call logs. -/
def callLog (sc : Scenario) (c : World × Int) : List LogEntry := (c.1.executeStep sc c.2).log

/-- What is logged without a loss stands in the buffer. -/
theorem logAll_complete {trace : Trace} {step : Nat} {es : List LogEntry}
    (h : (trace.logAll step es).truncated = false) :
    trace.truncated = false ∧ (trace.logAll step es).entries = trace.entries ++ es := by
  induction es generalizing trace with
  | nil => exact ⟨h, (List.append_nil _).symm⟩
  | cons e es ih =>
    obtain ⟨hone, hrest⟩ := @ih (trace.log step e) h
    unfold Trace.log at hone hrest
    split at hone
    · exact absurd hone (by simp)
    · rename_i hroom
      rw [if_neg hroom] at hrest
      refine ⟨hone, ?_⟩
      calc (trace.logAll step (e :: es)).entries
          = (({ trace with events := trace.events.push _ } : Trace).logAll step es).entries := by
            rw [Trace.logAll, List.foldl_cons, Trace.log, if_neg hroom]
            rfl
        _ = trace.entries ++ [e] ++ es := by
            rw [hrest]
            simp [Trace.entries, TraceEvent.entry]
        _ = trace.entries ++ e :: es := by rw [List.append_assoc, List.singleton_append]

theorem executeSteps_failed (e : Engine) (tids : List Int) (h : (e.executeSteps sc tids).failed = false) :
    e.failed = false := by
  induction tids generalizing e with
  | nil => exact h
  | cons tid rest ih => exact (Bool.or_eq_false_iff.mp (ih (e.executeStep sc tid) h)).1

/-- **A run that neither fails nor loses an event**: its trace is what its calls log, one after the other. -/
theorem executeSteps_log {e : Engine} {tids : List Int} (hok : (e.executeSteps sc tids).failed = false)
    (hfull : (e.executeSteps sc tids).trace.truncated = false) :
    e.trace.truncated = false ∧
    (e.executeSteps sc tids).trace.entries =
      e.trace.entries ++ (runCalls sc e.world tids).flatMap (callLog sc) ∧
    ∀ c ∈ runCalls sc e.world tids, c.2 ∈ tids ∧ (c.1.executeStep sc c.2).fault = none := by
  induction tids generalizing e with
  | nil => exact ⟨hfull, (List.append_nil _).symm, fun c hc => absurd hc List.not_mem_nil⟩
  | cons tid rest ih =>
    obtain ⟨hroom, htrace, hcalls⟩ := @ih (e.executeStep sc tid) hok hfull
    obtain ⟨hbefore, hlog⟩ := logAll_complete hroom
    have hone : (e.world.executeStep sc tid).fault = none := by
      have hfailed := executeSteps_failed (e.executeStep sc tid) rest hok
      have hfault := (Bool.or_eq_false_iff.mp hfailed).2
      exact Option.isNone_iff_eq_none.mp (Option.isSome_eq_false_iff.mp hfault)
    refine ⟨hbefore, ?_, fun c hc => ?_⟩
    · calc (e.executeSteps sc (tid :: rest)).trace.entries
          = (e.executeStep sc tid).trace.entries ++
              (runCalls sc (e.world.executeStep sc tid).world rest).flatMap (callLog sc) := htrace
        _ = e.trace.entries ++ callLog sc (e.world, tid) ++
              (runCalls sc (e.world.executeStep sc tid).world rest).flatMap (callLog sc) := by
            exact congrArg (· ++ (runCalls sc (e.world.executeStep sc tid).world rest).flatMap (callLog sc)) hlog
        _ = _ := by rw [runCalls, List.flatMap_cons, List.append_assoc]
    · rcases List.mem_cons.mp hc with rfl | hc
      · exact ⟨List.mem_cons_self, hone⟩
      · exact ⟨List.mem_cons_of_mem _ (hcalls c hc).1, (hcalls c hc).2⟩

/-! ## The replay of a schedule -/

/-- Two engines that differ only in what schedule they record. -/
structure SameLog (e e' : Engine) : Prop where
  world : e'.world = e.world
  events : e'.trace.events = e.trace.events
  truncated : e'.trace.truncated = e.trace.truncated
  stepCounter : e'.stepCounter = e.stepCounter
  failed : e'.failed = e.failed

theorem SameLog.refl (e : Engine) : SameLog e e := ⟨rfl, rfl, rfl, rfl, rfl⟩

theorem logAll_congr {trace trace' : Trace} (step : Nat) (es : List LogEntry)
    (hevents : trace'.events = trace.events) (htruncated : trace'.truncated = trace.truncated) :
    (trace'.logAll step es).events = (trace.logAll step es).events ∧
      (trace'.logAll step es).truncated = (trace.logAll step es).truncated := by
  induction es generalizing trace trace' with
  | nil => exact ⟨hevents, htruncated⟩
  | cons e es ih =>
    refine @ih (trace.log step e) (trace'.log step e) ?_ ?_
    · unfold Trace.log
      rw [hevents]
      split
      · rfl
      · rfl
    · unfold Trace.log
      rw [hevents]
      split
      · rfl
      · exact htruncated

theorem SameLog.replayStep {e e' : Engine} (h : SameLog e e') (t : Int) :
    SameLog (e.executeStep sc t) (e'.replayStep sc t) := by
  obtain ⟨hevents, htruncated⟩ :=
    @logAll_congr e.trace { e'.trace with schedule := e'.trace.schedule.push t } e.stepCounter
      (e.world.executeStep sc t).log h.events h.truncated
  obtain ⟨hworld, _, _, hcounter, hfailed⟩ := h
  unfold Engine.replayStep Engine.executeStep Engine.apply
  dsimp only
  rw [hworld, hcounter, hfailed]
  exact ⟨rfl, hevents, htruncated, rfl, rfl⟩

theorem calledSteps_called {e : Engine} {t : Int} (rest : List Int)
    (hdone : allDone sc e.world ≠ true) (hrange : ¬ (t < 0 ∨ sc.threadCount ≤ t)) :
    calledSteps sc (t :: rest) e = (e, t) ::
      if (e.world.executeStep sc t).ret = false then []
      else if (e.replayStep sc t).failed then []
      else calledSteps sc rest (e.replayStep sc t) := by
  rw [calledSteps, if_neg hdone, if_neg hrange]
  rfl

/-- **The replay of a schedule is a run** of the calls that it makes. -/
theorem runScheduleFrom_executeSteps {s : List Int} (i : Nat) {e e' : Engine} (h : SameLog e e')
    (hok : (runScheduleFrom sc i s e').1.failed = false) :
    (∀ tid ∈ (calledSteps sc s e').map (·.2), sc.IsThread tid) ∧
      SameLog (e.executeSteps sc ((calledSteps sc s e').map (·.2))) (runScheduleFrom sc i s e').1 := by
  have hnone : ∀ tid ∈ ([] : List Int), sc.IsThread tid := fun tid htid => absurd htid List.not_mem_nil
  induction s generalizing i e e' with
  | nil => exact ⟨hnone, h⟩
  | cons t rest ih =>
    by_cases hdone : allDone sc e'.world = true
    · rw [runScheduleFrom, calledSteps, if_pos hdone, if_pos hdone]
      exact ⟨hnone, h⟩
    by_cases hrange : t < 0 ∨ sc.threadCount ≤ t
    · rw [runScheduleFrom, if_neg hdone, if_pos hrange] at hok
      exact absurd hok (by simp)
    have ht : sc.IsThread t := by
      unfold Scenario.IsThread
      omega
    have hone : ∀ tid ∈ [t], sc.IsThread tid := List.forall_mem_singleton.mpr ht
    rw [runScheduleFrom_called i rest hdone hrange] at hok ⊢
    rw [calledSteps_called rest hdone hrange, List.map_cons]
    by_cases hret : (e'.world.executeStep sc t).ret = false
    · -- The thread is not READY: the loop ends after the clock.
      rw [if_pos hret, if_pos hret]
      exact ⟨hone, h.replayStep t⟩
    rw [if_neg hret] at hok ⊢
    rw [if_neg hret]
    by_cases hfail : (e'.replayStep sc t).failed = true
    · rw [if_pos hfail, if_pos hfail]
      exact ⟨hone, h.replayStep t⟩
    rw [if_neg hfail] at hok ⊢
    rw [if_neg hfail]
    obtain ⟨hrest, hlog⟩ := ih (i + 1) (h.replayStep t) hok
    exact ⟨List.forall_mem_cons.mpr ⟨ht, hrest⟩, hlog⟩

/-! ## What one call logs -/

/-- The events of the clock. -/
def EventType.isTimeout (type : EventType) : Bool := type = .mutexTimeoutExpired ∨ type = .semTimeoutExpired

/-- The event of a countdown that ran out, by what the thread was blocked in. -/
def timeoutType (t : Thread) : EventType :=
  if t.state = .blockedMutex then .mutexTimeoutExpired else .semTimeoutExpired

/-- The countdowns that run out in a run. -/
def expiries (sc : Scenario) (calls : List (World × Int)) : List (World × Int) :=
  calls.flatMap fun c => (c.1.expired sc).map fun i => (c.1, i)

/-- The call executes an `ACT_SEM_SIGNAL` on `r`. -/
def signalCall (sc : Scenario) (r : Int) (c : World × Int) : Bool :=
  (c.1.acting sc c.2).any fun a => a.type = .semSignal ∧ a.resourceId = r

/-- The threads that a call wakes: they are blocked when the clock has run, and READY in the end. -/
def wokenBy (sc : Scenario) (c : World × Int) : List Int :=
  sc.threadIds.filter fun i =>
    ((c.1.tick sc).1.threads i).blocked ∧ ((c.1.executeStep sc c.2).world.threads i).state = .ready

/-- The trace tells the truth about the semaphores and the timeouts of these calls. -/
structure Truthful (sc : Scenario) (trace : Trace) (calls : List (World × Int)) : Prop where
  signals : ∀ r, sc.IsResource r → sc.resTypes r = .semaphore →
    trace.entries.countP (fun e => e.type = .semSignal ∧ e.resourceId = r) = calls.countP (signalCall sc r)
  wakeups : ∀ r, sc.IsResource r → sc.resTypes r = .semaphore →
    trace.entries.countP (fun e => e.type = .semWakeup ∧ e.resourceId = r) =
      ((calls.filter (signalCall sc r)).map fun c => (wokenBy sc c).length).sum
  noUseAfterFree : ∀ e ∈ trace.entries, e.type ≠ .useAfterFree
  timeouts : (trace.entries.filter (·.type.isTimeout)).map (fun e => (e.type, e.tid)) =
    (expiries sc calls).map fun x => (timeoutType (x.1.threads x.2), x.2)

/-- A call that meets neither slip: it is no signal, and no timed lock runs out. -/
def NoSlip (sc : Scenario) (c : World × Int) : Prop :=
  (∀ r, signalCall sc r c = false) ∧ ∀ i ∈ c.1.expired sc, (c.1.threads i).state ≠ .blockedMutex

/-! ## The log, call by call -/

/-- A call on a thread of the scenario that does not fail. -/
structure GoodCall (sc : Scenario) (c : World × Int) : Prop where
  thread : sc.IsThread c.2
  ok : (c.1.executeStep sc c.2).fault = none

/-- What a call logs after the clock: nothing, if the thread is not READY. -/
def afterClock (sc : Scenario) (c : World × Int) : List LogEntry :=
  let v := (c.1.tick sc).1
  if (v.threads c.2).state = .ready then v.opening sc c.2 :: v.report sc c.2 else []

theorem callLog_eq {c : World × Int} (hc : GoodCall sc c) :
    callLog sc c = (c.1.expired sc).map (fun i => ⟨.semTimeoutExpired, i, -1, 0⟩) ++ afterClock sc c := by
  unfold callLog afterClock
  dsimp only
  rw [← tick_log]
  by_cases hready : ((c.1.tick sc).1.threads c.2).state = .ready
  · rw [if_pos hready]
    exact executeStep_log_of_ok hready hc.ok
  · rw [if_neg hready, List.append_nil]
    exact (executeStep_of_idle hready).1

/-- An action that does not fail reports no use after free, unless it is a signal. -/
theorem dispatch_no_useAfterFree {w : World} {tid : Int} {a : Action} (hok : (w.dispatch sc tid a).fault = none)
    (hsignal : a.type ≠ .semSignal) : ∀ e ∈ (w.dispatch sc tid a).log, e.type ≠ .useAfterFree := by
  by_cases hreports : EventType.useAfterFree ∈ a.type.reports
  · obtain ⟨type, r, arg⟩ := a
    cases type with
    | mutexLock | mutexTimedLock =>
      simp only [World.dispatch, Outcome.finish_log, Outcome.advanceIfTrue_log, Outcome.armTimeout_log,
        Outcome.finish_fault, Outcome.advanceIfTrue_fault, Outcome.armTimeout_fault, mutexLock] at hok ⊢
      split_ifs at hok ⊢ <;> simp_all [Outcome.fail, Outcome.ok]
    | mutexUnlock =>
      simp only [World.dispatch, Outcome.finish_log, Outcome.mapWorld_log, Outcome.finish_fault,
        Outcome.mapWorld_fault, mutexUnlock] at hok ⊢
      split at hok
      · exact absurd hok (by simp [Outcome.fail])
      split at hok
      · exact absurd hok (by simp [Outcome.fail])
      split at hok
      · exact absurd hok (by simp [Outcome.fail])
      · rw [if_neg ‹_›, if_neg ‹_›, if_neg ‹_›]
        refine List.forall_mem_cons.mpr ⟨by simp, fun e he htype => ?_⟩
        rw [(handOver_reports e he).1] at htype
        exact absurd htype (by simp)
    | semWait | semTimedWait =>
      simp only [World.dispatch, Outcome.finish_log, Outcome.advanceIfTrue_log, Outcome.armTimeout_log,
        Outcome.finish_fault, Outcome.advanceIfTrue_fault, Outcome.armTimeout_fault, semWait] at hok ⊢
      split_ifs at hok ⊢ <;> simp_all [Outcome.fail, Outcome.ok]
    | semSignal => exact absurd rfl hsignal
    | _ => exact absurd hreports (by simp [ActionType.reports])
  · intro e he htype
    exact hreports (htype ▸ (dispatch_reports w tid a e he).type)

/-- The action of a call that does not fail has not failed. -/
theorem GoodCall.dispatch_ok {c : World × Int} (hc : GoodCall sc c) {a : Action}
    (hact : c.1.acting sc c.2 = some a) : ((c.1.tick sc).1.dispatch sc c.2 a).fault = none := by
  obtain ⟨hready, hat⟩ := acting_eq_some hact
  rcases executeStep_cases hc.ok with ⟨hidle, _⟩ | ⟨_, hend, _⟩ | ⟨b, _, hb, _, hok, _⟩
  · exact absurd hready hidle
  · rw [hat] at hend
    exact absurd hend (by simp)
  · rw [hat] at hb
    exact Option.some.inj hb ▸ hok

/-- What a call logs after the clock is its opening and the report of its action. -/
theorem mem_afterClock {c : World × Int} {e : LogEntry} (he : e ∈ afterClock sc c) :
    e.type = .threadDone ∨ e.type = .schedule ∨
      ∃ a, c.1.acting sc c.2 = some a ∧ e ∈ ((c.1.tick sc).1.dispatch sc c.2 a).log := by
  unfold afterClock at he
  dsimp only at he
  split at he
  · rename_i hready
    rcases List.mem_cons.mp he with rfl | he
    · unfold World.opening
      split
      · exact .inl rfl
      · exact .inr (.inl rfl)
    · unfold World.report at he
      split at he
      · exact absurd he List.not_mem_nil
      · rename_i a hat
        refine .inr (.inr ⟨a, ?_, he⟩)
        unfold World.acting
        dsimp only
        rw [if_pos hready, hat]
  · exact absurd he List.not_mem_nil

theorem ActionType.reports_timeout (a : ActionType) : ∀ type ∈ a.reports, type.isTimeout = false := by
  cases a <;> decide

/-- The clock reports the timeouts, and nothing else does. -/
theorem afterClock_timeouts (c : World × Int) : ∀ e ∈ afterClock sc c, e.type.isTimeout = false := by
  intro e he
  rcases mem_afterClock he with htype | htype | ⟨a, _, he⟩
  · rw [htype]
    rfl
  · rw [htype]
    rfl
  · exact a.type.reports_timeout e.type (dispatch_reports _ c.2 a e he).type

/-- **The timeouts of a call** are its countdowns, all logged as those of a semaphore. -/
theorem callLog_timeouts {c : World × Int} (hc : GoodCall sc c) :
    (callLog sc c).filter (·.type.isTimeout) =
      (c.1.expired sc).map fun i => ⟨.semTimeoutExpired, i, -1, 0⟩ := by
  have hrest : (afterClock sc c).filter (·.type.isTimeout) = [] := by
    refine List.filter_eq_nil_iff.mpr fun e he => ?_
    rw [afterClock_timeouts c e he]
    exact Bool.false_ne_true
  rw [callLog_eq hc, List.filter_append, hrest, List.append_nil]
  refine List.filter_eq_self.mpr fun e he => ?_
  obtain ⟨i, _, rfl⟩ := List.mem_map.mp he
  rfl

/-- The events that a trace tells of semaphores. -/
def EventType.ofSemaphore (type : EventType) : Bool :=
  type = .semSignal ∨ type = .semWakeup ∨ type = .useAfterFree

/-- Of the mutex and semaphore actions, only a signal reports more than a use after free. -/
theorem ActionType.reports_semaphore {a : ActionType}
    (ha : a.resourceFree = true ∨ a.operand = some .mutex ∨ a.operand = some .semaphore)
    (hne : a ≠ .semSignal) :
    ∀ type ∈ a.reports, type.ofSemaphore = true → type = .useAfterFree := by
  revert ha hne
  cases a <;> decide

theorem Scenario.MutexSem.acting (hsc : sc.MutexSem) {c : World × Int} (hc : GoodCall sc c) {a : Action}
    (hact : c.1.acting sc c.2 = some a) : a.type.resourceFree = true ∨
      ∃ type, a.type.operand = some type ∧ (type = .mutex ∨ type = .semaphore) ∧
        sc.IsResource a.resourceId ∧ sc.resTypes a.resourceId = type :=
  hsc c.2 hc.thread _ a (acting_eq_some hact).2

/-- **A call that is no signal** logs none of them. -/
theorem callLog_no_signal (hsc : sc.MutexSem) {c : World × Int} (hc : GoodCall sc c)
    (hnone : ∀ r, signalCall sc r c = false) : ∀ e ∈ callLog sc c, e.type.ofSemaphore = false := by
  intro e he
  rw [callLog_eq hc] at he
  rcases List.mem_append.mp he with he | he
  · obtain ⟨i, _, rfl⟩ := List.mem_map.mp he
    rfl
  rcases mem_afterClock he with htype | htype | ⟨a, hact, he⟩
  · rw [htype]
    rfl
  · rw [htype]
    rfl
  have hne : a.type ≠ .semSignal := by
    intro htype
    have hthis := hnone a.resourceId
    rw [signalCall, hact] at hthis
    simp [htype] at hthis
  have hclass : a.type.resourceFree = true ∨
      a.type.operand = some .mutex ∨ a.type.operand = some .semaphore := by
    rcases hsc.acting hc hact with hfree | ⟨type, hop, hmutex | hsem, _⟩
    · exact .inl hfree
    · exact .inr (.inl (hmutex ▸ hop))
    · exact .inr (.inr (hsem ▸ hop))
  cases hof : e.type.ofSemaphore with
  | false => rfl
  | true =>
    have huaf := a.type.reports_semaphore hclass hne e.type (dispatch_reports _ c.2 a e he).type hof
    exact absurd huaf (dispatch_no_useAfterFree (hc.dispatch_ok hact) hne e he)

/-- **A signal** logs two events: both `EVT_SEM_SIGNAL`, or the second one `EVT_USE_AFTER_FREE`. -/
theorem callLog_signal {c : World × Int} (hc : GoodCall sc c) {a : Action} (hact : c.1.acting sc c.2 = some a)
    (htype : a.type = .semSignal) :
    (∃ e ∈ callLog sc c, e.type = .useAfterFree) ∨
      ∃ front x, callLog sc c =
          front ++ [⟨.semSignal, c.2, a.resourceId, x⟩, ⟨.semSignal, c.2, a.resourceId, x⟩] ∧
        ∀ e ∈ front, e.type.ofSemaphore = false := by
  obtain ⟨hready, hat⟩ := acting_eq_some hact
  have hok := hc.dispatch_ok hact
  have hlog : callLog sc c = ((c.1.expired sc).map fun i => ⟨.semTimeoutExpired, i, -1, 0⟩) ++
      ⟨.schedule, c.2, -1, ((c.1.tick sc).1.threads c.2).priority⟩ ::
        ((c.1.tick sc).1.dispatch sc c.2 a).log := by
    rw [callLog_eq hc, afterClock, if_pos hready, World.opening, World.report, hat]
  rw [hlog]
  simp only [World.dispatch, htype, Outcome.finish_log, Outcome.mapWorld_log, Outcome.finish_fault,
    Outcome.mapWorld_fault, semSignal] at hok ⊢
  split at hok
  · exact absurd hok (by simp [Outcome.fail])
  rw [if_neg ‹_›]
  split
  · exact .inl ⟨⟨.useAfterFree, c.2, a.resourceId, 0⟩, by simp [Outcome.ok], rfl⟩
  · refine .inr ⟨(c.1.expired sc).map (fun i => ⟨.semTimeoutExpired, i, -1, 0⟩) ++
      [⟨.schedule, c.2, -1, ((c.1.tick sc).1.threads c.2).priority⟩],
      ((c.1.tick sc).1.resources a.resourceId).count, ?_, ?_⟩
    · simp [Outcome.ok]
    · intro e he
      rcases List.mem_append.mp he with he | he
      · obtain ⟨i, _, rfl⟩ := List.mem_map.mp he
        rfl
      · rw [List.mem_singleton.mp he]
        rfl

/-! ## When the trace tells the truth -/

theorem signalCall_iff {r : Int} {c : World × Int} : signalCall sc r c = true ↔
    ∃ a, c.1.acting sc c.2 = some a ∧ a.type = .semSignal ∧ a.resourceId = r := by
  unfold signalCall
  cases c.1.acting sc c.2 with
  | none => simp
  | some a => simp

/-- **Every signal is logged twice**, where no use after free stands in for a wakeup. -/
theorem callLog_countP (hsc : sc.MutexSem) {c : World × Int} (hc : GoodCall sc c)
    (huaf : ∀ e ∈ callLog sc c, e.type ≠ .useAfterFree) (r : Int) :
    (callLog sc c).countP (fun e => e.type = .semSignal ∧ e.resourceId = r) =
      2 * [c].countP (signalCall sc r) := by
  have hnone : ∀ es : List LogEntry, (∀ e ∈ es, e.type.ofSemaphore = false) →
      es.countP (fun e => e.type = .semSignal ∧ e.resourceId = r) = 0 := by
    intro es hes
    refine List.countP_eq_zero.mpr fun e he hsig => ?_
    have hthis := hes e he
    rw [(of_decide_eq_true hsig).1] at hthis
    exact absurd hthis (by decide)
  by_cases hsignal : ∃ a, c.1.acting sc c.2 = some a ∧ a.type = .semSignal
  · obtain ⟨a, hact, htype⟩ := hsignal
    have hcall : signalCall sc r c = decide (a.resourceId = r) := by
      rw [signalCall, hact]
      simp [htype]
    rcases callLog_signal hc hact htype with ⟨e, he, hbad⟩ | ⟨front, x, hlog, hfront⟩
    · exact absurd hbad (huaf e he)
    · rw [hlog, List.countP_append, hnone front hfront, List.countP_singleton, hcall]
      by_cases hr : a.resourceId = r
      · simp [hr]
      · simp [hr]
  · have hno : ∀ r', signalCall sc r' c = false := by
      intro r'
      rw [← Bool.not_eq_true, signalCall_iff]
      rintro ⟨a, hact, htype, _⟩
      exact hsignal ⟨a, hact, htype⟩
    rw [hnone _ (callLog_no_signal hsc hc hno), List.countP_singleton, hno r]
    rfl

theorem calls_countP (hsc : sc.MutexSem) {calls : List (World × Int)} (hc : ∀ c ∈ calls, GoodCall sc c)
    (huaf : ∀ e ∈ calls.flatMap (callLog sc), e.type ≠ .useAfterFree) (r : Int) :
    (calls.flatMap (callLog sc)).countP (fun e => e.type = .semSignal ∧ e.resourceId = r) =
      2 * calls.countP (signalCall sc r) := by
  induction calls with
  | nil => rfl
  | cons c rest ih =>
    rw [List.flatMap_cons] at huaf ⊢
    have hone := callLog_countP hsc (hc c List.mem_cons_self) (fun e he => huaf e (List.mem_append_left _ he)) r
    have hrest := ih (fun d hd => hc d (List.mem_cons_of_mem _ hd)) fun e he =>
      huaf e (List.mem_append_right _ he)
    rw [List.countP_append, hone, hrest, ← Nat.mul_add, ← List.countP_append, List.singleton_append]

/-- **The timeouts of a run**, as they are logged. -/
theorem calls_timeouts {calls : List (World × Int)} (hc : ∀ c ∈ calls, GoodCall sc c) :
    ((calls.flatMap (callLog sc)).filter (·.type.isTimeout)).map (fun e => (e.type, e.tid)) =
      (expiries sc calls).map fun x => (.semTimeoutExpired, x.2) := by
  unfold expiries
  rw [List.filter_flatMap, List.map_flatMap, List.map_flatMap]
  refine List.flatMap_congr fun c hcall => ?_
  rw [callLog_timeouts (hc c hcall), List.map_map, List.map_map]
  rfl

theorem timeoutType_eq {t : Thread} : timeoutType t = .semTimeoutExpired ↔ t.state ≠ .blockedMutex := by
  unfold timeoutType
  split
  · simp_all
  · simp_all

/-- **The timeouts are told right** when no timed lock runs out. -/
theorem timeouts_iff {calls : List (World × Int)} (hc : ∀ c ∈ calls, GoodCall sc c) :
    ((calls.flatMap (callLog sc)).filter (·.type.isTimeout)).map (fun e => (e.type, e.tid)) =
      (expiries sc calls).map (fun x => (timeoutType (x.1.threads x.2), x.2)) ↔
    ∀ c ∈ calls, ∀ i ∈ c.1.expired sc, (c.1.threads i).state ≠ .blockedMutex := by
  rw [calls_timeouts hc, List.map_inj_left]
  constructor
  · intro h c hcall i hi
    have hmem : (c.1, i) ∈ expiries sc calls :=
      List.mem_flatMap.mpr ⟨c, hcall, List.mem_map_of_mem hi⟩
    exact timeoutType_eq.mp (Prod.ext_iff.mp (h (c.1, i) hmem)).1.symm
  · intro h x hx
    obtain ⟨c, hcall, hx⟩ := List.mem_flatMap.mp hx
    obtain ⟨i, hi, rfl⟩ := List.mem_map.mp hx
    rw [timeoutType_eq.mpr (h c hcall i hi)]

theorem truthful_calls_iff (hsc : sc.MutexSem) {trace : Trace} {calls : List (World × Int)}
    (hc : ∀ c ∈ calls, GoodCall sc c) (htrace : trace.entries = calls.flatMap (callLog sc)) :
    Truthful sc trace calls ↔ ∀ c ∈ calls, NoSlip sc c := by
  constructor
  · intro h c hcall
    refine ⟨fun r => ?_, (timeouts_iff hc).mp (htrace ▸ h.timeouts) c hcall⟩
    rw [← Bool.not_eq_true]
    intro hsignal
    obtain ⟨a, hact, htype, hr⟩ := signalCall_iff.mp hsignal
    have hsem : sc.IsResource r ∧ sc.resTypes r = .semaphore := by
      rcases hsc.acting (hc c hcall) hact with hfree | ⟨type, hop, _, hres, hdecl⟩
      · rw [htype] at hfree
        exact absurd hfree (by decide)
      · rw [htype] at hop
        exact hr ▸ ⟨hres, hdecl.trans (Option.some.inj hop).symm⟩
    -- Each signal counts twice in the trace and once in the run.
    have htwice := h.signals r hsem.1 hsem.2
    rw [htrace, calls_countP hsc hc (htrace ▸ h.noUseAfterFree)] at htwice
    have hpos : 0 < calls.countP (signalCall sc r) := List.countP_pos_iff.mpr ⟨c, hcall, hsignal⟩
    omega
  · intro h
    have hnone : ∀ e ∈ trace.entries, e.type.ofSemaphore = false := by
      intro e he
      rw [htrace] at he
      obtain ⟨c, hcall, he⟩ := List.mem_flatMap.mp he
      exact callLog_no_signal hsc (hc c hcall) (h c hcall).1 e he
    have hzero : ∀ type : EventType, type.ofSemaphore = true → ∀ r,
        trace.entries.countP (fun e => e.type = type ∧ e.resourceId = r) = 0 := by
      intro type htype r
      refine List.countP_eq_zero.mpr fun e he hsig => ?_
      have hthis := hnone e he
      rw [(of_decide_eq_true hsig).1, htype] at hthis
      exact absurd hthis (by decide)
    refine ⟨fun r _ _ => ?_, fun r _ _ => ?_, fun e he htype => ?_, ?_⟩
    · rw [hzero .semSignal rfl, List.countP_eq_zero.mpr fun c hcall => ?_]
      rw [(h c hcall).1 r]
      exact Bool.false_ne_true
    · rw [hzero .semWakeup rfl, List.filter_eq_nil_iff.mpr fun c hcall => ?_]
      · rfl
      · rw [(h c hcall).1 r]
        exact Bool.false_ne_true
    · have hthis := hnone e he
      rw [htype] at hthis
      exact absurd hthis (by decide)
    · rw [htrace]
      exact (timeouts_iff hc).mpr fun c hcall => (h c hcall).2

/-- **When the trace tells the truth**: in a run that neither fails nor fills the buffer, exactly when no call
signals a semaphore and no timed lock runs out. -/
theorem truthful_iff (hsc : sc.MutexSem) (e : Engine) {tids : List Int} (htids : ∀ t ∈ tids, sc.IsThread t)
    (hok : ((e.reset sc).executeSteps sc tids).failed = false)
    (hfull : ((e.reset sc).executeSteps sc tids).trace.truncated = false) :
    Truthful sc ((e.reset sc).executeSteps sc tids).trace (runCalls sc (e.reset sc).world tids) ↔
      ∀ c ∈ runCalls sc (e.reset sc).world tids, NoSlip sc c := by
  obtain ⟨_, htrace, hcalls⟩ := executeSteps_log hok hfull
  have hgood : ∀ c ∈ runCalls sc (e.reset sc).world tids, GoodCall sc c := fun c hc =>
    ⟨htids c.2 (hcalls c hc).1, (hcalls c hc).2⟩
  exact truthful_calls_iff hsc hgood htrace

/-- One thread waits, the other one signals. -/
theorem signalWait_mutexSem : signalWait.MutexSem := by
  intro t ht pc a hact
  have hsem : a.type.operand = some .semaphore ∧ signalWait.IsResource a.resourceId ∧
      signalWait.resTypes a.resourceId = .semaphore :=
    @forall_actionAt signalWait (fun _ a => a.type.operand = some .semaphore ∧
      signalWait.IsResource a.resourceId ∧ signalWait.resTypes a.resourceId = .semaphore)
      (by decide) t ht pc a hact
  exact .inr ⟨.semaphore, hsem.1, .inr rfl, hsem.2⟩

theorem truthful_iff_signalWait :
    Truthful signalWait ((Engine.zero.reset signalWait).executeSteps signalWait [0, 1]).trace
        (runCalls signalWait (Engine.zero.reset signalWait).world [0, 1]) ↔
      ∀ c ∈ runCalls signalWait (Engine.zero.reset signalWait).world [0, 1], NoSlip signalWait c :=
  truthful_iff signalWait_mutexSem .zero (by decide) (by rfl) (by rfl)

/-- One signal, and nobody waits: the trace tells of two. -/
theorem signalWait_not_truthful : ¬ ∀ sc : Scenario, sc.MutexSem → ∀ (e : Engine) (tids : List Int),
    (∀ t ∈ tids, sc.IsThread t) → ((e.reset sc).executeSteps sc tids).failed = false →
    ((e.reset sc).executeSteps sc tids).trace.truncated = false →
    Truthful sc ((e.reset sc).executeSteps sc tids).trace (runCalls sc (e.reset sc).world tids) := by
  intro h
  have htrue := h signalWait signalWait_mutexSem .zero [1] (by decide) (by rfl) (by rfl)
  have hcount := htrue.signals 0 (by decide) rfl
  exact absurd hcount (by decide +kernel)

/-- **The same of `smash_run_schedule`**, which is such a run. -/
theorem runSchedule_truthful_iff (hsc : sc.MutexSem) (e : Engine) (schedule : List Int)
    (hok : (runSchedule sc e schedule).1.failed = false)
    (hfull : (runSchedule sc e schedule).1.trace.truncated = false) :
    let calls := runCalls sc (e.reset sc).world ((calledSteps sc schedule (e.reset sc)).map (·.2))
    Truthful sc (runSchedule sc e schedule).1.trace calls ↔ ∀ c ∈ calls, NoSlip sc c := by
  obtain ⟨htids, hsame⟩ := runScheduleFrom_executeSteps 0 (SameLog.refl (e.reset sc)) hok
  obtain ⟨_, htrace, hcalls⟩ :=
    executeSteps_log (hsame.failed.symm.trans hok) (hsame.truncated.symm.trans hfull)
  have hentries := congrArg (fun es : LiveArray TraceEvent => es.toList.map TraceEvent.entry) hsame.events
  exact truthful_calls_iff hsc (fun c hc => ⟨htids c.2 (hcalls c hc).1, (hcalls c hc).2⟩)
    (hentries.trans htrace)

end Smash
