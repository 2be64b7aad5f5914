import Smash.Proof.Bounds
import Smash.Proof.Events
import Smash.Proof.Replay

/-!
# The recorded trace

The trace that `smash_explore` returns is that of the node at which the first bug was found
(`RecordedTrace`). The walk builds a node with the steps that the replay of its schedule takes
(`replaySteps_saved`), so the events of the trace are those that the replay logs, apart from the
`EVT_DEADLOCK` that only the explorer adds (`recordedTrace_replay`).

What a replay logs is `replayLog`, without the engine around it; the buffer holds as much of it as there is
room for (`runSchedule_entries`).
-/

set_option autoImplicit false

namespace Smash

variable {sc : Scenario}

/-! ## The replay and the node -/

/-- What the explorer would save of an engine. -/
def Engine.saved (e : Engine) : Saved := { world := e.world, trace := e.trace, stepCounter := e.stepCounter }

/-- The node that a schedule leads to. -/
def nodeAt (sc : Scenario) (s : List Int) : Saved := s.foldl (·.step sc) (rootNode sc)

theorem nodeAt_snoc (s : List Int) (t : Int) : nodeAt sc (s ++ [t]) = (nodeAt sc s).step sc t :=
  List.foldl_concat ..

theorem reset_engineInit_saved (hv : sc.Valid) : ((engineInit sc).reset sc).saved = rootNode sc := by
  have hworld := reset_engineInit_world hv
  rw [engineInit_of_valid hv] at hworld ⊢
  unfold Engine.saved rootNode
  rw [hworld]
  rfl

theorem replayStep_saved {e : Engine} (t : Int) (hroom : e.trace.schedule.count < smashMaxDepth) :
    (e.replayStep sc t).saved = e.saved.step sc t := by
  have hsaved : e.saved.trace.schedule.count < smashMaxDepth := hroom
  unfold Saved.step
  rw [if_pos hsaved]
  rfl

theorem replayStep_schedule (e : Engine) (t : Int) :
    (e.replayStep sc t).trace.schedule = e.trace.schedule.push t :=
  Trace.logAll_schedule ..

/-- **A replay builds the node that the walk builds.** -/
theorem replaySteps_saved {e : Engine} {s : List Int}
    (hroom : e.trace.schedule.count + s.length ≤ smashMaxDepth) :
    (e.replaySteps sc s).saved = s.foldl (·.step sc) e.saved := by
  induction s generalizing e with
  | nil => rfl
  | cons t s ih =>
    rw [List.length_cons] at hroom
    have hstep : (e.replayStep sc t).saved = e.saved.step sc t := replayStep_saved t (by omega)
    rw [List.foldl_cons, ← hstep]
    refine ih ?_
    rw [replayStep_schedule, LiveArray.count_push]
    omega

theorem replaySteps_fresh (hv : sc.Valid) {s : List Int} (hroom : s.length ≤ smashMaxDepth) :
    (((engineInit sc).reset sc).replaySteps sc s).saved = nodeAt sc s := by
  have hnone : ((engineInit sc).reset sc).trace.schedule.count = 0 := rfl
  rw [replaySteps_saved (by rwa [hnone, Nat.zero_add]), reset_engineInit_saved hv]
  rfl

theorem nodeAt_schedule {s : List Int} (hroom : s.length ≤ smashMaxDepth) : (nodeAt sc s).schedule = s := by
  induction s using List.reverseRecOn with
  | nil => rfl
  | append_singleton s t ih =>
    rw [List.length_append, List.length_singleton] at hroom
    rw [nodeAt_snoc, schedule_step t (by rw [ih (by omega)]; omega), ih (by omega)]

/-! ## What the explorer records -/

/-- The trace of a bug: a deadlock after a clean run, with the event that the explorer adds, or a clean run
and one more step that fails or leaves a state a check rejects. -/
inductive RecordedTrace (sc : Scenario) : Trace → Prop
  | deadlock {s : List Int} :
      s.length < smashMaxDepth → CleanRun sc s (nodeAt sc s).world →
      allDone sc (nodeAt sc s).world = false → Stuck sc (nodeAt sc s).world →
      RecordedTrace sc ((nodeAt sc s).trace.log (nodeAt sc s).stepCounter ⟨.deadlock, -1, -1, 0⟩)
  | violation {s : List Int} {t : Int} :
      s.length < smashMaxDepth → CleanRun sc s (nodeAt sc s).world → sc.Ready (nodeAt sc s).world t →
      stepFails sc (nodeAt sc s).world t = true → RecordedTrace sc (nodeAt sc (s ++ [t])).trace

/-- A node of the walk, and how it was built. -/
structure AtNode (sc : Scenario) (room depth : Nat) (n : Saved) : Prop where
  at_run : AtRun sc room depth n
  eq : n = nodeAt sc n.schedule

theorem AtNode.child {room depth : Nat} {n : Saved} {t : Int} (h : AtNode sc (room + 1) depth n)
    (hready : sc.Ready n.world t) (hok : stepFails sc n.world t = false) :
    AtNode sc room (depth + 1) (n.step sc t) := by
  refine ⟨h.at_run.child hready hok, ?_⟩
  rw [h.at_run.schedule_step t, nodeAt_snoc, ← h.eq]

theorem AtNode.deadlock {room depth : Nat} {n : Saved} (h : AtNode sc (room + 1) depth n)
    (hdone : allDone sc n.world = false) (hstuck : Stuck sc n.world) :
    RecordedTrace sc (n.trace.log n.stepCounter ⟨.deadlock, -1, -1, 0⟩) := by
  obtain ⟨hrun, heq⟩ := h
  have hlen : n.schedule.length < smashMaxDepth := by
    have := hrun.length
    have := hrun.room
    omega
  rw [heq] at hdone hstuck ⊢
  exact .deadlock hlen (heq ▸ hrun.run) hdone hstuck

theorem AtNode.violation {room depth : Nat} {n : Saved} {t : Int} (h : AtNode sc (room + 1) depth n)
    (hready : sc.Ready n.world t) (hfail : stepFails sc n.world t = true) :
    RecordedTrace sc (n.step sc t).trace := by
  obtain ⟨hrun, heq⟩ := h
  have hlen : n.schedule.length < smashMaxDepth := by
    have := hrun.length
    have := hrun.room
    omega
  have hnode : n.step sc t = nodeAt sc (n.schedule ++ [t]) := by rw [nodeAt_snoc, ← heq]
  rw [hnode]
  rw [heq] at hready hfail
  exact .violation hlen (heq ▸ hrun.run) hready hfail

/-- The trace that is kept, if there is one, is a recorded one. -/
def KeepsRecorded (sc : Scenario) (l : Ledger) : Prop :=
  ∀ trace, l.result.failingTrace = some trace → RecordedTrace sc trace

theorem KeepsRecorded.keepTrace {l : Ledger} {trace : Trace} (hl : KeepsRecorded sc l)
    (h : RecordedTrace sc trace) : KeepsRecorded sc (l.keepTrace trace) := by
  intro kept hkept
  change l.result.failingTrace.or (some trace) = some kept at hkept
  cases hold : l.result.failingTrace with
  | none =>
    rw [hold, Option.none_or] at hkept
    exact Option.some.inj hkept ▸ h
  | some old =>
    rw [hold, Option.some_or] at hkept
    exact Option.some.inj hkept ▸ hl old hold

theorem walkInv_keepsRecorded (sc : Scenario) (cfg : Config) :
    WalkInv sc cfg (AtNode sc) (KeepsRecorded sc) where
  child := AtNode.child
  hardGuard _ hl := hl
  depthLimit _ _ hl := hl
  interleaving _ _ hl := hl
  deadlock {_ _ n l} hn hdone hstuck hl :=
    KeepsRecorded.keepTrace (l := { l.visit n .deadlock with result := _ }) hl (hn.deadlock hdone hstuck)
  cached _ _ _ hl := hl
  expanded _ _ _ hl := by
    unfold Ledger.cacheMark
    split <;> exact hl
  violation {_ _ n l t} hn hready hfail hl :=
    KeepsRecorded.keepTrace (l := { l.visit (n.step sc t) .violation with result := _ }) hl
      (hn.violation hready hfail)
  pruned hl := by
    unfold Ledger.countPruned
    split <;> exact hl
  sleep hl := by
    unfold Ledger.sleep
    split <;> exact hl
  propagate hl := by
    unfold Ledger.propagate
    split <;> exact hl

/-- **What `smash_explore` returns** for an accepted scenario. -/
theorem explore_recordedTrace (hv : sc.Valid) (cfg : Config) (stack : Nat → Saved) {trace : Trace}
    (h : (explore sc cfg stack).failingTrace = some trace) : RecordedTrace sc trace := by
  rw [explore_eq hv] at h
  refine (walkInv_keepsRecorded sc cfg.clamp).walk hv _ _ _ _ ⟨atRun_root, rfl⟩ ?_ trace h
  exact fun _ hnone => absurd hnone (by simp [Ledger.init, Result.zero])

/-! ## What a replay logs -/

/-- An event without its stamp. -/
def TraceEvent.entry (e : TraceEvent) : LogEntry := ⟨e.type, e.tid, e.resourceId, e.arg⟩

/-- The entries in the buffer. -/
def Trace.entries (trace : Trace) : List LogEntry := trace.events.toList.map TraceEvent.entry

/-- The entries that the loop of `smash_run_schedule` logs from `w` on. -/
def replayLog (sc : Scenario) : World → List Int → List LogEntry
  | _, [] => []
  | w, t :: rest =>
    if allDone sc w then []
    else if t < 0 ∨ sc.threadCount ≤ t then []
    else
      let o := w.executeStep sc t
      o.log ++ if o.ret = false ∨ o.fault.isSome then [] else replayLog sc o.world rest

theorem length_entries (trace : Trace) : trace.entries.length = trace.events.count := by
  rw [Trace.entries, List.length_map, LiveArray.length_toList]

/-- Cutting off what comes before changes nothing that is left. -/
theorem take_append_take {α : Type} (front back : List α) (n : Nat) :
    (front.take n ++ back).take n = (front ++ back).take n := by
  cases Nat.le_total front.length n with
  | inl hle => rw [List.take_of_length_le hle]
  | inr hle =>
    have hlen : (front.take n).length = n := List.length_take_of_le hle
    rw [List.take_append_of_le_length (le_of_eq hlen.symm), List.take_append_of_le_length hle,
      List.take_take, Nat.min_self]

/-- The buffer takes what there is room for. -/
theorem log_entries {trace : Trace} (step : Nat) (e : LogEntry) (hroom : trace.events.count ≤ smashMaxTrace) :
    (trace.log step e).events.count ≤ smashMaxTrace ∧
      (trace.log step e).entries = (trace.entries ++ [e]).take smashMaxTrace := by
  unfold Trace.log
  split
  · rename_i hfull
    refine ⟨hroom, ?_⟩
    rw [List.take_append_of_le_length (by rwa [length_entries]),
      List.take_of_length_le (by rwa [length_entries])]
    rfl
  · rename_i hspace
    refine ⟨by rw [LiveArray.count_push]; omega, ?_⟩
    rw [List.take_of_length_le (by rw [List.length_append, length_entries, List.length_singleton]; omega)]
    simp [Trace.entries, TraceEvent.entry]

theorem logAll_entries {trace : Trace} (step : Nat) (es : List LogEntry)
    (hroom : trace.events.count ≤ smashMaxTrace) :
    (trace.logAll step es).events.count ≤ smashMaxTrace ∧
      (trace.logAll step es).entries = (trace.entries ++ es).take smashMaxTrace := by
  induction es generalizing trace with
  | nil =>
    refine ⟨hroom, ?_⟩
    rw [List.append_nil, List.take_of_length_le (by rwa [length_entries])]
    rfl
  | cons e es ih =>
    obtain ⟨hroom, hone⟩ := log_entries step e hroom
    obtain ⟨hafter, hrest⟩ := ih hroom
    refine ⟨hafter, ?_⟩
    calc ((trace.log step e).logAll step es).entries
        = ((trace.log step e).entries ++ es).take smashMaxTrace := hrest
      _ = ((trace.entries ++ [e]).take smashMaxTrace ++ es).take smashMaxTrace := by rw [hone]
      _ = (trace.entries ++ [e] ++ es).take smashMaxTrace := take_append_take ..
      _ = (trace.entries ++ e :: es).take smashMaxTrace := by rw [List.append_assoc, List.singleton_append]

theorem replayStep_entries {e : Engine} (t : Int) (hroom : e.trace.events.count ≤ smashMaxTrace) :
    (e.replayStep sc t).trace.events.count ≤ smashMaxTrace ∧
      (e.replayStep sc t).trace.entries =
        (e.trace.entries ++ (e.world.executeStep sc t).log).take smashMaxTrace :=
  @logAll_entries { e.trace with schedule := e.trace.schedule.push t } e.stepCounter
    (e.world.executeStep sc t).log hroom

/-- **What a replay leaves in the buffer.** -/
theorem runScheduleFrom_entries {s : List Int} (i : Nat) {e : Engine} (hfailed : e.failed = false)
    (hroom : e.trace.events.count ≤ smashMaxTrace) :
    (runScheduleFrom sc i s e).1.trace.entries =
      (e.trace.entries ++ replayLog sc e.world s).take smashMaxTrace := by
  have hkeep : ∀ {e : Engine}, e.trace.events.count ≤ smashMaxTrace →
      e.trace.entries = (e.trace.entries ++ []).take smashMaxTrace := fun {e} hroom => by
    rw [List.append_nil, List.take_of_length_le (by rwa [length_entries])]
  induction s generalizing i e with
  | nil => exact hkeep hroom
  | cons t rest ih =>
    by_cases hdone : allDone sc e.world = true
    · rw [runScheduleFrom, replayLog, if_pos hdone, if_pos hdone]
      exact hkeep hroom
    by_cases hrange : t < 0 ∨ sc.threadCount ≤ t
    · rw [runScheduleFrom, replayLog, if_neg hdone, if_neg hdone, if_pos hrange, if_pos hrange]
      exact hkeep hroom
    rw [runScheduleFrom_called i rest hdone hrange, replayLog, if_neg hdone, if_neg hrange]
    dsimp only
    obtain ⟨hafter, hone⟩ := @replayStep_entries sc e t hroom
    have hnext : (e.replayStep sc t).failed = (e.world.executeStep sc t).fault.isSome := by
      rw [replayStep_failed, hfailed, Bool.false_or]
    rw [hnext]
    by_cases hret : (e.world.executeStep sc t).ret = false
    · rw [if_pos hret, if_pos (.inl hret), List.append_nil]
      exact hone
    by_cases hfault : (e.world.executeStep sc t).fault.isSome = true
    · rw [if_neg hret, if_pos hfault, if_pos (.inr hfault), List.append_nil]
      exact hone
    · rw [if_neg hret, if_neg hfault, if_neg (not_or.mpr ⟨hret, hfault⟩)]
      have hok : (e.replayStep sc t).failed = false := hnext.trans (Bool.not_eq_true _ ▸ hfault)
      calc (runScheduleFrom sc (i + 1) rest (e.replayStep sc t)).1.trace.entries
          = ((e.replayStep sc t).trace.entries
              ++ replayLog sc (e.replayStep sc t).world rest).take smashMaxTrace := ih (i + 1) hok hafter
        _ = (e.trace.entries ++ (e.world.executeStep sc t).log
              ++ replayLog sc (e.world.executeStep sc t).world rest).take smashMaxTrace := by
            rw [hone, take_append_take, replayStep_world]
        _ = _ := by rw [List.append_assoc]

theorem runSchedule_entries (hv : sc.Valid) (s : List Int) :
    (runSchedule sc (engineInit sc) s).1.trace.entries =
      (replayLog sc (startWorld sc) s).take smashMaxTrace := by
  have hfresh : ((engineInit sc).reset sc).failed = false := rfl
  rw [runSchedule, runScheduleFrom_entries 0 hfresh (Nat.zero_le _), reset_engineInit_world hv]
  rfl

/-! ## Schedules that are executed to the end -/

/-- Every entry is a READY thread's, and only the last step may fail. -/
inductive Executed (sc : Scenario) : World → List Int → Prop
  | nil (w : World) : Executed sc w []
  | last {w : World} {t : Int} : sc.Ready w t → Executed sc w [t]
  | cons {w : World} {t : Int} {rest : List Int} :
      sc.Ready w t → (w.executeStep sc t).fault = none → Executed sc (w.executeStep sc t).world rest →
      Executed sc w (t :: rest)

theorem executed_of_clean {w w' : World} {s rest : List Int} (h : (cleanSystem sc).Run w s w')
    (hrest : Executed sc w' rest) : Executed sc w (s ++ rest) := by
  induction h with
  | nil => exact hrest
  | cons hst _ ih =>
    obtain ⟨hready, hok, rfl⟩ := hst
    exact .cons hready (fault_eq_none_of_not_fails hok) (ih hrest)

theorem replayLog_cons {w : World} {t : Int} (rest : List Int) (h : sc.Ready w t) :
    replayLog sc w (t :: rest) = (w.executeStep sc t).log ++
      if (w.executeStep sc t).fault.isSome then [] else replayLog sc (w.executeStep sc t).world rest := by
  have hrange : ¬ (t < 0 ∨ sc.threadCount ≤ t) := by
    have := h.1
    unfold Scenario.IsThread at this
    omega
  rw [replayLog, not_allDone_of_ready h, if_neg Bool.false_ne_true, if_neg hrange]
  cases hfault : (w.executeStep sc t).fault with
  | none => simp [executeStep_ret h.2 hfault, hfault]
  | some msg => simp [hfault]

section rules

variable {I : World → Prop}

/-- What every step logs, a replay logs, … -/
theorem Executed.forall_log {P : LogEntry → Prop}
    (hlog : ∀ w t, I w → sc.Ready w t → ∀ e ∈ (w.executeStep sc t).log, P e)
    (hkeep : ∀ w t, I w → sc.Ready w t → (w.executeStep sc t).fault = none → I (w.executeStep sc t).world)
    {w : World} {s : List Int} (h : Executed sc w s) (hw : I w) : ∀ e ∈ replayLog sc w s, P e := by
  induction h with
  | nil => exact fun e he => absurd he List.not_mem_nil
  | @last w t hready =>
    intro e he
    rw [replayLog_cons [] hready] at he
    rcases List.mem_append.mp he with he | he
    · exact hlog w t hw hready e he
    · split at he
      · exact absurd he List.not_mem_nil
      · exact absurd he List.not_mem_nil
  | @cons w t rest hready hok _ ih =>
    intro e he
    rw [replayLog_cons rest hready, hok] at he
    rcases List.mem_append.mp he with he | he
    · exact hlog w t hw hready e he
    · exact ih (hkeep w t hw hready hok) e he

/-- … and a bound on the log of a step bounds that of a replay. -/
theorem Executed.length_log_le {b : Nat}
    (hlog : ∀ w t, I w → sc.Ready w t → (w.executeStep sc t).log.length ≤ b)
    (hkeep : ∀ w t, I w → sc.Ready w t → (w.executeStep sc t).fault = none → I (w.executeStep sc t).world)
    {w : World} {s : List Int} (h : Executed sc w s) (hw : I w) :
    (replayLog sc w s).length ≤ s.length * b := by
  induction h with
  | nil => exact Nat.zero_le _
  | @last w t hready =>
    have hone := hlog w t hw hready
    have hend : replayLog sc w [t] = (w.executeStep sc t).log := by
      rw [replayLog_cons [] hready]
      split
      · rw [List.append_nil]
      · rw [replayLog, List.append_nil]
    rw [hend, List.length_singleton, Nat.one_mul]
    exact hone
  | @cons w t rest hready hok _ ih =>
    have hone := hlog w t hw hready
    have hrest := ih (hkeep w t hw hready hok)
    rw [replayLog_cons rest hready, hok, List.length_append, List.length_cons, Nat.succ_mul]
    simp only [Option.isSome_none, if_neg Bool.false_ne_true]
    omega

end rules

/-! ## The buffer is large enough -/

/-- No queue is longer than its array, not even that of the resource `-1`. -/
def QueuesFit (w : World) : Prop := ∀ r, (w.resources r).waiters.count ≤ smashMaxWaiters

theorem queuesFit_start (sc : Scenario) : QueuesFit (startWorld sc) := by
  intro r
  unfold startWorld World.reset
  dsimp only
  split
  · exact Nat.zero_le _
  · exact Nat.zero_le _

theorem QueuesFit.tick {w : World} (h : QueuesFit w) : QueuesFit (w.tick sc).1 := by
  intro r
  rw [tick_resources]
  exact h r

theorem QueuesFit.step {w : World} {t : Int} (h : QueuesFit w) (hok : (w.executeStep sc t).fault = none) :
    QueuesFit (w.executeStep sc t).world := by
  rcases executeStep_cases hok with ⟨_, hworld⟩ | ⟨_, _, hworld⟩ | ⟨a, _, _, _, hfault, hworld⟩
  · rw [hworld]
    exact h.tick
  · rw [hworld]
    exact h.tick
  · rw [hworld]
    exact fun r => (dispatch_act hfault).queue_le (h.tick r)

theorem length_wakeAll (r : Int) (n : Nat) (w : World) : (wakeAll r n w).2.length = n := by
  induction n generalizing w with
  | zero => rfl
  | succ n ih => rw [wakeAll, List.length_cons, ih]

theorem length_handOver_le (w : World) (r : Int) : (handOver w r).2.length ≤ 1 := by
  unfold handOver
  split
  · exact le_rfl
  · exact Nat.zero_le _

theorem length_mbBlock_le (w : World) (tid r msg : Int) : (mbBlock w tid r msg).log.length ≤ 1 := by
  unfold mbBlock
  split
  · exact Nat.zero_le _
  · exact le_rfl

/-- An action reports no more events than threads can wait. -/
theorem length_dispatch_le {w : World} {tid : Int} {a : Action} (h : QueuesFit w) :
    (w.dispatch sc tid a).log.length ≤ smashMaxWaiters := by
  obtain ⟨type, r, arg⟩ := a
  have hmax : smashMaxWaiters = 16 := rfl
  cases type with
  | mutexLock | mutexTimedLock | semWait | semTimedWait | condWait =>
    simp only [World.dispatch, Outcome.finish_log, Outcome.advanceIfTrue_log, Outcome.armTimeout_log,
      mutexLock, semWait, condWait]
    split_ifs <;> simp [Outcome.fail, Outcome.ok, hmax]
  | mutexUnlock =>
    simp only [World.dispatch, Outcome.finish_log, Outcome.mapWorld_log, mutexUnlock]
    split
    · simp [Outcome.fail, hmax]
    split
    · simp [Outcome.fail, hmax]
    split
    · simp [Outcome.fail, hmax]
    · simp only [Outcome.ok, List.length_cons]
      exact le_trans (Nat.succ_le_succ (length_handOver_le _ r)) (by simp [hmax])
  | semSignal | condSignal =>
    simp only [World.dispatch, Outcome.finish_log, Outcome.mapWorld_log, semSignal, condSignal]
    split_ifs <;> simp [Outcome.fail, Outcome.ok, hmax]
  | condBroadcast =>
    simp only [World.dispatch, Outcome.finish_log, Outcome.mapWorld_log, condBroadcast]
    split_ifs
    · simp [Outcome.fail, hmax]
    · refine le_trans (le_of_eq (length_wakeAll ..)) (h r)
  | mbPost | mbPostFront | mbFetch =>
    simp only [World.dispatch, Outcome.finish_log, Outcome.advanceIfTrue_log, mbPost, mbPostFront, mbFetch]
    split_ifs
    all_goals first
      | exact le_trans (length_mbBlock_le ..) (by simp [hmax])
      | simp [Outcome.fail, Outcome.ok, hmax]
  | done | sysUnlock | isrEnter | isrExit | objectDestroy | call =>
    simp only [World.dispatch, actDone, actSysUnlock, actIsrEnter, actIsrExit, actObjectDestroy, actCall]
    split_ifs <;> simp [Outcome.fail, Outcome.ok, Outcome.finish, hmax]
  | nop | yield | sysLock | objectInit | ret | condWaitTimeout | mbPostTimeout | mbFetchTimeout =>
    simp [World.dispatch, actSysLock, actObjectInit, actReturn, Outcome.ok, Outcome.finish, hmax]

/-- A step logs the countdowns, the thread and its report. -/
theorem length_executeStep_le (hv : sc.Valid) {w : World} {t : Int} (h : QueuesFit w) (hready : sc.Ready w t) :
    (w.executeStep sc t).log.length ≤ smashMaxThreads + (smashMaxWaiters + 1) := by
  have hexpired : (w.expired sc).length ≤ smashMaxThreads := by
    refine le_trans (List.length_filter_le ..) ?_
    have hthreads := hv.bounds.threadCount_le
    rw [Scenario.threadIds, length_upTo]
    simp only [smashMaxThreads]
    omega
  have hreport : ((w.tick sc).1.report sc t).length ≤ smashMaxWaiters := by
    unfold World.report
    split
    · exact Nat.zero_le _
    · exact length_dispatch_le h.tick
  rw [executeStep_log hv (ready_tick hready), tick_log, List.length_append, List.length_map, List.length_cons]
  exact Nat.add_le_add hexpired (Nat.succ_le_succ hreport)

/-- **No recorded trace is truncated.** -/
theorem length_replayLog_lt (hv : sc.Valid) {s : List Int} (h : Executed sc (startWorld sc) s)
    (hlen : s.length ≤ smashMaxDepth) : (replayLog sc (startWorld sc) s).length < smashMaxTrace := by
  have hbound : (replayLog sc (startWorld sc) s).length ≤
      s.length * (smashMaxThreads + (smashMaxWaiters + 1)) :=
    h.length_log_le (fun w t hw hready => length_executeStep_le hv hw hready)
      (fun w t hw _ hok => hw.step hok) (queuesFit_start sc)
  have hall := Nat.mul_le_mul_right (smashMaxThreads + (smashMaxWaiters + 1)) hlen
  simp only [smashMaxThreads, smashMaxWaiters, smashMaxDepth, smashMaxTrace] at hbound hall ⊢
  omega

/-! ## The deadlock event -/

/-- The last event is an `EVT_DEADLOCK`. -/
def Trace.EndsDeadlocked (trace : Trace) : Prop :=
  trace.events.toList.getLast?.map (·.type) = some .deadlock

instance (trace : Trace) : Decidable trace.EndsDeadlocked := inferInstanceAs (Decidable (_ = _))

/-- The events, apart from a final `EVT_DEADLOCK`. -/
def Trace.stepEvents (trace : Trace) : List TraceEvent :=
  if trace.EndsDeadlocked then trace.events.toList.dropLast else trace.events.toList

theorem stepEvents_congr {trace trace' : Trace} (h : trace'.events = trace.events) :
    trace'.stepEvents = trace.stepEvents := by
  have hends : trace'.EndsDeadlocked ↔ trace.EndsDeadlocked := by
    unfold Trace.EndsDeadlocked
    rw [h]
  unfold Trace.stepEvents
  rw [h]
  exact if_congr hends rfl rfl

theorem not_endsDeadlocked {trace : Trace} (h : ∀ e ∈ trace.entries, e.type ≠ .deadlock) :
    ¬ trace.EndsDeadlocked := by
  intro hlast
  obtain ⟨e, he, htype⟩ := Option.map_eq_some_iff.mp hlast
  exact h e.entry (List.mem_map_of_mem (List.mem_of_getLast? he)) htype

theorem stepEvents_of_forall {trace : Trace} (h : ∀ e ∈ trace.entries, e.type ≠ .deadlock) :
    trace.stepEvents = trace.events.toList := by
  unfold Trace.stepEvents
  rw [if_neg (not_endsDeadlocked h)]

theorem stepEvents_log_deadlock {trace : Trace} (step : Nat) (h : ∀ e ∈ trace.entries, e.type ≠ .deadlock) :
    (trace.log step ⟨.deadlock, -1, -1, 0⟩).stepEvents = trace.events.toList := by
  unfold Trace.log
  split
  · exact @stepEvents_of_forall { trace with truncated := true } h
  · simp [Trace.stepEvents, Trace.EndsDeadlocked]

/-- No step logs a deadlock. -/
theorem executeStep_ne_deadlock (hv : sc.Valid) {w : World} {t : Int} (h : sc.Ready w t) :
    ∀ e ∈ (w.executeStep sc t).log, e.type ≠ .deadlock := by
  intro e he
  rw [executeStep_log hv (ready_tick h), tick_log] at he
  rcases List.mem_append.mp he with he | he
  · obtain ⟨i, _, rfl⟩ := List.mem_map.mp he
    simp
  rcases List.mem_cons.mp he with rfl | he
  · unfold World.opening
    split <;> simp
  · unfold World.report at he
    split at he
    · exact absurd he List.not_mem_nil
    · rename_i a _
      have htype := (dispatch_reports _ t a e he).type
      intro hd
      rw [hd] at htype
      revert htype
      cases a.type <;> simp [ActionType.reports]

/-! ## The recorded trace and its replay -/

theorem RecordedTrace.executed {trace : Trace} (h : RecordedTrace sc trace) :
    Executed sc (startWorld sc) trace.schedule.toList := by
  cases h with
  | @deadlock s hlen hrun _ _ =>
    have hsched : (nodeAt sc s).trace.schedule.toList = s := nodeAt_schedule (Nat.le_of_lt hlen)
    rw [Trace.log_schedule, hsched, ← List.append_nil s]
    exact executed_of_clean hrun (.nil _)
  | @violation s t hlen hrun hready _ =>
    have hsched : (nodeAt sc (s ++ [t])).trace.schedule.toList = s ++ [t] :=
      nodeAt_schedule (by rw [List.length_append, List.length_singleton]; omega)
    rw [hsched]
    exact executed_of_clean hrun (.last hready)

theorem RecordedTrace.length_le {trace : Trace} (h : RecordedTrace sc trace) :
    trace.schedule.toList.length ≤ smashMaxDepth := by
  cases h with
  | @deadlock s hlen _ _ _ =>
    have hsched : (nodeAt sc s).trace.schedule.toList = s := nodeAt_schedule (Nat.le_of_lt hlen)
    rw [Trace.log_schedule, hsched]
    exact Nat.le_of_lt hlen
  | @violation s t hlen _ _ _ =>
    have hroom : (s ++ [t]).length ≤ smashMaxDepth := by
      rw [List.length_append, List.length_singleton]
      omega
    have hsched : (nodeAt sc (s ++ [t])).trace.schedule.toList = s ++ [t] := nodeAt_schedule hroom
    rw [hsched]
    exact hroom

/-- The trace that the replay of a clean run leaves is the node's. -/
theorem runSchedule_trace_of_clean (hv : sc.Valid) {s : List Int} (hroom : s.length ≤ smashMaxDepth)
    (hrun : CleanRun sc s (nodeAt sc s).world) :
    (runSchedule sc (engineInit sc) s).1.trace = (nodeAt sc s).trace := by
  have hfresh : ((engineInit sc).reset sc).failed = false := rfl
  obtain ⟨_, _, hreplay⟩ := runScheduleFrom_clean hrun (reset_engineInit_world hv) hfresh
  have hend := hreplay 0 []
  rw [List.append_nil, runScheduleFrom] at hend
  rw [runSchedule, hend]
  exact congrArg Saved.trace (replaySteps_fresh hv hroom)

theorem runSchedule_trace_of_last (hv : sc.Valid) {s : List Int} {t : Int}
    (hroom : (s ++ [t]).length ≤ smashMaxDepth) (hrun : CleanRun sc s (nodeAt sc s).world)
    (hready : sc.Ready (nodeAt sc s).world t) :
    (runSchedule sc (engineInit sc) (s ++ [t])).1.trace = (nodeAt sc (s ++ [t])).trace := by
  have hfresh : ((engineInit sc).reset sc).failed = false := rfl
  obtain ⟨hworld, _, hreplay⟩ := runScheduleFrom_clean hrun (reset_engineInit_world hv) hfresh
  have hlast := runScheduleFrom_single (0 + s.length) (hworld ▸ hready)
  rw [runSchedule, hreplay 0 [t], hlast, ← replaySteps_fresh hv hroom]
  exact congrArg (·.trace) (List.foldl_concat (fun e t => Engine.replayStep sc e t) _ t s).symm

/-- **What the explorer records is what the replay logs**, up to the event of a deadlock. -/
theorem recordedTrace_replay (hv : sc.Valid) {trace : Trace} (h : RecordedTrace sc trace) :
    trace.stepEvents =
      (runSchedule sc (engineInit sc) trace.schedule.toList).1.trace.events.toList := by
  have hnone : ∀ e ∈ (runSchedule sc (engineInit sc) trace.schedule.toList).1.trace.entries,
      e.type ≠ .deadlock := by
    intro e he
    rw [runSchedule_entries hv] at he
    exact h.executed.forall_log (I := fun _ => True)
      (fun w t _ hready => executeStep_ne_deadlock hv hready) (fun _ _ _ _ _ => trivial) trivial
      e (List.mem_of_mem_take he)
  cases h with
  | @deadlock s hlen hrun _ _ =>
    have hsched : (nodeAt sc s).trace.schedule.toList = s := nodeAt_schedule (Nat.le_of_lt hlen)
    rw [Trace.log_schedule, hsched, runSchedule_trace_of_clean hv (Nat.le_of_lt hlen) hrun] at hnone ⊢
    exact stepEvents_log_deadlock _ hnone
  | @violation s t hlen hrun hready _ =>
    have hroom : (s ++ [t]).length ≤ smashMaxDepth := by
      rw [List.length_append, List.length_singleton]
      omega
    have hsched : (nodeAt sc (s ++ [t])).trace.schedule.toList = s ++ [t] := nodeAt_schedule hroom
    rw [hsched, runSchedule_trace_of_last hv hroom hrun hready] at hnone ⊢
    exact stepEvents_of_forall hnone

end Smash
