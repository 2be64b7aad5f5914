import Smash.Proof.Recorded

/-!
# The events tell the schedule

A trace holds its schedule twice, as the list of the threads and in its events. A step begins with an
`EVT_SCHEDULE`, stamped with the number of actions before it; a thread that has no action left is told by an
`EVT_THREAD_DONE` alone, which has the stamp of the next action, since `smash_execute_step` returns there without
counting. `ACT_DONE` logs an `EVT_THREAD_DONE` too, with the stamp of its own `EVT_SCHEDULE`. A reader who keeps
that stamp in mind can tell the two apart (`Reader`), and what such a reader finds in a recorded trace is the
schedule (`schedule_read_back`).
-/

set_option autoImplicit false

namespace Smash

variable {sc : Scenario}

/-! ## A reader of the events -/

/-- What a reader knows: the stamp of the last `EVT_SCHEDULE`, and the threads that have run. -/
structure Reader where
  last : Option Nat
  schedule : List Int

def Reader.start : Reader := ⟨none, []⟩

/-- Read one event. -/
def Reader.read (r : Reader) (e : TraceEvent) : Reader :=
  match e.type with
  | .schedule => ⟨some e.step, r.schedule ++ [e.tid]⟩
  | .threadDone => if r.last = some e.step then r else ⟨r.last, r.schedule ++ [e.tid]⟩
  | _ => r

/-- The schedule, from the events alone. -/
def readSchedule (es : List TraceEvent) : List Int := (es.foldl Reader.read .start).schedule

theorem Reader.read_quiet (r : Reader) {e : TraceEvent} (hs : e.type ≠ .schedule) (hd : e.type ≠ .threadDone) :
    r.read e = r := by
  unfold Reader.read
  split
  · exact absurd ‹_› hs
  · exact absurd ‹_› hd
  · rfl

theorem Reader.foldl_quiet (r : Reader) {es : List TraceEvent}
    (h : ∀ e ∈ es, e.type ≠ .schedule ∧ e.type ≠ .threadDone) : es.foldl Reader.read r = r := by
  induction es with
  | nil => rfl
  | cons e es ih =>
    obtain ⟨⟨hs, hd⟩, hrest⟩ := List.forall_mem_cons.mp h
    rw [List.foldl_cons, r.read_quiet hs hd, ih hrest]

/-- What an action reports, the reader books on the `EVT_SCHEDULE` before it. -/
theorem Reader.foldl_report {r : Reader} {k : Nat} (hlast : r.last = some k) {es : List TraceEvent}
    (h : ∀ e ∈ es, e.step = k ∧ e.type ≠ .schedule) : es.foldl Reader.read r = r := by
  induction es with
  | nil => rfl
  | cons e es ih =>
    obtain ⟨⟨hstep, hs⟩, hrest⟩ := List.forall_mem_cons.mp h
    have hread : r.read e = r := by
      by_cases hd : e.type = .threadDone
      · unfold Reader.read
        rw [hd]
        exact if_pos (by rw [hlast, hstep])
      · exact r.read_quiet hs hd
    rw [List.foldl_cons, hread, ih hrest]

/-! ## Events that tell a schedule -/

/-- An `EVT_SCHEDULE`. -/
def TraceEvent.schedules (e : TraceEvent) : Bool := e.type = .schedule

/-- The stamp of the last of `k` actions. -/
def lastStamp : Nat → Option Nat
  | 0 => none
  | k + 1 => some k

theorem lastStamp_ne (k : Nat) : lastStamp k ≠ some k := by
  cases k with
  | zero => exact nofun
  | succ k => exact fun h => absurd (Option.some.inj h) (by omega)

/-- The events of a run of `k` actions after the schedule `s`. -/
structure Tells (es : List TraceEvent) (s : List Int) (k : Nat) : Prop where
  reads : es.foldl Reader.read .start = ⟨lastStamp k, s⟩
  stamps : ∀ e ∈ es, e.step ≤ k
  sorted : es.Pairwise (·.step ≤ ·.step)
  actions : (es.filter TraceEvent.schedules).map (·.step) = List.range k

theorem Tells.nil : Tells [] [] 0 := ⟨rfl, fun _ he => absurd he List.not_mem_nil, .nil, rfl⟩

/-- Events that are not scheduling come behind. -/
theorem Tells.sorted_append {es es' : List TraceEvent} {s : List Int} {k : Nat} (h : Tells es s k)
    (hes' : ∀ e ∈ es', e.step = k) : (es ++ es').Pairwise (·.step ≤ ·.step) := by
  refine List.pairwise_append.mpr ⟨h.sorted, ?_, fun e he e' he' => (hes' e' he') ▸ h.stamps e he⟩
  exact List.pairwise_of_forall_mem_list fun e he e' he' => by rw [hes' e he, hes' e' he']

theorem Tells.quiet {es es' : List TraceEvent} {s : List Int} {k : Nat} (h : Tells es s k)
    (hes' : ∀ e ∈ es', e.step = k ∧ e.type ≠ .schedule ∧ e.type ≠ .threadDone) : Tells (es ++ es') s k where
  reads := by rw [List.foldl_append, h.reads, Reader.foldl_quiet _ fun e he => (hes' e he).2]
  stamps e he := by
    rcases List.mem_append.mp he with he | he
    · exact h.stamps e he
    · exact Nat.le_of_eq (hes' e he).1
  sorted := h.sorted_append fun e he => (hes' e he).1
  actions := by
    have hnone : es'.filter TraceEvent.schedules = [] :=
      List.filter_eq_nil_iff.mpr fun e he => by simp [TraceEvent.schedules, (hes' e he).2.1]
    rw [List.filter_append, hnone, List.append_nil, h.actions]

/-- A thread that has no action left. -/
theorem Tells.ended {es : List TraceEvent} {s : List Int} {k : Nat} (h : Tells es s k) {e : TraceEvent}
    (hstep : e.step = k) (htype : e.type = .threadDone) : Tells (es ++ [e]) (s ++ [e.tid]) k where
  reads := by
    rw [List.foldl_append, h.reads, List.foldl_cons, List.foldl_nil]
    unfold Reader.read
    rw [htype, hstep]
    exact if_neg (lastStamp_ne k)
  stamps e' he := by
    rcases List.mem_append.mp he with he | he
    · exact h.stamps e' he
    · rw [List.mem_singleton.mp he, hstep]
  sorted := h.sorted_append fun e' he => by rw [List.mem_singleton.mp he, hstep]
  actions := by
    have hnone : [e].filter TraceEvent.schedules = [] := by simp [TraceEvent.schedules, htype]
    rw [List.filter_append, hnone, List.append_nil, h.actions]

/-- A thread that runs an action, with what the action reports. -/
theorem Tells.acted {es es' : List TraceEvent} {s : List Int} {k : Nat} (h : Tells es s k) {e : TraceEvent}
    (hstep : e.step = k) (htype : e.type = .schedule) (hes' : ∀ e' ∈ es', e'.step = k ∧ e'.type ≠ .schedule) :
    Tells (es ++ e :: es') (s ++ [e.tid]) (k + 1) where
  reads := by
    have hread : Reader.read ⟨lastStamp k, s⟩ e = ⟨some k, s ++ [e.tid]⟩ := by
      unfold Reader.read
      rw [htype, hstep]
    rw [List.foldl_append, h.reads, List.foldl_cons, hread]
    exact Reader.foldl_report rfl hes'
  stamps e' he := by
    rcases List.mem_append.mp he with he | he
    · exact Nat.le_succ_of_le (h.stamps e' he)
    rcases List.mem_cons.mp he with rfl | he
    · omega
    · have := (hes' e' he).1
      omega
  sorted := h.sorted_append fun e' he => by
    rcases List.mem_cons.mp he with rfl | he
    · exact hstep
    · exact (hes' e' he).1
  actions := by
    have hnone : es'.filter TraceEvent.schedules = [] :=
      List.filter_eq_nil_iff.mpr fun e' he => by simp [TraceEvent.schedules, (hes' e' he).2]
    have hone : e.schedules = true := by simp [TraceEvent.schedules, htype]
    rw [List.filter_append, List.filter_cons_of_pos hone, hnone, List.map_append, h.actions, List.range_succ,
      List.map_singleton, hstep]

/-! ## What a step leaves in the buffer -/

/-- An entry with its stamp. -/
def LogEntry.stamp (step : Nat) (e : LogEntry) : TraceEvent := ⟨step, e.type, e.tid, e.resourceId, e.arg⟩

theorem logAll_events {trace : Trace} (step : Nat) {es : List LogEntry}
    (hroom : trace.events.count + es.length ≤ smashMaxTrace) :
    (trace.logAll step es).events.toList = trace.events.toList ++ es.map (LogEntry.stamp step) := by
  induction es generalizing trace with
  | nil => exact (List.append_nil _).symm
  | cons e es ih =>
    rw [List.length_cons] at hroom
    have hlog : (trace.log step e).events = trace.events.push (e.stamp step) := by
      unfold Trace.log
      rw [if_neg (by omega)]
      rfl
    change ((trace.log step e).logAll step es).events.toList = _
    rw [ih (by rw [hlog, LiveArray.count_push]; omega), hlog, LiveArray.toList_push, List.append_assoc]
    rfl

theorem count_logAll {trace : Trace} (step : Nat) {es : List LogEntry}
    (hroom : trace.events.count + es.length ≤ smashMaxTrace) :
    (trace.logAll step es).events.count = trace.events.count + es.length := by
  have hlist := congrArg List.length (logAll_events step hroom)
  rwa [List.length_append, List.length_map, LiveArray.length_toList, LiveArray.length_toList] at hlist

/-- The events that a step adds. -/
def Saved.adds (sc : Scenario) (n : Saved) (t : Int) : List TraceEvent :=
  (n.world.executeStep sc t).log.map (LogEntry.stamp n.stepCounter)

theorem step_events {n : Saved} {t : Int}
    (hroom : n.trace.events.count + (n.world.executeStep sc t).log.length ≤ smashMaxTrace) :
    (n.step sc t).trace.events.toList = n.trace.events.toList ++ n.adds sc t ∧
      (n.step sc t).trace.events.count = n.trace.events.count + (n.world.executeStep sc t).log.length := by
  unfold Saved.step
  dsimp only
  split
  · exact ⟨logAll_events _ hroom, count_logAll _ hroom⟩
  · exact ⟨logAll_events _ hroom, count_logAll _ hroom⟩

/-- Every action that does not fail is counted. -/
theorem dispatch_counted {w : World} {tid : Int} {a : Action} (h : (w.dispatch sc tid a).fault = none) :
    (w.dispatch sc tid a).counted = true := by
  obtain ⟨type, r, arg⟩ := a
  cases type with
  | done =>
    simp only [World.dispatch, actDone]
    split <;> rfl
  | sysUnlock | isrEnter | isrExit | objectDestroy | call =>
    simp only [World.dispatch, actSysUnlock, actIsrEnter, actIsrExit, actObjectDestroy, actCall] at h ⊢
    split at h
    · exact absurd h (by simp)
    · rw [if_neg ‹_›]
      rfl
  | _ => rfl

/-- A step counts the action, if there is one. -/
theorem executeStep_counted {w : World} {t : Int} (h : sc.Ready w t)
    (hok : (w.executeStep sc t).fault = none) :
    (w.executeStep sc t).counted = (sc.actionAt t ((w.tick sc).1.threads t).pc).isSome := by
  have hready := (ready_tick h).2
  unfold World.executeStep World.runThread at hok ⊢
  simp only [hready, ne_eq, not_true_eq_false, if_false, Outcome.afterLog_fault] at hok ⊢
  cases hact : sc.actionAt t ((w.tick sc).1.threads t).pc with
  | none => rfl
  | some a =>
    rw [hact] at hok
    dsimp only at hok ⊢
    split at hok
    · exact absurd hok (by simp)
    · rw [if_neg ‹_›]
      exact dispatch_counted hok

/-- No action reports that a thread is scheduled. -/
theorem ActionType.reports_schedule (a : ActionType) : EventType.schedule ∉ a.reports := by
  cases a <;> decide

/-- **A step tells its thread.** -/
theorem Tells.step (hv : sc.Valid) {n : Saved} {s : List Int} {t : Int}
    (h : Tells n.trace.events.toList s n.stepCounter) (hready : sc.Ready n.world t) :
    ∃ k, Tells (n.trace.events.toList ++ n.adds sc t) (s ++ [t]) k ∧
      ((n.world.executeStep sc t).fault = none → (n.step sc t).stepCounter = k) := by
  have hquiet : ∀ e ∈ (n.world.tick sc).2.map (LogEntry.stamp n.stepCounter),
      e.step = n.stepCounter ∧ e.type ≠ .schedule ∧ e.type ≠ .threadDone := by
    rw [tick_log, List.map_map]
    refine List.forall_mem_map.mpr fun i _ => ⟨rfl, ?_, ?_⟩
    · exact nofun
    · exact nofun
  have hticked := h.quiet hquiet
  have hadds : n.trace.events.toList ++ n.adds sc t =
      n.trace.events.toList ++ (n.world.tick sc).2.map (LogEntry.stamp n.stepCounter) ++
        (((n.world.tick sc).1.opening sc t).stamp n.stepCounter ::
          ((n.world.tick sc).1.report sc t).map (LogEntry.stamp n.stepCounter)) := by
    rw [Saved.adds, executeStep_log hv (ready_tick hready), List.map_append, List.map_cons, List.append_assoc]
  have hcount : (n.world.executeStep sc t).fault = none → (n.step sc t).stepCounter =
      if (sc.actionAt t ((n.world.tick sc).1.threads t).pc).isSome then n.stepCounter + 1 else n.stepCounter :=
    fun hok => by rw [Saved.step, executeStep_counted hready hok]
  have htid : (((n.world.tick sc).1.opening sc t).stamp n.stepCounter).tid = t := opening_tid _ t
  rw [hadds]
  cases hact : sc.actionAt t ((n.world.tick sc).1.threads t).pc with
  | none =>
    have hreport : (n.world.tick sc).1.report sc t = [] := by
      unfold World.report
      rw [hact]
    have htype : (((n.world.tick sc).1.opening sc t).stamp n.stepCounter).type = .threadDone := by
      unfold World.opening
      rw [hact]
      rfl
    have hended := hticked.ended (k := n.stepCounter) rfl htype
    rw [htid] at hended
    rw [hreport, List.map_nil]
    exact ⟨_, hended, fun hok => by rw [hcount hok, hact]; rfl⟩
  | some a =>
    have hreport : ∀ e ∈ ((n.world.tick sc).1.report sc t).map (LogEntry.stamp n.stepCounter),
        e.step = n.stepCounter ∧ e.type ≠ .schedule := by
      unfold World.report
      rw [hact]
      refine List.forall_mem_map.mpr fun e he => ⟨rfl, fun htype => ?_⟩
      exact a.type.reports_schedule (htype ▸ (dispatch_reports _ t a e he).type)
    have htype : (((n.world.tick sc).1.opening sc t).stamp n.stepCounter).type = .schedule := by
      unfold World.opening
      rw [hact]
      rfl
    have hacted := hticked.acted (k := n.stepCounter) rfl htype hreport
    rw [htid] at hacted
    exact ⟨_, hacted, fun hok => by rw [hcount hok, hact]; rfl⟩

/-! ## The nodes of the walk -/

/-- What holds of the node that a clean run of `s` leads to. -/
structure Told (sc : Scenario) (s : List Int) (n : Saved) : Prop where
  tells : Tells n.trace.events.toList s n.stepCounter
  room : n.trace.events.count ≤ s.length * (smashMaxThreads + (smashMaxWaiters + 1))
  queues : QueuesFit n.world

theorem Told.root (sc : Scenario) : Told sc [] (rootNode sc) := ⟨.nil, Nat.zero_le _, queuesFit_start sc⟩

/-- There is room for one more step. -/
theorem Told.fits (hv : sc.Valid) {s : List Int} {n : Saved} {t : Int} (h : Told sc s n)
    (hlen : s.length < smashMaxDepth) (hready : sc.Ready n.world t) :
    n.trace.events.count + (n.world.executeStep sc t).log.length ≤ smashMaxTrace := by
  have hroom := h.room
  have hlog := length_executeStep_le hv h.queues hready
  have hall := Nat.mul_le_mul_right (smashMaxThreads + (smashMaxWaiters + 1)) (Nat.succ_le_of_lt hlen)
  simp only [smashMaxThreads, smashMaxWaiters, smashMaxDepth, smashMaxTrace] at hroom hlog hall ⊢
  omega

theorem Told.step (hv : sc.Valid) {s : List Int} {n : Saved} {t : Int} (h : Told sc s n)
    (hlen : s.length < smashMaxDepth) (hready : sc.Ready n.world t)
    (hok : (n.world.executeStep sc t).fault = none) : Told sc (s ++ [t]) (n.step sc t) := by
  obtain ⟨hevents, hcount⟩ := step_events (h.fits hv hlen hready)
  obtain ⟨k, htells, hk⟩ := h.tells.step hv hready
  refine ⟨?_, ?_, h.queues.step hok⟩
  · rw [hevents, hk hok]
    exact htells
  · have hroom := h.room
    have hlog := length_executeStep_le hv h.queues hready
    rw [hcount, List.length_append, List.length_singleton, Nat.succ_mul]
    omega

theorem CleanRun.nodeAt {s : List Int} {w : World} (h : CleanRun sc s w) : (nodeAt sc s).world = w := by
  induction s using List.reverseRecOn generalizing w with
  | nil => exact cleanRun_nil.unique h
  | append_singleton s t ih =>
    obtain ⟨w', hrun, _, _, rfl⟩ := h.snoc_inv
    rw [nodeAt_snoc, ← ih hrun]
    rfl

theorem told_nodeAt (hv : sc.Valid) {s : List Int} {w : World} (hrun : CleanRun sc s w)
    (hlen : s.length ≤ smashMaxDepth) : Told sc s (nodeAt sc s) := by
  induction s using List.reverseRecOn generalizing w with
  | nil => exact .root sc
  | append_singleton s t ih =>
    rw [List.length_append, List.length_singleton] at hlen
    obtain ⟨w', hfront, hready, hok, rfl⟩ := hrun.snoc_inv
    have htold := ih hfront (by omega)
    rw [← CleanRun.nodeAt hfront] at hready hok
    rw [nodeAt_snoc]
    exact htold.step hv (by omega) hready (fault_eq_none_of_not_fails hok)

/-- The events of a recorded trace, of `k` actions. -/
theorem RecordedTrace.tells (hv : sc.Valid) {trace : Trace} (h : RecordedTrace sc trace) :
    ∃ k, Tells trace.events.toList trace.schedule.toList k := by
  cases h with
  | @deadlock s hlen hrun _ _ =>
    have hsched : (nodeAt sc s).trace.schedule.toList = s := nodeAt_schedule (Nat.le_of_lt hlen)
    have htold := told_nodeAt hv hrun (Nat.le_of_lt hlen)
    have hroom : (nodeAt sc s).trace.events.count + 1 ≤ smashMaxTrace := by
      have := htold.room
      have := Nat.mul_le_mul_right (smashMaxThreads + (smashMaxWaiters + 1)) (Nat.le_of_lt hlen)
      simp only [smashMaxThreads, smashMaxWaiters, smashMaxDepth, smashMaxTrace] at *
      omega
    have hlog := @logAll_events (nodeAt sc s).trace (nodeAt sc s).stepCounter [⟨.deadlock, -1, -1, 0⟩] hroom
    refine ⟨(nodeAt sc s).stepCounter, ?_⟩
    rw [Trace.log_schedule, hsched]
    change Tells ((nodeAt sc s).trace.logAll _ [⟨.deadlock, -1, -1, 0⟩]).events.toList _ _
    rw [hlog]
    exact htold.tells.quiet fun e he => by
      rw [List.mem_singleton.mp he]
      exact ⟨rfl, nofun, nofun⟩
  | @violation s t hlen hrun hready _ =>
    have hroom : (s ++ [t]).length ≤ smashMaxDepth := by
      rw [List.length_append, List.length_singleton]
      omega
    have hsched : (nodeAt sc (s ++ [t])).trace.schedule.toList = s ++ [t] := nodeAt_schedule hroom
    have htold := told_nodeAt hv hrun (Nat.le_of_lt hlen)
    obtain ⟨k, htells, _⟩ := htold.tells.step hv hready
    rw [hsched, nodeAt_snoc, (step_events (htold.fits hv hlen hready)).1]
    exact ⟨k, htells⟩

/-- **The events of a trace that the exploration returns tell its schedule.** Their stamps never go back, and the
actions are stamped 0, 1, 2, and so on. -/
theorem schedule_read_back (hv : sc.Valid) (cfg : Config) (stack : Nat → Saved) {trace : Trace}
    (h : (explore sc cfg stack).failingTrace = some trace) :
    readSchedule trace.events.toList = trace.schedule.toList ∧
      trace.events.toList.Pairwise (·.step ≤ ·.step) ∧
      (trace.events.toList.filter TraceEvent.schedules).map (·.step) =
        List.range (trace.events.toList.filter TraceEvent.schedules).length := by
  obtain ⟨k, htells⟩ := (explore_recordedTrace hv cfg stack h).tells hv
  have hcount := congrArg List.length htells.actions
  rw [List.length_map, List.length_range] at hcount
  refine ⟨?_, htells.sorted, ?_⟩
  · rw [readSchedule, htells.reads]
  · rw [hcount, htells.actions]

theorem schedule_read_back_abba :
    ∃ trace, (explore abbaDeadlock ⟨false, false, 512, none, true⟩
        fun _ => rootNode abbaDeadlock).failingTrace = some trace ∧
      readSchedule trace.events.toList = trace.schedule.toList ∧
      trace.events.toList.Pairwise (·.step ≤ ·.step) ∧
      (trace.events.toList.filter TraceEvent.schedules).map (·.step) =
        List.range (trace.events.toList.filter TraceEvent.schedules).length := by
  have hfound : (explore abbaDeadlock ⟨false, false, 512, none, true⟩
      fun _ => rootNode abbaDeadlock).failingTrace.isSome = true := by decide +kernel
  obtain ⟨trace, htrace⟩ := Option.isSome_iff_exists.mp hfound
  exact ⟨trace, htrace, schedule_read_back (by decide) _ _ htrace⟩

end Smash
