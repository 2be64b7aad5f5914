import Smash.Proof.SameState

/-!
# Replay does not depend on history

`smash_run_schedule` starts with a reset, which leaves two engines of one scenario with the same live state up
to dead cells (`reset_same`); the calls that follow keep it so, since a scenario whose actions name resources of
the matching type, with mailboxes of at most `SMASH_MAX_WAITERS` messages, stays within its arrays
(`Scenario.Contained.fits`). So a replay does not depend on what the engine held before (`replay_same`).
-/

set_option autoImplicit false

namespace Smash

variable {sc : Scenario}

/-! ## Scenarios whose runs stay within the arrays -/

/-- An accepted scenario in which every action on a resource names one, of the matching type, and no mailbox
has more room than `mb_messages` has cells. -/
structure Scenario.Contained (sc : Scenario) : Prop extends sc.Matching where
  named : ∀ t, sc.IsThread t → ∀ pc a, sc.actionAt t pc = some a → a.type.needsResource = true →
    a.resourceId ≠ smashNoResource
  capacity : ∀ r, sc.IsResource r → sc.resTypes r = .mailbox → sc.mbCapacity r ≤ smashMaxWaiters

/-- No action changes the capacity of a mailbox. -/
theorem dispatch_mbCapacity {w : World} {tid : Int} {a : Action} (hok : (w.dispatch sc tid a).fault = none)
    (s : Int) : ((w.dispatch sc tid a).world.resources s).mbCapacity = (w.resources s).mbCapacity := by
  by_cases helse : a.type.mails = true → s ≠ a.resourceId
  · exact congrArg Prod.snd ((dispatch_act hok).mail_same helse)
  obtain ⟨hk, rfl⟩ : a.type.mails = true ∧ s = a.resourceId := by simpa using helse
  obtain ⟨type, r, arg⟩ := a
  have hkind : type.mails = true := hk
  have hposted : ∀ {f : Resource → Resource} {o : Outcome}, Posted w tid r f o →
      (∀ m, (f m).mbCapacity = m.mbCapacity) →
      (o.world.resources r).mbCapacity = (w.resources r).mbCapacity := by
    intro f o hposted hf
    cases hposted with
    | sent _ _ hw =>
      rw [hw, World.modResource_self]
      exact hf _
    | waits _ _ _ hw =>
      rw [hw]
      exact congrArg Prod.snd (enqueue_mail ..)
  cases type with
  | mbPost =>
    simp only [World.dispatch, Outcome.finish_fault, Outcome.finish_world,
      Outcome.advanceIfTrue_fault, Outcome.advanceIfTrue_resources] at hok ⊢
    exact hposted (mbPost_cases hok) fun _ => rfl
  | mbPostFront =>
    simp only [World.dispatch, Outcome.finish_fault, Outcome.finish_world,
      Outcome.advanceIfTrue_fault, Outcome.advanceIfTrue_resources] at hok ⊢
    exact hposted (mbPostFront_cases hok) fun _ => rfl
  | mbFetch =>
    simp only [World.dispatch, Outcome.finish_fault, Outcome.finish_world,
      Outcome.advanceIfTrue_fault, Outcome.advanceIfTrue_resources] at hok ⊢
    rcases mbFetch_cases hok with ⟨_, _, _, ⟨_, hw⟩ | ⟨_, hw⟩⟩ | ⟨_, _, _, _, hw⟩
    · rw [hw, World.modThread_resources]
      refine (congrArg Prod.snd (waiterRemove_mail ..)).trans ?_
      rw [World.modResource_self]
      rfl
    · rw [hw, World.modResource_self]
      rfl
    · rw [hw]
      exact congrArg Prod.snd (enqueue_mail ..)
  | _ => exact absurd hkind (by decide)

theorem reach_mbCapacity {w : World} (h : (callSystem sc).Reach w) {r : Int} (hr : sc.IsResource r) :
    (w.resources r).mbCapacity = sc.mbCapacity r := by
  induction h with
  | init hi =>
    obtain ⟨before, rfl⟩ := hi
    simp only [World.reset, if_pos hr]
    rfl
  | @step w _ tid _ hst ih =>
    obtain ⟨_, hok, rfl⟩ := hst
    have htick : (w.tick sc).1.resources = w.resources := tick_resources w
    rw [← htick] at ih
    rcases executeStep_cases hok with ⟨_, hw⟩ | ⟨_, _, hw⟩ | ⟨a, _, _, _, hok', hw⟩
    · rw [hw]
      exact ih
    · rw [hw]
      exact ih
    · rw [hw, dispatch_mbCapacity hok', ih]

/-- A mailbox with room has its ring within `mb_messages`. -/
theorem Scenario.Contained.ring (hsc : sc.Contained) {w : World} (hw : (callSystem sc).Reach w)
    (hf : Fits sc w) {r : Int} (hr : sc.IsResource r) (htype : sc.resTypes r = .mailbox)
    (hroom : (w.resources r).mbCount < (w.resources r).mbCapacity) :
    0 < (w.resources r).mbCapacity ∧ (w.resources r).mbCapacity ≤ smashMaxWaiters ∧
      (w.resources r).ring.Wf (w.resources r).mbCapacity := by
  have hcap := (hf.mail r hr).capacity_pos hroom
  refine ⟨hcap, ?_, (hf.mail r hr).wf hcap⟩
  rw [reach_mbCapacity hw hr]
  exact hsc.capacity r hr htype

/-- **Every call is safe.** -/
theorem Scenario.Contained.callSafe (hsc : sc.Contained) {w : World} (hw : (callSystem sc).Reach w)
    (hf : Fits sc w) {tid : Int} (ht : sc.IsThread tid) : CallSafe sc w tid := by
  have htick : (w.tick sc).1.resources = w.resources := tick_resources w
  intro _ a hat
  have hring : a.type.operand = some .mailbox →
      (w.resources a.resourceId).mbCount < (w.resources a.resourceId).mbCapacity →
      0 < (w.resources a.resourceId).mbCapacity ∧
        (w.resources a.resourceId).mbCapacity ≤ smashMaxWaiters ∧
        (w.resources a.resourceId).ring.Wf (w.resources a.resourceId).mbCapacity := fun hop hroom =>
    hsc.ring hw hf (hsc.operand tid ht _ a hat _ hop).1 (hsc.operand tid ht _ a hat _ hop).2 hroom
  unfold Action.Safe
  rw [htick]
  dsimp only
  refine ⟨hsc.named tid ht _ a hat, fun hpost _ hroom => ?_, fun hfront _ hroom => ?_⟩
  · obtain ⟨hpos, hle, hwf⟩ := hring (by rw [hpost]; rfl) hroom
    have htail : (w.resources a.resourceId).mbTail < (w.resources a.resourceId).mbCapacity := by
      show (w.resources a.resourceId).ring.tail < _
      rw [hwf.tail_eq]
      exact Int.emod_lt_of_pos _ hpos
    exact lt_of_lt_of_le htail hle
  · obtain ⟨hpos, hle, hwf⟩ := hring (by rw [hfront]; rfl) hroom
    have h0 : 0 ≤ (w.resources a.resourceId).mbHead := hwf.head_nonneg
    have hlt : (w.resources a.resourceId).mbHead < (w.resources a.resourceId).mbCapacity := hwf.head_lt
    have hsmall : (w.resources a.resourceId).mbCapacity ≤ 16 := hle
    refine ⟨⟨by simp only [intMax]; omega, by simp only [intMax]; omega⟩, ?_⟩
    rw [Int.tmod_eq_emod_of_nonneg (by omega)]
    exact lt_of_lt_of_le (Int.emod_lt_of_pos _ hpos) hle

/-- … so every reached state is within the arrays. -/
theorem Scenario.Contained.fits (hsc : sc.Contained) {w : World} (hw : (callSystem sc).Reach w) :
    Fits sc w := by
  induction hw with
  | init hi =>
    obtain ⟨before, rfl⟩ := hi
    exact Fits.reset before
  | step hreach hst ih =>
    obtain ⟨ht, hok, rfl⟩ := hst
    exact ih.step hok (hsc.callSafe hreach ih ht)

/-- The calls of a replay are safe, and the schedule has room for each of them. -/
theorem Scenario.Contained.entrySafe (hsc : sc.Contained) {s : List Int} {e : Engine}
    (hw : (callSystem sc).Reach e.world) (hroom : e.trace.schedule.count + s.length ≤ smashMaxDepth) :
    ∀ p ∈ calledSteps sc s e, EntrySafe sc p.1 p.2 := by
  induction s generalizing e with
  | nil => exact fun p hp => absurd hp List.not_mem_nil
  | cons t rest ih =>
    intro p hp
    rw [List.length_cons] at hroom
    rw [calledSteps] at hp
    split at hp
    · exact absurd hp List.not_mem_nil
    split at hp
    · exact absurd hp List.not_mem_nil
    rename_i hrange
    have ht : sc.IsThread t := by
      unfold Scenario.IsThread
      omega
    rcases List.mem_cons.mp hp with rfl | hp
    · exact ⟨by dsimp only; omega, hsc.callSafe hw (hsc.fits hw) ht⟩
    dsimp only at hp
    split at hp
    · exact absurd hp List.not_mem_nil
    split at hp
    · exact absurd hp List.not_mem_nil
    rename_i hfailed
    have hok : (e.world.executeStep sc t).fault = none := by
      simp only [Engine.executeStep, Engine.apply, Bool.or_eq_true, not_or] at hfailed
      simpa using hfailed.2
    refine ih (.step hw ⟨ht, hok, rfl⟩) ?_ p hp
    simp only [Engine.executeStep, Engine.apply, Trace.logAll_schedule, LiveArray.count_push]
    omega

/-- **A replay within the bounds accesses nothing outside the arrays**: dead cells are all that an earlier run can
have left for it to read. -/
theorem replay_in_bounds (hsc : sc.Contained) {schedule : List Int} (hlen : schedule.length ≤ smashMaxDepth)
    (e : Engine) : ∀ x ∈ runScheduleAccesses sc e schedule, x.InBounds := by
  have hb := hsc.valid.bounds
  have hempty : (e.reset sc).trace.schedule.count = 0 := rfl
  have hentry : ∀ p ∈ calledSteps sc schedule (e.reset sc), EntrySafe sc p.1 p.2 :=
    hsc.entrySafe (.init ⟨e.world, rfl⟩) (by rw [hempty]; omega)
  have hreset : SafeAccesses (resetAccesses sc) :=
    safe_append.mpr ⟨safe_map.mpr fun i hi => thread_inBounds hb (Scenario.mem_threadIds.mp hi),
      safe_map.mpr fun r hr => resource_inBounds hb (Scenario.mem_resourceIds.mp hr)⟩
  exact safe_append.mpr
    ⟨hreset, (safe_runScheduleFrom hb schedule _ (.init ⟨e.world, rfl⟩) (.reset _)).mpr hentry⟩

/-! ## Replays -/

/-- The same trace, up to the dead cells of its two arrays. -/
structure SameTrace (trace trace' : Trace) : Prop where
  events : trace'.events.toList = trace.events.toList
  truncated : trace'.truncated = trace.truncated
  schedule : trace'.schedule.toList = trace.schedule.toList

theorem SameTrace.log {trace trace' : Trace} (h : SameTrace trace trace') (step : Nat) (e : LogEntry) :
    SameTrace (trace.log step e) (trace'.log step e) := by
  unfold Trace.log
  rw [LiveArray.count_eq h.events]
  split
  · exact ⟨h.events, rfl, h.schedule⟩
  · exact ⟨LiveArray.same_push h.events _, h.truncated, h.schedule⟩

theorem SameTrace.logAll {trace trace' : Trace} (h : SameTrace trace trace') (step : Nat) (es : List LogEntry) :
    SameTrace (trace.logAll step es) (trace'.logAll step es) := by
  induction es generalizing trace trace' with
  | nil => exact h
  | cons e es ih => exact ih (h.log step e)

/-- Two engines of which a replay leaves the same: the fields of threads and resources, the trace and the
failure. The table of states and `max_depth_reached` belong to the explorer. -/
structure SameEngine (sc : Scenario) (e e' : Engine) : Prop where
  world : SameWorld sc e.world e'.world
  trace : SameTrace e.trace e'.trace
  stepCounter : e'.stepCounter = e.stepCounter
  failed : e'.failed = e.failed
  failMsg : e'.failMsg = e.failMsg

namespace SameEngine

variable {e e' : Engine}

theorem apply (h : SameEngine sc e e') {o o' : Outcome} (ho : SameOutcome sc o o') :
    SameEngine sc (e.apply o) (e'.apply o') := by
  unfold Engine.apply
  rw [ho.log, ho.fault, ho.counted, h.stepCounter, h.failed, h.failMsg]
  exact ⟨ho.world, h.trace.logAll _ _, rfl, rfl, rfl⟩

theorem record (h : SameEngine sc e e') (tid : Int) :
    SameEngine sc { e with trace := { e.trace with schedule := e.trace.schedule.push tid } }
      { e' with trace := { e'.trace with schedule := e'.trace.schedule.push tid } } :=
  ⟨h.world, ⟨h.trace.events, h.trace.truncated, LiveArray.same_push h.trace.schedule tid⟩,
    h.stepCounter, h.failed, h.failMsg⟩

theorem allDone (h : SameEngine sc e e') : allDone sc e'.world = allDone sc e.world := by
  unfold Smash.allDone
  rw [Bool.eq_iff_iff, List.all_eq_true, List.all_eq_true]
  refine forall₂_congr fun i hi => ?_
  rw [(h.world.thread i (Scenario.mem_threadIds.mp hi)).state]

/-- **The loop of `smash_run_schedule`**, from the same engines. -/
theorem runScheduleFrom (hsc : sc.Contained) {s : List Int} (i : Nat) (h : SameEngine sc e e')
    (hw : (callSystem sc).Reach e.world) :
    (runScheduleFrom sc i s e').2 = (runScheduleFrom sc i s e).2 ∧
      SameEngine sc (runScheduleFrom sc i s e).1 (runScheduleFrom sc i s e').1 := by
  induction s generalizing i e e' with
  | nil => exact ⟨rfl, h⟩
  | cons t rest ih =>
    rw [Smash.runScheduleFrom, Smash.runScheduleFrom, h.allDone]
    split
    · exact ⟨rfl, h⟩
    split
    · exact ⟨rfl, h.world, h.trace, h.stepCounter, rfl, rfl⟩
    rename_i hrange
    have ht : sc.IsThread t := by
      unfold Scenario.IsThread
      omega
    have hcall : SameOutcome sc (e.world.executeStep sc t) (e'.world.executeStep sc t) :=
      h.world.executeStep (crew_reach hw) (hsc.fits hw) ht (hsc.callSafe hw (hsc.fits hw) ht)
    have hstepped : SameEngine sc
        (({ e with trace := { e.trace with schedule := e.trace.schedule.push t } } : Engine).executeStep sc t)
        (({ e' with trace := { e'.trace with schedule := e'.trace.schedule.push t } } : Engine).executeStep sc t) :=
      (h.record t).apply hcall
    dsimp only
    rw [hcall.ret, hstepped.failed]
    split
    · exact ⟨rfl, hstepped⟩
    split
    · exact ⟨rfl, hstepped⟩
    · -- Neither call failed, so the rest starts from reached states.
      rename_i hfailed
      have hok : (e.world.executeStep sc t).fault = none := by
        simp only [Engine.executeStep, Engine.apply, Bool.or_eq_true, not_or] at hfailed
        simpa using hfailed.2
      exact ih (i + 1) hstepped (.step hw ⟨ht, hok, rfl⟩)

end SameEngine

/-- After `smash_engine_reset` every cell that could differ is dead. -/
theorem reset_same (e e' : Engine) : SameEngine sc (e.reset sc) (e'.reset sc) := by
  refine ⟨⟨fun t ht => ?_, fun r hr => ?_⟩, ⟨rfl, rfl, rfl⟩, rfl, rfl, rfl⟩
  · have hreset : ∀ w : World, (w.reset sc).threads t = (w.threads t).reset sc t := fun w => if_pos ht
    change ((e'.world.reset sc).threads t).SameLive ((e.world.reset sc).threads t)
    rw [hreset, hreset]
    exact ⟨rfl, rfl⟩
  · have hreset : ∀ w : World, (w.reset sc).resources r = (w.resources r).reset sc r := fun w => if_pos hr
    change SameResource ((e.world.reset sc).resources r) ((e'.world.reset sc).resources r)
    rw [hreset, hreset]
    exact ⟨rfl, rfl, rfl⟩

/-- **Replay does not depend on history**: whatever two engines held before, `smash_run_schedule` returns the
same, and leaves the same failure, trace, threads and resources, up to dead cells. -/
theorem replay_same (hsc : sc.Contained) (schedule : List Int) (e e' : Engine) :
    (runSchedule sc e' schedule).2 = (runSchedule sc e schedule).2 ∧
      SameEngine sc (runSchedule sc e schedule).1 (runSchedule sc e' schedule).1 :=
  SameEngine.runScheduleFrom hsc 0 (reset_same e e') (.init ⟨e.world, rfl⟩)

theorem mailboxPriority_contained : mailboxPriority.Contained where
  toMatching := mailboxPriority_mail.toMatching
  named := @forall_actionAt mailboxPriority
    (fun _ a => a.type.needsResource = true → a.resourceId ≠ smashNoResource) (by decide)
  capacity r hr htype := (mailboxPriority_mail.capacity r hr htype).2

/-- A fresh engine, and one in whose mailbox a replay has left two messages. -/
theorem replay_same_mailboxPriority :
    (runSchedule mailboxPriority (runSchedule mailboxPriority .zero [1, 0]).1 [0, 2, 1]).2 =
        (runSchedule mailboxPriority .zero [0, 2, 1]).2 ∧
      SameEngine mailboxPriority (runSchedule mailboxPriority .zero [0, 2, 1]).1
        (runSchedule mailboxPriority (runSchedule mailboxPriority .zero [1, 0]).1 [0, 2, 1]).1 :=
  replay_same mailboxPriority_contained [0, 2, 1] .zero (runSchedule mailboxPriority .zero [1, 0]).1

end Smash
