import Smash.Proof.Waiting

/-!
# Execution contexts

`exec_ctx` summarises two counters, and four actions keep it (`ActionType.nest`). The summary says THREAD
only outside ISRs and `chSysLock` sections, but for one slip: an `ACT_SYS_UNLOCK` that ends the last lock
section inside an ISR (`unlockInIsr`). And of the six primitives that block only the lock and the wait
look at it. As long as no step takes one of these two ways out (`EscapesContext`), a blocked thread is in
thread context (`blocked_in_thread_context`).
-/

set_option autoImplicit false

namespace Smash

variable {sc : Scenario}

/-! ## The context of a thread -/

/-- `exec_ctx`, `sys_lock_depth` and `isr_depth`. -/
structure Context where
  execCtx : ExecCtx
  sysLockDepth : Int
  isrDepth : Int

def Thread.context (t : Thread) : Context := ⟨t.execCtx, t.sysLockDepth, t.isrDepth⟩

/-- What an action makes of the context of the thread that runs it. -/
def ActionType.nest (a : ActionType) (c : Context) : Context :=
  match a with
  | .sysLock => ⟨.sysLock, c.sysLockDepth + 1, c.isrDepth⟩
  | .sysUnlock =>
    ⟨if 0 < c.sysLockDepth - 1 then .sysLock else .thread, c.sysLockDepth - 1, c.isrDepth⟩
  | .isrEnter => ⟨.isr, c.sysLockDepth, c.isrDepth + 1⟩
  | .isrExit =>
    ⟨if c.isrDepth - 1 = 0 then (if 0 < c.sysLockDepth then .sysLock else .thread) else c.execCtx,
      c.sysLockDepth, c.isrDepth - 1⟩
  | _ => c

/-- The depths that `ACT_SYS_UNLOCK` and `ACT_ISR_EXIT` insist on. -/
def ActionType.nestOk (a : ActionType) (c : Context) : Prop :=
  (a = .sysUnlock → 0 < c.sysLockDepth) ∧ (a = .isrExit → 0 < c.isrDepth)

/-- The fields of a thread that only the context and the stack actions write. -/
def Thread.rest (t : Thread) : Context × Int := (t.context, t.stackDepth)

@[simp] theorem rest_advance (w : World) (tid u : Int) :
    ((w.advance tid).threads u).rest = (w.threads u).rest :=
  World.modThread_field (f := (·.advance)) Thread.rest rfl u

@[simp] theorem rest_enqueue (w : World) (tid r : Int) (state : ThreadState) (u : Int) :
    ((w.enqueue tid r state).threads u).rest = (w.threads u).rest := by
  rw [World.enqueue_threads]
  split
  · subst u; rfl
  · rfl

@[simp] theorem rest_arm (w : World) (tid : Int) (c : Option Int) (u : Int) :
    ((w.arm tid c).threads u).rest = (w.threads u).rest := by
  rw [World.arm_threads]
  split
  · subst u; rfl
  · rfl

@[simp] theorem rest_boost (p : Int) (fuel : Nat) (cur : Int) (w : World) (u : Int) :
    ((boost sc p fuel cur w).threads u).rest = (w.threads u).rest :=
  boost_field Thread.rest fun _ _ => rfl

@[simp] theorem rest_ownedPush (t : Thread) (r : Int) : (t.ownedPush r).rest = t.rest := by
  unfold Thread.ownedPush
  split <;> rfl

@[simp] theorem rest_wakeAll (r : Int) (n : Nat) (w : World) (u : Int) :
    ((wakeAll r n w).1.threads u).rest = (w.threads u).rest := by
  induction n generalizing w with
  | zero => rfl
  | succ n ih =>
    exact (ih _).trans (World.modThread_field (f := (·.resume)) Thread.rest rfl u)

@[simp] theorem rest_lowered (w : World) (tid r u : Int) :
    ((lowered sc w tid r).threads u).rest = (w.threads u).rest := by
  unfold lowered
  rw [World.modThread_modThread]
  apply World.modThread_field
  rfl

@[simp] theorem rest_handOver (w : World) (r u : Int) :
    ((handOver w r).1.threads u).rest = (w.threads u).rest := by
  by_cases hlive : 0 < (w.resources r).waiters.count
  · rw [handOver_of_waiters hlive]
    refine (World.modThread_field Thread.rest ?_ u).trans rfl
    exact rest_ownedPush _ r
  · rw [handOver_of_empty hlive]
    rfl

/-- No other action touches them. -/
theorem Act.rest {tid : Int} {a : Action} {w w' : World} (h : Act sc tid a w w')
    (hk : a.type.bookkeeping = false) (u : Int) : (w'.threads u).rest = (w.threads u).rest := by
  have hwrite : ∀ {v : World} {t : Int} {f : Thread → Thread},
      (f (v.threads t)).rest = (v.threads t).rest →
      ((v.modThread t f).threads u).rest = (v.threads u).rest :=
    fun hf => World.modThread_field Thread.rest hf u
  cases h with
  | bookkeep hb => exact absurd (hk.symm.trans hb) (by decide)
  | exit =>
    apply hwrite
    rfl
  | lifecycle | take | signal | condLost | mail => exact rest_advance ..
  | acquire =>
    rw [rest_advance]
    refine (hwrite ?_).trans rfl
    exact rest_ownedPush _ _
  | blockMutex => simp
  | blockSem => simp
  | unlock => simp
  | grant =>
    rw [rest_advance, World.grantSem]
    exact hwrite rfl
  | condSignal | mailWake =>
    rw [rest_advance]
    refine (hwrite ?_).trans rfl
    rfl
  | condWait m =>
    rw [rest_enqueue]
    refine Eq.trans rfl (hwrite (v := w) (t := tid) (f := (·.ownedPop)) ?_)
    rfl
  | condBroadcast => simp
  | mailBlock => simp

theorem Act.context {tid : Int} {a : Action} {w w' : World} (h : Act sc tid a w w')
    (hk : a.type.bookkeeping = false) (u : Int) : (w'.threads u).context = (w.threads u).context :=
  congrArg Prod.fst (h.rest hk u)

theorem advance_context (w : World) (tid u : Int) :
    ((w.advance tid).threads u).context = (w.threads u).context :=
  congrArg Prod.fst (rest_advance w tid u)

/-- **An action nests the context of the thread that runs it**, and touches no other. -/
theorem dispatch_context {w : World} {tid : Int} {a : Action}
    (h : (w.dispatch sc tid a).fault = none) :
    a.type.nestOk (w.threads tid).context ∧ ∀ u,
      ((w.dispatch sc tid a).world.threads u).context
        = if u = tid then a.type.nest (w.threads tid).context else (w.threads u).context := by
  have hact := dispatch_act h
  obtain ⟨type, r, arg⟩ := a
  have hsame : type.bookkeeping = false → (∀ c, type.nest c = c) → ∀ u,
      ((w.dispatch sc tid ⟨type, r, arg⟩).world.threads u).context
        = if u = tid then type.nest (w.threads tid).context else (w.threads u).context := by
    intro hk hnest u
    rw [hact.context hk u, hnest]
    split
    · subst u; rfl
    · rfl
  -- The bookkeeping actions are one write to the scheduled thread.
  have hwrite : ∀ f : Thread → Thread,
      (f (w.threads tid)).context = type.nest (w.threads tid).context → ∀ u,
      (((w.modThread tid f).advance tid).threads u).context
        = if u = tid then type.nest (w.threads tid).context else (w.threads u).context := by
    intro f hf u
    rw [advance_context, World.modThread_threads]
    split
    · exact hf
    · rfl
  have hstays : (∀ c, type.nest c = c) → ∀ u, (w.threads u).context
      = if u = tid then type.nest (w.threads tid).context else (w.threads u).context := by
    intro hnest u
    rw [hnest]
    split
    · subst u; rfl
    · rfl
  cases type with
  | mutexLock | mutexUnlock | semWait | semSignal | done | mutexTimedLock | semTimedWait
  | objectInit | objectDestroy | condWait | condSignal | condBroadcast | mbPost | mbPostFront
  | mbFetch => exact ⟨⟨by simp, by simp⟩, hsame rfl fun _ => rfl⟩
  | nop | yield =>
    refine ⟨⟨by simp, by simp⟩, fun u => ?_⟩
    exact (advance_context w tid u).trans (hstays (fun _ => rfl) u)
  | condWaitTimeout | mbPostTimeout | mbFetchTimeout =>
    exact ⟨⟨by simp, by simp⟩, hstays fun _ => rfl⟩
  | sysLock =>
    refine ⟨⟨by simp, by simp⟩, ?_⟩
    apply hwrite
    rfl
  | sysUnlock =>
    simp only [World.dispatch, actSysUnlock] at h ⊢
    split
    · rw [if_pos ‹_›] at h; exact absurd h (by simp)
    · refine ⟨⟨fun _ => ?_, by simp⟩, ?_⟩
      · show 0 < (w.threads tid).sysLockDepth
        omega
      · apply hwrite
        rfl
  | isrEnter =>
    simp only [World.dispatch, actIsrEnter] at h ⊢
    split
    · rw [if_pos ‹_›] at h; exact absurd h (by simp)
    · refine ⟨⟨by simp, by simp⟩, ?_⟩
      apply hwrite
      rfl
  | isrExit =>
    simp only [World.dispatch, actIsrExit] at h ⊢
    split
    · rw [if_pos ‹_›] at h; exact absurd h (by simp)
    · refine ⟨⟨by simp, fun _ => ?_⟩, ?_⟩
      · show 0 < (w.threads tid).isrDepth
        omega
      · apply hwrite
        rfl
  | call =>
    simp only [World.dispatch, actCall] at h ⊢
    split
    · rw [if_pos ‹_›] at h; exact absurd h (by simp)
    · refine ⟨⟨by simp, by simp⟩, ?_⟩
      apply hwrite
      rfl
  | ret =>
    refine ⟨⟨by simp, by simp⟩, ?_⟩
    apply hwrite
    rfl

/-! ## The two ways out -/

/-- The action `a` of `tid` blocks unchecked inside an ISR or a lock section, or is the unlock that sets
`exec_ctx` to THREAD inside an ISR. -/
def Action.Escapes (a : Action) (v : World) (tid : Int) : Prop :=
  let t := v.threads tid
  let r := v.resources a.resourceId
  ((0 < t.isrDepth ∨ 0 < t.sysLockDepth) ∧
      (a.type = .condWait ∨
        ((a.type = .mbPost ∨ a.type = .mbPostFront) ∧ r.mbCapacity ≤ r.mbCount) ∨
        (a.type = .mbFetch ∧ r.mbCount = 0))) ∨
    (a.type = .sysUnlock ∧ t.sysLockDepth = 1 ∧ 0 < t.isrDepth)

instance (a : Action) (v : World) (tid : Int) : Decidable (a.Escapes v tid) :=
  inferInstanceAs (Decidable (_ ∨ _))

/-- The call of `smash_execute_step` for `tid` runs such an action. -/
def EscapesContext (sc : Scenario) (w : World) (tid : Int) : Prop :=
  let v := (w.tick sc).1
  (v.threads tid).state = .ready ∧
    ∃ a ∈ sc.actionAt tid (v.threads tid).pc, a.Escapes v tid

instance (w : World) (tid : Int) : Decidable (EscapesContext sc w tid) :=
  inferInstanceAs (Decidable (_ ∧ _))

/-! ## The invariant -/

/-- The summary says THREAD only where the counters say so. -/
structure Context.Ok (c : Context) : Prop where
  sysLockDepth : 0 ≤ c.sysLockDepth
  isrDepth : 0 ≤ c.isrDepth
  thread : c.execCtx = .thread → c.isrDepth = 0 ∧ c.sysLockDepth = 0

theorem Context.Ok.nest {c : Context} (h : c.Ok) {a : ActionType} (hok : a.nestOk c)
    (hC : ¬ (a = .sysUnlock ∧ c.sysLockDepth = 1 ∧ 0 < c.isrDepth)) : (a.nest c).Ok := by
  obtain ⟨hs, hi, hthread⟩ := h
  obtain ⟨hunlock, hexit⟩ := hok
  cases a with
  | sysLock => exact ⟨by simp only [ActionType.nest]; omega, hi, by simp [ActionType.nest]⟩
  | sysUnlock =>
    have hpos := hunlock rfl
    have hlast : ¬ (c.sysLockDepth = 1 ∧ 0 < c.isrDepth) := fun h => hC ⟨rfl, h⟩
    refine ⟨by simp only [ActionType.nest]; omega, hi, fun hctx => ?_⟩
    simp only [ActionType.nest] at hctx ⊢
    split at hctx
    · exact absurd hctx (by simp)
    · omega
  | isrEnter => exact ⟨hs, by simp only [ActionType.nest]; omega, by simp [ActionType.nest]⟩
  | isrExit =>
    have hpos := hexit rfl
    refine ⟨hs, by simp only [ActionType.nest]; omega, fun hctx => ?_⟩
    simp only [ActionType.nest] at hctx ⊢
    split at hctx
    · split at hctx
      · exact absurd hctx (by simp)
      · omega
    · have := hthread hctx
      omega
  | _ => exact ⟨hs, hi, hthread⟩

/-- A thread whose context is in order and that blocks in thread context only. -/
structure ContextOk (t : Thread) : Prop where
  context : t.context.Ok
  blocked : t.blocked = true → t.isrDepth = 0 ∧ t.sysLockDepth = 0

/-- A mailbox operation that leaves its thread blocked found the mailbox full or empty. -/
theorem mails_blocks {v : World} {tid : Int} {a : Action} (hready : (v.threads tid).state = .ready)
    (hk : a.type.mails = true) (hok : (v.dispatch sc tid a).fault = none)
    (hb : ((v.dispatch sc tid a).world.threads tid).blocked = true) :
    ((a.type = .mbPost ∨ a.type = .mbPostFront) ∧
        (v.resources a.resourceId).mbCapacity ≤ (v.resources a.resourceId).mbCount) ∨
      (a.type = .mbFetch ∧ (v.resources a.resourceId).mbCount = 0) := by
  -- The thread moves on when the primitive returns `true`.
  have hruns : ∀ o : Outcome, o.ret = true → (o.world.threads tid).state = .ready →
      ¬ ((o.advanceIfTrue tid).world.threads tid).blocked = true := by
    intro o hret hstate hblocked
    rw [Outcome.advance_world_of_ret hret, advance_not_blocked hstate] at hblocked
    exact absurd hblocked (by decide)
  obtain ⟨type, r, arg⟩ := a
  have hfull : ∀ (f : Resource → Resource) (o : Outcome), Posted v tid r f o →
      ((o.advanceIfTrue tid).world.threads tid).blocked = true →
      (v.resources r).mbCapacity ≤ (v.resources r).mbCount := by
    intro f o hposted hblocked
    cases hposted with
    | sent hret _ hw => exact absurd hblocked (hruns _ hret (by rw [hw]; exact hready))
    | waits hfull => exact hfull
  have hkind : type.mails = true := hk
  cases type <;> try exact absurd hkind (by decide)
  case mbPost =>
    simp only [World.dispatch, Outcome.finish_fault, Outcome.advanceIfTrue_fault] at hok
    exact .inl ⟨.inl rfl, hfull _ _ (mbPost_cases hok) hb⟩
  case mbPostFront =>
    simp only [World.dispatch, Outcome.finish_fault, Outcome.advanceIfTrue_fault] at hok
    exact .inl ⟨.inr rfl, hfull _ _ (mbPostFront_cases hok) hb⟩
  case mbFetch =>
    simp only [World.dispatch, Outcome.finish_fault, Outcome.advanceIfTrue_fault] at hok
    rcases mbFetch_cases hok with ⟨hret, _, _, ⟨_, hw⟩ | ⟨_, hw⟩⟩ | ⟨hempty, _⟩
    · refine absurd hb (hruns _ hret ?_)
      rw [hw, World.modThread_threads]
      split
      · rfl
      · exact hready
    · exact absurd hb (hruns _ hret (by rw [hw]; exact hready))
    · exact .inr ⟨rfl, hempty⟩

/-- Who starts to wait in a lock or in a wait has passed its check. -/
theorem Act.waits_in_thread {tid : Int} {a : Action} {v w' : World} (h : Act sc tid a v w')
    (hready : (v.threads tid).state = .ready) (hk : a.type.mails = false)
    (hb : (w'.threads tid).blocked = true) :
    (v.threads tid).execCtx = .thread ∨ a.type = .condWait := by
  have hwait : a.type.wait ≠ none := by
    have heff := h.effect hready tid
    generalize w'.threads tid = t' at heff hb
    cases heff with
    | stays hs => exact absurd (hs.trans hready) (Thread.not_ready_of_blocked hb)
    | runs _ hnot => exact absurd hnot (by simp [hb])
    | woken _ _ _ hs _ => exact absurd hs (Thread.not_ready_of_blocked hb)
    | waits _ hwait => simp [hwait]
  cases h with
  | blockMutex _ _ _ _ hctx _ => exact .inl hctx
  | blockSem _ _ _ hctx _ => exact .inl hctx
  | condWait _ hk' => exact .inr hk'
  | acquire =>
    rw [advance_not_blocked] at hb
    · exact absurd hb (by decide)
    · rw [World.modThread_self]
      exact (Thread.ownedPush_fields _ _).1.trans hready
  | take =>
    rw [advance_not_blocked] at hb
    · exact absurd hb (by decide)
    · exact hready
  | mail hmails | mailBlock hmails => exact absurd (hk.symm.trans hmails) (by decide)
  | mailWake htype => rw [htype] at hk; exact absurd hk (by decide)
  | lifecycle _ htype => rcases htype with htype | htype <;> exact absurd (by rw [htype]; rfl) hwait
  | bookkeep hbook =>
    cases htype : a.type <;> rw [htype] at hbook hwait <;>
      first | exact absurd hbook (by decide) | exact absurd rfl hwait
  | exit htype | unlock htype | grant htype | signal htype | condSignal htype | condLost htype
  | condBroadcast htype => exact absurd (by rw [htype]; rfl) hwait

theorem ContextOk.tick {t : Thread} (h : ContextOk t) : ContextOk t.tick := by
  unfold Thread.tick
  split
  · exact ⟨h.context, fun hb => (Thread.not_ready_of_blocked hb rfl).elim⟩
  · split
    · exact ⟨h.context, h.blocked⟩
    · exact h

/-- **An action that does not escape keeps the contexts in order.** -/
theorem ContextOk.act {v : World} {tid : Int} {a : Action} (hready : (v.threads tid).state = .ready)
    (hok : (v.dispatch sc tid a).fault = none) (hC : ¬ a.Escapes v tid) {t : Int}
    (h : ContextOk (v.threads t)) : ContextOk ((v.dispatch sc tid a).world.threads t) := by
  obtain ⟨hnest, hcontext⟩ := dispatch_context hok
  have heff := (dispatch_act hok).effect hready t
  have hcontext := hcontext t
  by_cases ht : t = tid
  · subst ht
    rw [if_pos rfl] at hcontext
    refine ⟨?_, fun hb => ?_⟩
    · rw [hcontext]
      exact h.context.nest hnest fun hunlock => hC (.inr hunlock)
    -- The thread that runs starts to wait.
    have hin : (v.threads t).isrDepth = 0 ∧ (v.threads t).sysLockDepth = 0 := by
      by_contra hdeep
      have hs : 0 ≤ (v.threads t).sysLockDepth := h.context.sysLockDepth
      have hi : 0 ≤ (v.threads t).isrDepth := h.context.isrDepth
      have hinside : 0 < (v.threads t).isrDepth ∨ 0 < (v.threads t).sysLockDepth := by omega
      by_cases hk : a.type.mails = true
      · exact hC (.inl ⟨hinside, .inr (mails_blocks hready hk hok hb)⟩)
      · rcases (dispatch_act hok).waits_in_thread hready (by simpa using hk) hb with hctx | hcond
        · exact hdeep (h.context.thread hctx)
        · exact hC (.inl ⟨hinside, .inl hcond⟩)
    have hkeeps : a.type.nest (v.threads t).context = (v.threads t).context := by
      generalize (v.dispatch sc t a).world.threads t = t' at heff hb
      cases heff with
      | stays hs => exact absurd (hs.trans hready) (Thread.not_ready_of_blocked hb)
      | runs _ hnot => exact absurd hnot (by simp [hb])
      | woken _ _ _ hs _ => exact absurd hs (Thread.not_ready_of_blocked hb)
      | waits _ hwait =>
        have hwaits : a.type.wait ≠ none := by simp [hwait]
        cases htype : a.type <;> rw [htype] at hwaits <;> first | rfl | exact absurd rfl hwaits
    rw [hkeeps] at hcontext
    obtain ⟨_, hs, hi⟩ := Context.mk.inj hcontext
    rw [hs, hi]
    exact hin
  · rw [if_neg ht] at hcontext
    refine ⟨hcontext ▸ h.context, fun hb => ?_⟩
    obtain ⟨_, hs, hi⟩ := Context.mk.inj hcontext
    rw [hs, hi]
    refine h.blocked ?_
    generalize (v.dispatch sc tid a).world.threads t = t' at heff hb
    cases heff with
    | stays hs => exact (Thread.blocked_congr hs).symm.trans hb
    | runs hself | waits hself => exact absurd hself ht
    | woken _ _ _ hs _ => exact absurd hs (Thread.not_ready_of_blocked hb)

/-! ## Over every run -/

theorem contextOk_reach {w : World}
    (h : ((callSystem sc).restrict fun w tid => ¬ EscapesContext sc w tid).Reach w) {t : Int}
    (ht : sc.IsThread t) : ContextOk (w.threads t) := by
  induction h with
  | init hi =>
    obtain ⟨before, rfl⟩ := hi
    simp only [World.reset, if_pos ht]
    exact ⟨⟨le_rfl, le_rfl, fun _ => ⟨rfl, rfl⟩⟩, fun _ => ⟨rfl, rfl⟩⟩
  | @step w _ tid _ hst ih =>
    obtain ⟨⟨_, hok, rfl⟩, hC⟩ := hst
    have htick : ContextOk ((w.tick sc).1.threads t) := by
      rw [tick_threads, if_pos ht]
      exact ih.tick
    rcases executeStep_cases hok with ⟨_, hw⟩ | ⟨_, _, hw⟩ | ⟨a, hready, hat, _, hok', hw⟩
    · rw [hw]
      exact htick
    · rw [hw, World.modThread_threads]
      split
      · subst t
        exact ⟨htick.context, fun hb => (Thread.not_done_of_blocked hb rfl).elim⟩
      · exact htick
    · rw [hw]
      exact htick.act hready hok' fun hesc => hC ⟨hready, a, hat, hesc⟩

/-- **Nothing blocks outside thread context**, as long as no step escapes. -/
theorem blocked_in_thread_context {w : World}
    (h : ((callSystem sc).restrict fun w tid => ¬ EscapesContext sc w tid).Reach w) {t : Int}
    (ht : sc.IsThread t) (hb : (w.threads t).blocked = true) :
    (w.threads t).isrDepth = 0 ∧ (w.threads t).sysLockDepth = 0 :=
  (contextOk_reach h ht).blocked hb

/-- A thread that fetches from an empty mailbox inside an ISR. -/
def fetchInIsr : Scenario :=
  { Scenario.ofSteps [[⟨.isrEnter, -1, 0⟩, ⟨.mbFetch, 0, 0⟩]] [.mailbox] [] with
    mbCapacity := fun r => if r = 0 then 4 else 0 }

/-- A signal from an ISR, a lock section, and then a wait. -/
def signalFromIsr : Scenario :=
  .ofSteps [[⟨.isrEnter, -1, 0⟩, ⟨.semSignal, 0, 0⟩, ⟨.isrExit, -1, 0⟩, ⟨.sysLock, -1, 0⟩, ⟨.sysUnlock, -1, 0⟩,
    ⟨.semWait, 1, 0⟩]] [.semaphore, .semaphore] [0, 0]

/-- It ends up blocked, with the ISR and the lock section behind it. -/
theorem blocked_in_thread_context_signalFromIsr :
    (((startWorld signalFromIsr).calls signalFromIsr [0, 0, 0, 0, 0, 0]).threads 0).isrDepth = 0 ∧
      (((startWorld signalFromIsr).calls signalFromIsr [0, 0, 0, 0, 0, 0]).threads 0).sysLockDepth = 0 :=
  blocked_in_thread_context (restrict_reach_calls (by decide +kernel) (by decide +kernel)) (by decide)
    (by decide +kernel)

theorem fetchInIsr_blocks : ¬ ∀ sc : Scenario, sc.Matching → ∀ w, (callSystem sc).Reach w →
    ∀ t, sc.IsThread t → (w.threads t).blocked = true →
      (w.threads t).isrDepth = 0 ∧ (w.threads t).sysLockDepth = 0 := by
  intro h
  have hdepth := (h fetchInIsr (Scenario.matching_of_steps (by decide) (by decide))
    ((startWorld fetchInIsr).calls fetchInIsr [0, 0]) (reach_calls (by decide +kernel)) 0 (by decide)
    (by decide +kernel)).1
  exact absurd hdepth (by decide +kernel)

/-- A lock section that ends inside an ISR, and then a wait. -/
def unlockInIsr : Scenario :=
  .ofSteps [[⟨.isrEnter, -1, 0⟩, ⟨.sysLock, -1, 0⟩, ⟨.sysUnlock, -1, 0⟩, ⟨.semWait, 0, 0⟩]]
    [.semaphore] [0]

/-- The wait passes its check. -/
example :
    let w := (startWorld unlockInIsr).calls unlockInIsr [0, 0, 0, 0]
    callsOk unlockInIsr (startWorld unlockInIsr) [0, 0, 0, 0] = true ∧
      (w.threads 0).blocked = true ∧ (w.threads 0).isrDepth = 1 := by decide +kernel

end Smash
