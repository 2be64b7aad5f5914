import Smash.Lib.RingBuffer
import Smash.Proof.Waiting

/-!
# Mailboxes

The messages of a mailbox are a ring buffer, so a mailbox is a bounded deque: `mailOp` says which operation
a call performs on it, going by what the primitive returns, and every run performs a run of
`Deque.system` (`mailbox_is_deque`). `smash_mb_post` and `smash_mb_post_front` push at the two ends and
`smash_mb_fetch` pops at the front; a call that blocks performs none.
-/

set_option autoImplicit false

namespace Smash

variable {sc : Scenario}

/-- An accepted scenario with matching types whose mailboxes have room for a message and no more room than
`mb_messages` has cells. -/
structure Scenario.Mail (sc : Scenario) : Prop extends sc.Matching where
  capacity : ∀ r, sc.IsResource r → sc.resTypes r = .mailbox →
    1 ≤ sc.mbCapacity r ∧ sc.mbCapacity r ≤ smashMaxWaiters

/-! ## The ring in a mailbox -/

def Resource.ring (r : Resource) : RingBuffer Int := ⟨r.mbMessages, r.mbHead, r.mbTail, r.mbCount⟩

/-- The messages, the next one to be fetched first. -/
def Resource.messages (r : Resource) : List Int := r.ring.toList r.mbCapacity

/-- A mailbox of capacity `cap`, for which `mb_messages` has cells, with its indices in order. -/
structure MailOk (cap : Int) (r : Resource) : Prop where
  capacity : r.mbCapacity = cap
  small : cap ≤ smashMaxWaiters
  wf : r.ring.Wf cap

/-- What a mailbox is made of. -/
def Resource.mail (r : Resource) : RingBuffer Int × Int := (r.ring, r.mbCapacity)

theorem MailOk.congr {cap : Int} {r r' : Resource} (h : MailOk cap r) (hsame : r'.mail = r.mail) :
    MailOk cap r' := by
  obtain ⟨hring, hcap⟩ := Prod.mk.inj hsame
  exact ⟨hcap.trans h.capacity, h.small, hring ▸ h.wf⟩

/-- In so small a mailbox the sum of `smash_mb_post_front` does not overflow. -/
theorem MailOk.isInt {cap : Int} {m : Resource} (h : MailOk cap m) : IsInt (m.mbHead - 1 + m.mbCapacity) := by
  have hhead : 0 ≤ m.mbHead := h.wf.head_nonneg
  have hlt : m.mbHead < cap := h.wf.head_lt
  have hsmall : cap ≤ 16 := h.small
  rw [h.capacity]
  exact ⟨by simp only [intMax]; omega, by simp only [intMax]; omega⟩

theorem messages_congr {r r' : Resource} (hsame : r'.mail = r.mail) : r'.messages = r.messages := by
  obtain ⟨hring, hcap⟩ := Prod.mk.inj hsame
  show r'.ring.toList r'.mbCapacity = r.ring.toList r.mbCapacity
  rw [hring, hcap]

/-- The state of one mailbox after a call that performed `op` on it. -/
structure MailStep (cap : Int) (op : Option (Deque.Op Int)) (r r' : Resource) : Prop where
  ok : MailOk cap r'
  run : (Deque.system Int cap).Run r.messages op.toList r'.messages

theorem MailStep.none {cap : Int} {r r' : Resource} (h : MailOk cap r) (hsame : r'.mail = r.mail) :
    MailStep cap none r r' :=
  ⟨h.congr hsame, by rw [messages_congr hsame]; exact .nil _⟩

@[simp] theorem enqueue_mail (w : World) (tid r : Int) (state : ThreadState) (s : Int) :
    ((w.enqueue tid r state).resources s).mail = (w.resources s).mail := by
  rw [World.enqueue, World.modThread_resources]
  exact World.modResource_field (f := fun r => { r with waiters := r.waiters.push tid })
    Resource.mail rfl s

@[simp] theorem waiterRemove_mail (w : World) (r : Int) (i : Nat) (s : Int) :
    ((w.waiterRemove r i).resources s).mail = (w.resources s).mail :=
  World.modResource_field (f := fun r => { r with waiters := r.waiters.swapRemove i })
    Resource.mail rfl s

/-! ## The operations on the ring -/

theorem ring_post {m : Resource} (h : m.ring.Wf m.mbCapacity) (msg : Int) :
    (m.post msg).ring = m.ring.pushBack m.mbCapacity msg := by
  have htail : 0 ≤ m.mbTail := h.tail_nonneg
  show (⟨_, _, (m.mbTail + 1).tmod m.mbCapacity, _⟩ : RingBuffer Int) = _
  rw [Int.tmod_eq_emod_of_nonneg (by omega)]
  rfl

/-- Without an overflow the slot in front is the one that a ring has there. -/
theorem frontSlot_eq {m : Resource} (h : m.ring.Wf m.mbCapacity) (hsum : IsInt (m.mbHead - 1 + m.mbCapacity)) :
    frontSlot m = (m.mbHead - 1 + m.mbCapacity) % m.mbCapacity := by
  have hhead : 0 ≤ m.mbHead := h.head_nonneg
  have hlt : m.mbHead < m.mbCapacity := h.head_lt
  rw [frontSlot, wrap32_of_isInt hsum, Int.tmod_eq_emod_of_nonneg (by omega)]

theorem ring_postFront {m : Resource} (h : m.ring.Wf m.mbCapacity)
    (hsum : IsInt (m.mbHead - 1 + m.mbCapacity)) (msg : Int) :
    (m.postFront msg).ring = m.ring.pushFront m.mbCapacity msg := by
  unfold Resource.postFront Resource.ring
  dsimp only
  rw [frontSlot_eq h hsum]
  rfl

theorem ring_fetch {m : Resource} (h : m.ring.Wf m.mbCapacity) :
    m.fetch.ring = m.ring.popFront m.mbCapacity := by
  have hhead : 0 ≤ m.mbHead := h.head_nonneg
  show (⟨_, (m.mbHead + 1).tmod m.mbCapacity, _, _⟩ : RingBuffer Int) = _
  rw [Int.tmod_eq_emod_of_nonneg (by omega)]
  rfl

/-- A post at the back, … -/
theorem messages_post {m : Resource} (h : m.ring.Wf m.mbCapacity) (hroom : m.mbCount < m.mbCapacity)
    (msg : Int) : (m.post msg).messages = m.messages ++ [msg] := by
  show (m.post msg).ring.toList m.mbCapacity = _
  rw [ring_post h]
  exact RingBuffer.toList_pushBack h hroom msg

/-- … a post at the front, … -/
theorem messages_postFront {m : Resource} (h : m.ring.Wf m.mbCapacity) (hroom : m.mbCount < m.mbCapacity)
    (hsum : IsInt (m.mbHead - 1 + m.mbCapacity)) (msg : Int) :
    (m.postFront msg).messages = msg :: m.messages := by
  show (m.postFront msg).ring.toList m.mbCapacity = _
  rw [ring_postFront h hsum]
  exact RingBuffer.toList_pushFront h hroom msg

/-- … and a fetch, on the messages. -/
theorem messages_fetch {m : Resource} (h : m.ring.Wf m.mbCapacity) (hlive : m.mbCount ≠ 0) :
    m.messages = m.mbMessages m.mbHead :: m.fetch.messages := by
  have hcount : 0 < m.ring.count := by
    have h0 : 0 ≤ m.mbCount := h.count_nonneg
    show 0 < m.mbCount
    omega
  show _ = _ :: m.fetch.ring.toList m.mbCapacity
  rw [ring_fetch h]
  exact RingBuffer.toList_popFront h hcount

theorem MailStep.post {cap : Int} {m : Resource} (h : MailOk cap m) (hroom : m.mbCount < m.mbCapacity)
    (msg : Int) : MailStep cap (some (.pushBack msg)) m (m.post msg) := by
  obtain ⟨rfl, hsmall, hwf⟩ := h
  refine ⟨⟨rfl, hsmall, ?_⟩, .single ?_⟩
  · rw [ring_post hwf]
    exact hwf.pushBack hroom msg
  · show Deque.Step _ _ _ ((m.post msg).ring.toList m.mbCapacity)
    rw [ring_post hwf]
    exact RingBuffer.pushBack_step hwf hroom msg

theorem MailStep.postFront {cap : Int} {m : Resource} (h : MailOk cap m)
    (hroom : m.mbCount < m.mbCapacity) (msg : Int) :
    MailStep cap (some (.pushFront msg)) m (m.postFront msg) := by
  have hsum := h.isInt
  obtain ⟨rfl, hsmall, hwf⟩ := h
  refine ⟨⟨rfl, hsmall, ?_⟩, .single ?_⟩
  · rw [ring_postFront hwf hsum]
    exact hwf.pushFront hroom msg
  · show Deque.Step _ _ _ ((m.postFront msg).ring.toList m.mbCapacity)
    rw [ring_postFront hwf hsum]
    exact RingBuffer.pushFront_step hwf hroom msg

theorem MailStep.fetch {cap : Int} {m m' : Resource} (h : MailOk cap m) (hlive : m.mbCount ≠ 0)
    (hsame : m'.mail = m.fetch.mail) :
    MailStep cap (some (.popFront (m.mbMessages m.mbHead))) m m' := by
  obtain ⟨rfl, hsmall, hwf⟩ := h
  have hcount : 0 < m.mbCount := by
    have : 0 ≤ m.mbCount := hwf.count_nonneg
    omega
  have hok : MailOk m.mbCapacity m.fetch :=
    ⟨rfl, hsmall, by rw [ring_fetch hwf]; exact hwf.popFront hcount⟩
  refine ⟨hok.congr hsame, .single ?_⟩
  rw [messages_congr hsame]
  show Deque.Step _ _ _ (m.fetch.ring.toList m.mbCapacity)
  rw [ring_fetch hwf]
  exact RingBuffer.popFront_step hwf hcount

/-! ## What a call does to a mailbox -/

/-- The operation that a call of `smash_execute_step` for `tid` performs on the mailbox `m`: none when the
primitive returns `false`, and for a fetch the removal of the message it writes out. -/
def mailOp (sc : Scenario) (w : World) (tid m : Int) : Option (Deque.Op Int) :=
  let v := (w.tick sc).1
  if (v.threads tid).state ≠ .ready then none
  else
    match sc.actionAt tid (v.threads tid).pc with
    | none => none
    | some a =>
      if a.resourceId ≠ m then none
      else
        match a.type with
        | .mbPost => if (mbPost v tid m a.arg).ret then some (.pushBack a.arg) else none
        | .mbPostFront => if (mbPostFront v tid m a.arg).ret then some (.pushFront a.arg) else none
        | .mbFetch => (mbFetch v tid m).2.map .popFront
        | _ => none

/-- The operations on `m` along a schedule. -/
def mailOps (sc : Scenario) (m : Int) : World → List Int → List (Deque.Op Int)
  | _, [] => []
  | w, t :: ts => (mailOp sc w t m).toList ++ mailOps sc m (w.executeStep sc t).world ts

@[simp] theorem wakeAll_mail (r : Int) (n : Nat) (w : World) (s : Int) :
    ((wakeAll r n w).1.resources s).mail = (w.resources s).mail := by
  induction n generalizing w with
  | zero => rfl
  | succ n ih => exact (ih _).trans (waiterRemove_mail w r 0 s)

/-- Only a mailbox operation touches what a mailbox is made of, and only in the mailbox it names. -/
theorem Act.mail_same {tid : Int} {a : Action} {w w' : World} (h : Act sc tid a w w') {s : Int}
    (hs : a.type.mails = true → s ≠ a.resourceId) :
    (w'.resources s).mail = (w.resources s).mail := by
  have hwrite : ∀ {v : World} {r : Int} {f : Resource → Resource},
      (f (v.resources r)).mail = (v.resources r).mail →
      ((v.modResource r f).resources s).mail = (v.resources s).mail :=
    fun hf => World.modResource_field Resource.mail hf s
  cases h with
  | bookkeep | exit | condLost => rfl
  | lifecycle | take | signal =>
    rw [World.advance_resources]
    apply hwrite
    rfl
  | acquire =>
    rw [World.advance_resources, World.modThread_resources]
    apply hwrite
    rfl
  | blockMutex =>
    rw [World.arm_resources, boost_resources]
    exact enqueue_mail ..
  | blockSem =>
    rw [World.arm_resources]
    exact enqueue_mail ..
  | unlock =>
    by_cases hlive : 0 < ((lowered sc w tid a.resourceId).resources a.resourceId).waiters.count
    · rw [handOver_of_waiters hlive, World.advance_resources, World.modThread_resources]
      refine (hwrite ?_).trans ?_
      · rfl
      · exact waiterRemove_mail (lowered sc w tid a.resourceId) _ _ s
    · rw [handOver_of_empty hlive, World.advance_resources]
      apply hwrite
      rfl
  | grant | condSignal => exact waiterRemove_mail ..
  | condWait m =>
    refine (enqueue_mail _ _ _ _ s).trans ?_
    apply hwrite
    rfl
  | condBroadcast => exact wakeAll_mail ..
  | mail hk =>
    rw [World.advance_resources, World.modResource_of_ne _ (hs hk)]
  | mailBlock => exact enqueue_mail ..
  | @mailWake f hk =>
    have hne : s ≠ a.resourceId := hs (by rw [hk]; rfl)
    rw [World.advance_resources, World.modThread_resources, waiterRemove_mail,
      World.modResource_of_ne _ hne]

theorem Outcome.advanceIfTrue_resources (o : Outcome) (tid : Int) :
    (o.advanceIfTrue tid).world.resources = o.world.resources := by
  unfold Outcome.advanceIfTrue
  split <;> rfl

/-- A post, at either end, performs its operation when it returns `true`. -/
theorem MailStep.posted {cap : Int} {w : World} {tid r : Int} {f : Resource → Resource} {o : Outcome}
    {op : Deque.Op Int} (hm : MailOk cap (w.resources r)) (hposted : Posted w tid r f o)
    (hsent : (w.resources r).mbCount < (w.resources r).mbCapacity →
      MailStep cap (some op) (w.resources r) (f (w.resources r))) :
    MailStep cap (if o.ret then some op else Option.none) (w.resources r) (o.world.resources r) := by
  cases hposted with
  | sent hret hroom hw =>
    rw [hret, hw, World.modResource_self]
    exact hsent hroom
  | waits _ hret _ hw =>
    rw [hret, hw]
    exact .none hm (enqueue_mail ..)

/-- **A call performs `mailOp` on each mailbox.** -/
theorem mail_step {w : World} {tid m cap : Int} (h : (w.executeStep sc tid).fault = none)
    (hm : MailOk cap (w.resources m)) :
    MailStep cap (mailOp sc w tid m) (w.resources m)
      ((w.executeStep sc tid).world.resources m) := by
  have htick : (w.tick sc).1.resources = w.resources := tick_resources w
  rcases executeStep_cases h with ⟨hidle, hw⟩ | ⟨hready, hat, hw⟩ | ⟨a, hready, hat, _, hok, hw⟩
  · have hop : mailOp sc w tid m = none := if_pos hidle
    rw [hop, hw, htick]
    exact .none hm rfl
  · have hop : mailOp sc w tid m = none := by simp [mailOp, hready, hat]
    rw [hop, hw, World.modThread_resources, htick]
    exact .none hm rfl
  rw [← htick] at hm ⊢
  rw [hw]
  unfold mailOp
  dsimp only
  rw [if_neg (by simpa using hready), hat]
  dsimp only
  generalize (w.tick sc).1 = v at hm hready hat hok ⊢
  by_cases hne : a.resourceId ≠ m
  · rw [if_pos hne]
    exact .none hm ((dispatch_act hok).mail_same fun _ => Ne.symm hne)
  rw [if_neg hne]
  obtain rfl : a.resourceId = m := by simpa using hne
  obtain ⟨type, r, arg⟩ := a
  dsimp only at hm hok ⊢
  by_cases hk : type.mails = false
  · have hsame := (dispatch_act hok).mail_same (s := r) fun hmails => by
      exact absurd (hk.symm.trans hmails) (by decide)
    cases type <;> first | exact absurd hk (by decide) | exact .none hm hsame
  cases type <;> try exact absurd rfl hk
  case mbPost =>
    simp only [World.dispatch, Outcome.finish_fault, Outcome.finish_world,
      Outcome.advanceIfTrue_fault, Outcome.advanceIfTrue_resources] at hok ⊢
    exact .posted hm (mbPost_cases hok) fun hroom => .post hm hroom arg
  case mbPostFront =>
    simp only [World.dispatch, Outcome.finish_fault, Outcome.finish_world,
      Outcome.advanceIfTrue_fault, Outcome.advanceIfTrue_resources] at hok ⊢
    exact .posted hm (mbPostFront_cases hok) fun hroom => .postFront hm hroom arg
  case mbFetch =>
    simp only [World.dispatch, Outcome.finish_fault, Outcome.finish_world,
      Outcome.advanceIfTrue_fault, Outcome.advanceIfTrue_resources] at hok ⊢
    rcases mbFetch_cases hok with ⟨_, hlive, hout, ⟨_, hw⟩ | ⟨_, hw⟩⟩ | ⟨_, hout, _, _, hw⟩
    · rw [hout, hw, World.modThread_resources]
      refine .fetch hm hlive ((waiterRemove_mail ..).trans ?_)
      rw [World.modResource_self]
    · rw [hout, hw, World.modResource_self]
      exact .fetch hm hlive rfl
    · rw [hout, hw]
      exact .none hm (enqueue_mail ..)

/-! ## Over every run -/

theorem mail_run {w w' : World} {ts : List Int} (h : (callSystem sc).Run w ts w') {m cap : Int}
    (hm : MailOk cap (w.resources m)) :
    MailOk cap (w'.resources m) ∧ (Deque.system Int cap).Run (w.resources m).messages
      (mailOps sc m w ts) (w'.resources m).messages := by
  induction h with
  | nil => exact ⟨hm, .nil _⟩
  | cons hst _ ih =>
    obtain ⟨_, hok, rfl⟩ := hst
    obtain ⟨hm', hrun⟩ := mail_step hok hm
    obtain ⟨hend, hrest⟩ := ih hm'
    exact ⟨hend, hrun.append hrest⟩

theorem mail_reset (before : World) {m : Int} (hr : sc.IsResource m)
    (hcap : 1 ≤ sc.mbCapacity m ∧ sc.mbCapacity m ≤ smashMaxWaiters) :
    MailOk (sc.mbCapacity m) ((before.reset sc).resources m) ∧
      ((before.reset sc).resources m).messages = [] := by
  have hreset : (before.reset sc).resources m = (before.resources m).reset sc m := by
    simp only [World.reset, if_pos hr]
  rw [hreset]
  refine ⟨⟨rfl, hcap.2, ⟨le_rfl, ?_, le_rfl, ?_, ?_⟩⟩, RingBuffer.toList_eq_nil rfl⟩
  · show 0 < sc.mbCapacity m
    omega
  · show 0 ≤ sc.mbCapacity m
    omega
  · exact (Int.zero_emod _).symm

/-- **A mailbox is a bounded deque.** Along every run from reset its content goes through a run of the
deque of the configured capacity, which starts empty and performs the operations of the calls that
succeed, in order; and the indices are in order at the end. -/
theorem mailbox_is_deque (hm : sc.Mail) {before w : World} {ts : List Int}
    (hrun : (callSystem sc).Run (before.reset sc) ts w) {m : Int} (hr : sc.IsResource m)
    (htype : sc.resTypes m = .mailbox) :
    let mb := w.resources m
    (Deque.system Int (sc.mbCapacity m)).Run [] (mailOps sc m (before.reset sc) ts) mb.messages ∧
      mb.mbCapacity = sc.mbCapacity m ∧ 0 ≤ mb.mbCount ∧ mb.mbCount ≤ mb.mbCapacity ∧
      0 ≤ mb.mbHead ∧ mb.mbHead < mb.mbCapacity ∧
      mb.mbTail = (mb.mbHead + mb.mbCount) % mb.mbCapacity := by
  intro mb
  obtain ⟨hok, hempty⟩ := mail_reset before hr (hm.capacity m hr htype)
  obtain ⟨⟨hcap, -, hwf⟩, hdeque⟩ := mail_run hrun hok
  rw [hempty] at hdeque
  rw [← hcap] at hwf
  exact ⟨hdeque, hcap, hwf.count_nonneg, hwf.count_le, hwf.head_nonneg, hwf.head_lt, hwf.tail_eq⟩

/-- `mailbox_priority` of `test_chibios_v2.c`. -/
def mailboxPriority : Scenario :=
  { Scenario.ofSteps [[⟨.mbPost, 0, 1⟩], [⟨.mbPostFront, 0, 99⟩], [⟨.mbFetch, 0, 0⟩, ⟨.mbFetch, 0, 0⟩]]
      [.mailbox] [] with
    mbCapacity := fun r => if r = 0 then 4 else 0 }

theorem mailboxPriority_mail : mailboxPriority.Mail where
  toMatching := Scenario.matching_of_steps (by decide) (by decide)
  capacity := Scenario.forall_isResource (by decide)

/-- After both posts the urgent message is in front. -/
theorem mailbox_is_deque_priority :
    let mb := ((startWorld mailboxPriority).calls mailboxPriority [0, 1]).resources 0
    (Deque.system Int (mailboxPriority.mbCapacity 0)).Run []
        (mailOps mailboxPriority 0 (startWorld mailboxPriority) [0, 1]) mb.messages ∧
      mb.mbCapacity = mailboxPriority.mbCapacity 0 ∧ 0 ≤ mb.mbCount ∧ mb.mbCount ≤ mb.mbCapacity ∧
      0 ≤ mb.mbHead ∧ mb.mbHead < mb.mbCapacity ∧
      mb.mbTail = (mb.mbHead + mb.mbCount) % mb.mbCapacity :=
  mailbox_is_deque mailboxPriority_mail (callSystem_run (by decide +kernel)) (by decide) rfl

example : (((startWorld mailboxPriority).calls mailboxPriority [0, 1]).resources 0).messages
    = [99, 1] := by decide +kernel

end Smash
