import Smash.Proof.Mailbox
import Smash.Proof.Priority

/-!
# Wakeups on mailboxes

Senders and receivers of a mailbox wait in one queue, and `smash_mb_fetch` alone takes anybody out of it. So a
post that finds a receiver waiting leaves it asleep beside the message (`basicMailbox_loses`), and that is
the only way to lose a wakeup: as long as no post goes past a waiting receiver, a receiver waits for an
empty mailbox only, and to each place that is free while a sender waits there is a sender awake that will
fill it (`Supplied`). In a state where nobody is READY nothing is left over (`no_lost_wakeup`).
-/

set_option autoImplicit false

namespace Smash

variable {sc : Scenario}

/-- `ACT_MB_POST` and `ACT_MB_POST_FRONT`. -/
def ActionType.posts (a : ActionType) : Bool := a = .mbPost || a = .mbPostFront

/-- A scenario of mailbox operations and resource-free actions. -/
structure Scenario.MailOnly (sc : Scenario) : Prop extends sc.Mail where
  only : ∀ t, sc.IsThread t → ∀ pc a, sc.actionAt t pc = some a →
    a.type.mails = true ∨ a.type.resourceFree = true

/-- With nobody READY, no receiver waits beside a message and no sender beside a free place. -/
def NoLostWakeup (sc : Scenario) (w : World) : Prop :=
  Stuck sc w → ∀ t, sc.IsThread t → (w.threads t).blocked = true →
    ∀ a, sc.actionAt t (w.threads t).pc = some a →
      (a.type = .mbFetch → ¬ 0 < (w.resources a.resourceId).mbCount) ∧
      (a.type.posts = true →
        ¬ (w.resources a.resourceId).mbCount < (w.resources a.resourceId).mbCapacity)

/-- `tid` is about to post to a mailbox with room in whose queue a receiver waits. -/
def PostsPastReceiver (sc : Scenario) (w : World) (tid : Int) : Prop :=
  (w.threads tid).state = .ready ∧ ∃ a, sc.actionAt tid (w.threads tid).pc = some a ∧
    a.type.posts = true ∧
    (w.resources a.resourceId).mbCount < (w.resources a.resourceId).mbCapacity ∧
    ∃ u ∈ (w.resources a.resourceId).waiters.toList, ∃ b,
      sc.actionAt u (w.threads u).pc = some b ∧ b.type = .mbFetch

instance (w : World) (tid : Int) : Decidable (PostsPastReceiver sc w tid) :=
  decidable_of_iff ((w.threads tid).state = .ready ∧
      (sc.actionAt tid (w.threads tid).pc).any fun a => a.type.posts &&
        decide ((w.resources a.resourceId).mbCount < (w.resources a.resourceId).mbCapacity) &&
        (w.resources a.resourceId).waiters.toList.any fun u =>
          (sc.actionAt u (w.threads u).pc).any fun b => b.type = .mbFetch) (by
    simp only [PostsPastReceiver, Option.any_eq_true, List.any_eq_true, Bool.and_eq_true,
      decide_eq_true_eq, and_assoc])

/-! ## The invariant -/

/-- The senders that are awake: READY, with a post to `m` next. -/
def senders (sc : Scenario) (w : World) (m : Int) : Finset Int :=
  sc.threadSet.filter fun t => (w.threads t).state = .ready ∧
    (sc.actionAt t (w.threads t).pc).any fun a => a.type.posts && a.resourceId = m

theorem mem_senders {w : World} {m t : Int} : t ∈ senders sc w m ↔ sc.IsThread t ∧
    (w.threads t).state = .ready ∧ ∃ a, sc.actionAt t (w.threads t).pc = some a ∧
      a.type.posts = true ∧ a.resourceId = m := by
  simp [senders, Option.any_eq_true]

/-- A thread that waits in an action of the kind `k` on `m`. -/
def WaitsIn (sc : Scenario) (w : World) (k : ActionType → Bool) (m u : Int) : Prop :=
  sc.IsThread u ∧ (w.threads u).blocked = true ∧
    ∃ b, sc.actionAt u (w.threads u).pc = some b ∧ k b.type = true ∧ b.resourceId = m

/-- Who waits for `m` waits with reason: a receiver for want of a message, a sender for want of a place
that no sender awake is going to take. -/
structure Supplied (sc : Scenario) (w : World) (m : Int) : Prop where
  receiver : ∀ u, WaitsIn sc w (· = .mbFetch) m u → (w.resources m).mbCount = 0
  sender : ∀ u, WaitsIn sc w (·.posts) m u →
    (w.resources m).mbCapacity ≤ (w.resources m).mbCount + ((senders sc w m).card : Int)

theorem ActionType.mails_of_posts {a : ActionType} (h : a.posts = true) : a.mails = true := by
  simp only [ActionType.posts, Bool.or_eq_true, decide_eq_true_eq] at h
  rcases h with rfl | rfl <;> rfl

/-- Whoever waits was waiting before the step, or is the thread that ran. -/
theorem WaitsIn.before {w w' : World} {tid u m : Int} {a : Action} {k : ActionType → Bool}
    (heff : Effect w tid a u (w'.threads u))
    (hat : a.type.wait ≠ none → sc.actionAt tid (w.threads tid).pc = some a)
    (h : WaitsIn sc w' k m u) :
    WaitsIn sc w k m u ∨ (u = tid ∧ k a.type = true ∧ a.resourceId = m) := by
  obtain ⟨hu, hb, b, hbt, hk, hm⟩ := h
  generalize w'.threads u = t' at heff hb hbt
  cases heff with
  | stays hs _ hpc _ =>
    exact .inl ⟨hu, (Thread.blocked_congr hs).symm.trans hb, b, hpc ▸ hbt, hk, hm⟩
  | runs _ hnot =>
    rw [hnot] at hb
    exact absurd hb (by simp)
  | waits hself hwait _ hpc _ =>
    subst hself
    have hat := hat (by rw [hwait]; simp)
    rw [hpc, hat] at hbt
    obtain rfl := Option.some.inj hbt
    exact .inr ⟨rfl, hk, hm⟩
  | woken _ _ _ hs _ =>
    exact absurd hs (Thread.not_ready_of_blocked hb)

/-- A sender that is awake stays awake until it runs. -/
theorem sender_stays {w w' : World} (hp : Parked sc w) {tid t m : Int} {a : Action}
    (hr : a.type.wakes = true → sc.IsResource a.resourceId)
    (heff : Effect w tid a t (w'.threads t)) (ht : t ∈ senders sc w m) (hne : t ≠ tid) :
    t ∈ senders sc w' m := by
  obtain ⟨hthread, hready, hnext⟩ := mem_senders.mp ht
  generalize hw' : w'.threads t = t' at heff
  cases heff with
  | stays hs _ hpc _ =>
    refine mem_senders.mpr ⟨hthread, ?_, ?_⟩
    · rw [hw', hs, hready]
    · rw [hw', hpc]
      exact hnext
  | runs hself => exact absurd hself hne
  | waits hself => exact absurd hself hne
  | woken _ hwakes hmem _ _ =>
    have hb := ((mem_waiters_of_sound hp.sound (hr hwakes)).mp hmem).2.1
    exact absurd hready (Thread.not_ready_of_blocked hb)

section step

variable {w w' : World} {tid m : Int} {a : Action} (hp : Parked sc w)
  (hr : a.type.wakes = true → sc.IsResource a.resourceId)
  (heff : ∀ u, Effect w tid a u (w'.threads u))
  (hat : a.type.wait ≠ none → sc.actionAt tid (w.threads tid).pc = some a)

include hp hr heff in
/-- The senders awake after a step are all but the thread that ran, at least. -/
theorem senders_erase_subset : (senders sc w m).erase tid ⊆ senders sc w' m := fun t ht =>
  sender_stays hp hr (heff t) (Finset.mem_of_mem_erase ht) (Finset.ne_of_mem_erase ht)

include hp hr heff in
theorem senders_card_le : ((senders sc w m).card : Int) ≤ (senders sc w' m).card + 1 := by
  have hsub := Finset.card_le_card (senders_erase_subset (m := m) hp hr heff)
  have herase := Finset.pred_card_le_card_erase (s := senders sc w m) (a := tid)
  omega

include hp hr heff in
/-- A thread that was not about to post to `m` is not missed among the senders. -/
theorem senders_subset (hself : tid ∉ senders sc w m) : senders sc w m ⊆ senders sc w' m := by
  have hsub := senders_erase_subset (m := m) hp hr heff
  rwa [Finset.erase_eq_of_notMem hself] at hsub

include hp hr heff hat in
/-- A step that has nothing to do with `m`. -/
theorem Supplied.elsewhere (h : Supplied sc w m)
    (hsame : (w'.resources m).mail = (w.resources m).mail) (hself : tid ∉ senders sc w m)
    (hwait : a.type.wait ≠ none → a.resourceId ≠ m) : Supplied sc w' m := by
  obtain ⟨hring, hcap⟩ := Prod.mk.inj hsame
  have hcount : (w'.resources m).mbCount = (w.resources m).mbCount := congrArg RingBuffer.count hring
  have hbefore : ∀ {k : ActionType → Bool} {u}, (∀ x, k x = true → x.wait ≠ none) →
      WaitsIn sc w' k m u → WaitsIn sc w k m u := by
    intro k u hk hu
    rcases hu.before (heff u) hat with hold | ⟨_, hka, hm⟩
    · exact hold
    · exact absurd hm (hwait (hk _ hka))
  refine ⟨fun u hu => ?_, fun u hu => ?_⟩
  · rw [hcount]
    refine h.receiver u (hbefore (fun x hx => ?_) hu)
    rw [of_decide_eq_true hx]
    simp [ActionType.wait]
  · have hold := h.sender u (hbefore (fun x hx => by
      rw [(ActionType.wait_of_mails (ActionType.mails_of_posts hx)).1]; simp) hu)
    have hcard := Finset.card_le_card (senders_subset hp hr heff hself)
    rw [hcount, show (w'.resources m).mbCapacity = (w.resources m).mbCapacity from hcap]
    omega

end step

/-! ## One step -/

theorem not_mem_senders {w : World} {tid m : Int} {a : Action}
    (hat : sc.actionAt tid (w.threads tid).pc = some a)
    (h : a.type.posts = true → a.resourceId ≠ m) : tid ∉ senders sc w m := by
  intro hmem
  obtain ⟨_, _, b, hb, hposts, hm⟩ := mem_senders.mp hmem
  rw [hat] at hb
  obtain rfl := Option.some.inj hb
  exact h hposts hm

theorem waitsIn_mem {w : World} (hw : (callSystem sc).Reach w) (hp : Parked sc w) {m u : Int}
    (hr : sc.IsResource m) {k : ActionType → Bool} (h : WaitsIn sc w k m u) :
    u ∈ (w.resources m).waiters.toList := by
  obtain ⟨hu, hb, b, hbt, _, hm⟩ := h
  obtain ⟨b', hbt', _, hon⟩ := reach_standsAt hw hu hb
  rw [hbt] at hbt'
  obtain rfl := Option.some.inj hbt'
  exact (mem_waiters_of_sound hp.sound hr).mpr ⟨hu, hb, hon.trans hm⟩

/-- A waiter of a mailbox waits to receive or to send. -/
theorem waitsIn_of_mem (hm : sc.MailOnly) {w : World} (hw : (callSystem sc).Reach w)
    (hp : Parked sc w) {m u : Int} (hr : sc.IsResource m) (hu : u ∈ (w.resources m).waiters.toList) :
    WaitsIn sc w (· = .mbFetch) m u ∨ WaitsIn sc w (·.posts) m u := by
  obtain ⟨ht, hb, hon⟩ := (mem_waiters_of_sound hp.sound hr).mp hu
  obtain ⟨b, hbt, hwait, hres⟩ := reach_standsAt hw ht hb
  have hbm : b.resourceId = m := hres.symm.trans hon
  rcases hm.only u ht _ b hbt with hk | hk
  · simp only [ActionType.mails, Bool.or_eq_true, decide_eq_true_eq] at hk
    rcases hk with (hk | hk) | hk
    · exact .inr ⟨ht, hb, b, hbt, by rw [hk]; rfl, hbm⟩
    · exact .inr ⟨ht, hb, b, hbt, by rw [hk]; rfl, hbm⟩
    · exact .inl ⟨ht, hb, b, hbt, by simp [hk], hbm⟩
  · cases htype : b.type <;> simp_all [ActionType.resourceFree, ActionType.wait]

/-- A post that goes through, past no receiver. -/
theorem Supplied.posted {w w' : World} {tid m : Int} {a : Action} (hw : (callSystem sc).Reach w)
    (hp : Parked sc w) (hr : sc.IsResource m) (hready : (w.threads tid).state = .ready)
    (hat : sc.actionAt tid (w.threads tid).pc = some a) (ham : a.resourceId = m)
    (hposts : a.type.posts = true)
    (hroom : (w.resources m).mbCount < (w.resources m).mbCapacity)
    (hC : ¬ PostsPastReceiver sc w tid) (heff : ∀ u, Effect w tid a u (w'.threads u))
    (hcount : (w'.resources m).mbCount = (w.resources m).mbCount + 1)
    (hcap : (w'.resources m).mbCapacity = (w.resources m).mbCapacity)
    (hrun : (w'.threads tid).blocked = false) (h : Supplied sc w m) : Supplied sc w' m := by
  subst ham
  have hbefore : ∀ {k : ActionType → Bool} {u}, WaitsIn sc w' k a.resourceId u →
      WaitsIn sc w k a.resourceId u := by
    intro k u hu
    rcases hu.before (heff u) (fun _ => hat) with hold | ⟨rfl, _⟩
    · exact hold
    · exact absurd (hrun.symm.trans hu.2.1) (by decide)
  refine ⟨fun u hu => ?_, fun u hu => ?_⟩
  · have hmem := waitsIn_mem hw hp hr (hbefore hu)
    obtain ⟨_, _, b, hbt, hk, _⟩ := hbefore hu
    exact absurd ⟨hready, a, hat, hposts, hroom, u, hmem, b, hbt, of_decide_eq_true hk⟩ hC
  · have hold := h.sender u (hbefore hu)
    have hcard := senders_card_le (m := a.resourceId) hp (fun _ => hr) heff
    rw [hcount, hcap]
    omega

/-- A post that blocks. -/
theorem Supplied.postBlocked {w w' : World} {tid m : Int} {a : Action}
    (hat : sc.actionAt tid (w.threads tid).pc = some a) (hposts : a.type.posts = true)
    (hfull : (w.resources m).mbCapacity ≤ (w.resources m).mbCount)
    (heff : ∀ u, Effect w tid a u (w'.threads u))
    (hsame : (w'.resources m).mail = (w.resources m).mail) (h : Supplied sc w m) :
    Supplied sc w' m := by
  obtain ⟨hring, hcap⟩ := Prod.mk.inj hsame
  have hcount : (w'.resources m).mbCount = (w.resources m).mbCount := congrArg RingBuffer.count hring
  refine ⟨fun u hu => ?_, fun u _ => ?_⟩
  · rw [hcount]
    rcases hu.before (heff u) (fun _ => hat) with hold | ⟨_, hk, _⟩
    · exact h.receiver u hold
    · rw [of_decide_eq_true hk] at hposts
      exact absurd hposts (by decide)
  · rw [hcount, show (w'.resources m).mbCapacity = (w.resources m).mbCapacity from hcap]
    omega

/-- A fetch that goes through: nobody waits to receive, so whom it wakes is a sender. -/
theorem Supplied.fetched (hm : sc.MailOnly) {w w' : World} {tid m : Int} {a : Action}
    (hw : (callSystem sc).Reach w) (hp : Parked sc w) (hr : sc.IsResource m)
    (hat : sc.actionAt tid (w.threads tid).pc = some a) (hk : a.type = .mbFetch)
    (hlive : (w.resources m).mbCount ≠ 0) (heff : ∀ u, Effect w tid a u (w'.threads u))
    (hcount : (w'.resources m).mbCount = (w.resources m).mbCount - 1)
    (hcap : (w'.resources m).mbCapacity = (w.resources m).mbCapacity)
    (hra : sc.IsResource a.resourceId) (hrun : (w'.threads tid).blocked = false)
    (hwoken : (w.resources m).waiters.toList ≠ [] → ∃ woken ∈ (w.resources m).waiters.toList,
      woken ≠ tid ∧ (w'.threads woken).state = .ready ∧
        (w'.threads woken).pc = (w.threads woken).pc) (h : Supplied sc w m) : Supplied sc w' m := by
  have hbefore : ∀ {k : ActionType → Bool} {u}, WaitsIn sc w' k m u → WaitsIn sc w k m u := by
    intro k u hu
    rcases hu.before (heff u) (fun _ => hat) with hold | ⟨rfl, _⟩
    · exact hold
    · exact absurd (hrun.symm.trans hu.2.1) (by decide)
  refine ⟨fun u hu => absurd (h.receiver u (hbefore hu)) hlive, fun u hu => ?_⟩
  have hold := h.sender u (hbefore hu)
  obtain ⟨woken, hmem, hne, hstate, hpc⟩ :=
    hwoken (List.ne_nil_of_mem (waitsIn_mem hw hp hr (hbefore hu)))
  have hsends : WaitsIn sc w (·.posts) m woken := by
    rcases waitsIn_of_mem hm hw hp hr hmem with hreceives | hsends
    · exact absurd (h.receiver _ hreceives) hlive
    · exact hsends
  obtain ⟨hthread, hblocked, b, hbt, hposts, hbm⟩ := hsends
  -- The thread that was woken is a sender more.
  have hnew : woken ∉ senders sc w m := by
    intro hin
    exact absurd (mem_senders.mp hin).2.1 (Thread.not_ready_of_blocked hblocked)
  have hself : tid ∉ senders sc w m := not_mem_senders hat fun hp' => by
    rw [hk] at hp'
    exact absurd hp' (by decide)
  have hsub : insert woken (senders sc w m) ⊆ senders sc w' m := by
    refine Finset.insert_subset (mem_senders.mpr ⟨hthread, hstate, b, ?_, hposts, hbm⟩)
      (senders_subset hp (fun _ => hra) heff hself)
    rw [hpc]
    exact hbt
  have hcard := Finset.card_le_card hsub
  rw [Finset.card_insert_of_notMem hnew] at hcard
  rw [hcount, hcap]
  omega

/-- A fetch that blocks. -/
theorem Supplied.fetchBlocked {w w' : World} {tid m : Int} {a : Action} (hp : Parked sc w)
    (hra : sc.IsResource a.resourceId) (hat : sc.actionAt tid (w.threads tid).pc = some a)
    (hk : a.type = .mbFetch) (hempty : (w.resources m).mbCount = 0)
    (heff : ∀ u, Effect w tid a u (w'.threads u))
    (hsame : (w'.resources m).mail = (w.resources m).mail) (h : Supplied sc w m) :
    Supplied sc w' m := by
  obtain ⟨hring, hcap⟩ := Prod.mk.inj hsame
  have hcount : (w'.resources m).mbCount = (w.resources m).mbCount := congrArg RingBuffer.count hring
  have hself : tid ∉ senders sc w m := not_mem_senders hat fun hp' => by
    rw [hk] at hp'
    exact absurd hp' (by decide)
  refine ⟨fun u _ => hcount.trans hempty, fun u hu => ?_⟩
  rcases hu.before (heff u) (fun _ => hat) with hold | ⟨_, hposts, _⟩
  · have hold := h.sender u hold
    have hcard := Finset.card_le_card (senders_subset hp (fun _ => hra) heff hself)
    rw [hcount, show (w'.resources m).mbCapacity = (w.resources m).mbCapacity from hcap]
    omega
  · rw [hk] at hposts
    exact absurd hposts (by decide)

/-- A post, at either end. -/
theorem Supplied.posts {w : World} {tid : Int} {a : Action} {f : Resource → Resource} {o : Outcome}
    (hw : (callSystem sc).Reach w) (hp : Parked sc w) (hr : sc.IsResource a.resourceId)
    (hready : (w.threads tid).state = .ready)
    (hat : sc.actionAt tid (w.threads tid).pc = some a) (hposts : a.type.posts = true)
    (hC : ¬ PostsPastReceiver sc w tid)
    (hcount : ∀ m, (f m).mbCount = m.mbCount + 1) (hcap : ∀ m, (f m).mbCapacity = m.mbCapacity)
    (heff : ∀ u, Effect w tid a u ((o.advanceIfTrue tid).world.threads u))
    (hposted : Posted w tid a.resourceId f o) (h : Supplied sc w a.resourceId) :
    Supplied sc (o.advanceIfTrue tid).world a.resourceId := by
  cases hposted with
  | sent hret hroom hworld =>
    rw [Outcome.advance_world_of_ret hret, hworld] at heff ⊢
    refine h.posted hw hp hr hready hat rfl hposts hroom hC heff ?_ ?_ (advance_not_blocked hready)
    · rw [World.advance_resources, World.modResource_self]
      exact hcount _
    · rw [World.advance_resources, World.modResource_self]
      exact hcap _
  | waits hfull hret _ hworld =>
    rw [Outcome.advance_world_of_not_ret hret, hworld] at heff ⊢
    exact h.postBlocked hat hposts hfull heff (enqueue_mail ..)

/-- **What a mailbox operation does to its mailbox.** -/
theorem Supplied.mails (hm : sc.MailOnly) {w : World} {tid : Int} {a : Action}
    (hw : (callSystem sc).Reach w) (hp : Parked sc w) (hr : sc.IsResource a.resourceId)
    (hready : (w.threads tid).state = .ready)
    (hat : sc.actionAt tid (w.threads tid).pc = some a) (hk : a.type.mails = true)
    (hok : (w.dispatch sc tid a).fault = none) (hC : ¬ PostsPastReceiver sc w tid)
    (h : Supplied sc w a.resourceId) :
    Supplied sc (w.dispatch sc tid a).world a.resourceId := by
  have heff := (dispatch_act hok).effect hready
  obtain ⟨type, r, arg⟩ := a
  have hkind : type.mails = true := hk
  cases type <;> try exact absurd hkind (by decide)
  case mbPost =>
    simp only [World.dispatch, Outcome.finish_fault, Outcome.advanceIfTrue_fault] at hok
    exact h.posts (f := (·.post arg)) hw hp hr hready hat rfl hC (fun _ => rfl) (fun _ => rfl) heff
      (mbPost_cases hok)
  case mbPostFront =>
    simp only [World.dispatch, Outcome.finish_fault, Outcome.advanceIfTrue_fault] at hok
    exact h.posts (f := (·.postFront arg)) hw hp hr hready hat rfl hC (fun _ => rfl) (fun _ => rfl)
      heff (mbPostFront_cases hok)
  case mbFetch =>
    have hworld : (w.dispatch sc tid ⟨.mbFetch, r, arg⟩).world
        = ((mbFetch w tid r).1.advanceIfTrue tid).world := rfl
    simp only [World.dispatch, Outcome.finish_fault, Outcome.advanceIfTrue_fault] at hok
    rw [hworld] at heff ⊢
    rcases mbFetch_cases hok with
      ⟨hret, hlive, _, ⟨hwait, hfetch⟩ | ⟨hnobody, hfetch⟩⟩ | ⟨hempty, _, hret, _, hfetch⟩
    · -- The first waiter is made ready, and stands where it stood.
      rw [Outcome.advance_world_of_ret hret, hfetch] at heff ⊢
      have hmem := LiveArray.cell_mem (a := (w.resources r).waiters) hwait
      have hne : (w.resources r).waiters.cell 0 ≠ tid := by
        intro heq
        have hb := ((mem_waiters_of_sound hp.sound hr).mp hmem).2.1
        rw [heq] at hb
        exact absurd hready (Thread.not_ready_of_blocked hb)
      have hmail : ((((w.modResource r (·.fetch)).waiterRemove r 0).resources r).mail)
          = (w.resources r).fetch.mail := by
        rw [waiterRemove_mail, World.modResource_self]
      obtain ⟨hring, hcap⟩ := Prod.mk.inj hmail
      refine h.fetched hm hw hp hr hat rfl hlive heff (congrArg RingBuffer.count hring) hcap hr ?_
        fun _ => ⟨_, hmem, hne, ?_, ?_⟩
      · refine advance_not_blocked ?_
        rw [World.modThread_of_ne _ hne.symm]
        exact hready
      · rw [World.advance_threads, if_neg hne, World.modThread_self]
        rfl
      · rw [World.advance_threads, if_neg hne, World.modThread_self]
        rfl
    · rw [Outcome.advance_world_of_ret hret, hfetch] at heff ⊢
      refine h.fetched hm hw hp hr hat rfl hlive heff ?_ ?_ hr (advance_not_blocked hready)
        fun hsome => ?_
      · rw [World.advance_resources, World.modResource_self]; rfl
      · rw [World.advance_resources, World.modResource_self]; rfl
      · exact absurd (LiveArray.toList_eq_nil.mpr hnobody) hsome
    · rw [Outcome.advance_world_of_not_ret hret, hfetch] at heff ⊢
      exact h.fetchBlocked hp hr hat rfl hempty heff (enqueue_mail ..)

/-- An action, past no receiver. -/
theorem Supplied.act (hm : sc.MailOnly) {w : World} {tid m : Int} {a : Action}
    (hw : (callSystem sc).Reach w) (hp : Parked sc w) (htid : sc.IsThread tid)
    (hready : (w.threads tid).state = .ready)
    (hat : sc.actionAt tid (w.threads tid).pc = some a)
    (hok : (w.dispatch sc tid a).fault = none) (hC : ¬ PostsPastReceiver sc w tid)
    (h : Supplied sc w m) : Supplied sc (w.dispatch sc tid a).world m := by
  rcases hm.only tid htid _ a hat with hk | hfree
  · have hr := (hm.operand tid htid _ a hat _ (ActionType.wait_of_mails hk).2).1
    by_cases hne : a.resourceId = m
    · subst hne
      exact h.mails hm hw hp hr hready hat hk hok hC
    · exact h.elsewhere hp (fun _ => hr) ((dispatch_act hok).effect hready) (fun _ => hat)
        ((dispatch_act hok).mail_same fun _ => Ne.symm hne) (not_mem_senders hat fun _ => hne)
        (fun _ => hne)
  · obtain ⟨hmails, hwait, hwakes⟩ : a.type.mails = false ∧ a.type.wait = none ∧
        a.type.wakes = false := by
      cases htype : a.type <;> rw [htype] at hfree <;>
        first | exact ⟨rfl, rfl, rfl⟩ | exact absurd hfree (by decide)
    refine h.elsewhere hp (fun hk => ?_) ((dispatch_act hok).effect hready) (fun _ => hat)
      ((dispatch_act hok).mail_same fun hk => ?_) (not_mem_senders hat fun hk => ?_) fun hk => ?_
    · exact absurd (hwakes.symm.trans hk) (by decide)
    · exact absurd (hmails.symm.trans hk) (by decide)
    · exact absurd (hmails.symm.trans (ActionType.mails_of_posts hk)) (by decide)
    · exact absurd hwait hk

/-! ## Over every run -/

theorem Scenario.MailOnly.untimed (hm : sc.MailOnly) : sc.Untimed := by
  intro t ht pc a hat
  rcases hm.only t ht pc a hat with hk | hk <;>
    cases htype : a.type <;> simp_all [Action.countdown, ActionType.mails, ActionType.resourceFree]

/-- What the end of a thread makes of a mailbox. -/
theorem Supplied.finished {w : World} {tid m : Int} (hp : Parked sc w)
    (hready : (w.threads tid).state = .ready) (hat : sc.actionAt tid (w.threads tid).pc = none)
    (h : Supplied sc w m) :
    Supplied sc (w.modThread tid fun t => { t with state := .done }) m := by
  have hmove : Move sc tid w (w.modThread tid fun t => { t with state := .done }) :=
    .finish hready hat
  have heff : ∀ u, Effect w tid ⟨.nop, -1, 0⟩ u
      ((w.modThread tid fun t => { t with state := .done }).threads u) := by
    intro u
    obtain ⟨a, rfl | ha, heff⟩ := hmove.effect u
    · exact heff
    · rw [hat] at ha
      exact absurd ha (by simp)
  refine h.elsewhere hp (fun hk => absurd hk (by decide)) heff (fun hk => absurd rfl hk) rfl
    (fun hmem => ?_) fun hk => absurd rfl hk
  obtain ⟨_, _, a, ha, _⟩ := mem_senders.mp hmem
  rw [hat] at ha
  exact absurd ha (by simp)

/-- Every waiter of a mailbox waits with reason, as long as nobody posts past a receiver. -/
theorem supplied_reach (hm : sc.MailOnly) {w : World}
    (h : ((callSystem sc).restrict fun w tid => ¬ PostsPastReceiver sc w tid).Reach w) (m : Int) :
    Supplied sc w m := by
  induction h with
  | init hi =>
    obtain ⟨before, rfl⟩ := hi
    have hnot : ∀ {k u}, ¬ WaitsIn sc (before.reset sc) k m u := by
      rintro k u ⟨hu, hb, _⟩
      simp only [World.reset, if_pos hu] at hb
      exact (Thread.not_ready_of_blocked hb rfl).elim
    exact ⟨fun u hu => absurd hu hnot, fun u hu => absurd hu hnot⟩
  | @step w w' tid hreach hst ih =>
    obtain ⟨⟨htid, hok, rfl⟩, hC⟩ := hst
    have hw := hreach.of_restrict
    have hp := parked_reach hm.toMatching hm.untimed hw
    rcases executeStep_cases_of_tick hp.tick_eq hok
      with ⟨_, hw'⟩ | ⟨hready, hat, hw'⟩ | ⟨a, hready, hat, _, hok', hw'⟩
    · rw [hw']
      exact ih
    · rw [hw']
      exact ih.finished hp hready hat
    · rw [hw']
      exact ih.act hm hw hp htid hready hat hok' hC

/-- **No wakeup is lost as long as no post goes past a waiting receiver.** -/
theorem no_lost_wakeup (hm : sc.MailOnly) {w : World}
    (h : ((callSystem sc).restrict fun w tid => ¬ PostsPastReceiver sc w tid).Reach w) :
    NoLostWakeup sc w := by
  intro hstuck t ht hb a hat
  have hsupplied := supplied_reach hm h a.resourceId
  refine ⟨fun hk => ?_, fun hk => ?_⟩
  · have hempty := hsupplied.receiver t ⟨ht, hb, a, hat, by simp [hk], rfl⟩
    omega
  · have hfull := hsupplied.sender t ⟨ht, hb, a, hat, hk, rfl⟩
    have hnone : senders sc w a.resourceId = ∅ := by
      refine Finset.eq_empty_of_forall_notMem fun u hu => ?_
      obtain ⟨hthread, hready, _⟩ := mem_senders.mp hu
      exact hstuck u ⟨hthread, hready⟩
    rw [hnone, Finset.card_empty] at hfull
    omega

/-- `basic_mailbox` of `test_chibios_v2.c`. -/
def basicMailbox : Scenario :=
  { Scenario.ofSteps [[⟨.mbPost, 0, 1⟩, ⟨.mbPost, 0, 2⟩], [⟨.mbFetch, 0, 0⟩, ⟨.mbFetch, 0, 0⟩]]
      [.mailbox] [] with
    mbCapacity := fun r => if r = 0 then 4 else 0 }

theorem basicMailbox_mailOnly : basicMailbox.MailOnly where
  toMatching := Scenario.matching_of_steps (by decide) (by decide)
  capacity := Scenario.forall_isResource (by decide)
  only := forall_actionAt (by decide)

/-- The consumer that fetches after each post goes through. -/
theorem no_lost_wakeup_basicMailbox :
    NoLostWakeup basicMailbox ((startWorld basicMailbox).calls basicMailbox [0, 1, 0, 1]) :=
  no_lost_wakeup basicMailbox_mailOnly (restrict_reach_calls (by decide +kernel) (by decide +kernel))

/-- The consumer that fetches first sleeps on beside both messages. -/
theorem basicMailbox_loses : ¬ ∀ sc : Scenario, sc.MailOnly → ∀ w, (callSystem sc).Reach w →
    NoLostWakeup sc w := by
  intro h
  have hreach : (callSystem basicMailbox).Reach
      ((startWorld basicMailbox).calls basicMailbox [1, 0, 0, 0]) := reach_calls (by decide +kernel)
  have hstuck : Stuck basicMailbox
      ((startWorld basicMailbox).calls basicMailbox [1, 0, 0, 0]) := by
    rw [← collectRunnable_eq_nil (by decide)]
    decide +kernel
  have hsleeps := (h _ basicMailbox_mailOnly _ hreach hstuck 1 (by decide) (by decide +kernel)
    ⟨.mbFetch, 0, 0⟩ (by decide +kernel)).1 rfl
  exact hsleeps (by decide +kernel)

end Smash
