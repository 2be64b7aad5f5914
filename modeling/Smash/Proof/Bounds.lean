import Smash.Model.Accesses
import Smash.Proof.Mailbox

/-!
# Array bounds

`smash_scenario_validate` keeps the indices of threads, resources and steps in range; queues and owned
stacks keep themselves within their arrays (`Fits`). What it does not look at is an action without the
resource it needs, a mailbox with more room than `mb_messages` has cells, and the length of a schedule. So a
run is in bounds exactly when each of its steps is safe in these three respects (`runSchedule_in_bounds_iff`).
-/

set_option autoImplicit false

namespace Smash

variable {sc : Scenario}

/-! ## Lists of accesses -/

/-- Every access is in bounds. -/
def SafeAccesses (l : List Access) : Prop := ∀ x ∈ l, x.InBounds

@[simp] theorem safe_nil : SafeAccesses [] := by simp [SafeAccesses]

@[simp] theorem safe_cons {x : Access} {l : List Access} :
    SafeAccesses (x :: l) ↔ x.InBounds ∧ SafeAccesses l := by
  simp [SafeAccesses]

@[simp] theorem safe_append {l l' : List Access} :
    SafeAccesses (l ++ l') ↔ SafeAccesses l ∧ SafeAccesses l' := by
  simp only [SafeAccesses, List.mem_append, or_imp, forall_and]

theorem safe_flatMap {α : Type} {l : List α} {f : α → List Access} :
    SafeAccesses (l.flatMap f) ↔ ∀ a ∈ l, SafeAccesses (f a) := by
  simp only [SafeAccesses, List.mem_flatMap]
  exact ⟨fun h a ha x hx => h x ⟨a, ha, hx⟩, fun h x ⟨a, ha, hx⟩ => h a ha x hx⟩

theorem safe_map {α : Type} {l : List α} {f : α → Access} :
    SafeAccesses (l.map f) ↔ ∀ a ∈ l, (f a).InBounds := by
  simp [SafeAccesses]

theorem thread_inBounds (hb : sc.Bounds) {t : Int} (ht : sc.IsThread t) :
    (Access.thread t).InBounds := by
  have := hb.threadCount_le
  obtain ⟨h0, hlt⟩ := ht
  exact ⟨h0, by simp only [smashMaxThreads]; omega⟩

theorem resource_inBounds (hb : sc.Bounds) {r : Int} (hr : sc.IsResource r) :
    (Access.resource r).InBounds := by
  have := hb.resourceCount_le
  obtain ⟨h0, hlt⟩ := hr
  exact ⟨h0, by simp only [smashMaxResources]; omega⟩

/-! ## What fits -/

/-- The indices of a mailbox are in order, and the cells in use exist. -/
structure MailFits (r : Resource) : Prop where
  idle : r.mbCapacity ≤ 0 → r.mbCount = 0
  wf : 0 < r.mbCapacity → r.ring.Wf r.mbCapacity
  live : 0 < r.mbCapacity → r.ring.LiveBelow r.mbCapacity smashMaxWaiters

/-- Queues, stacks and mailboxes are within their arrays. -/
structure Fits (sc : Scenario) (w : World) : Prop where
  queue : ∀ r, sc.IsResource r → (w.resources r).waiters.count ≤ smashMaxWaiters
  stack : ∀ t, sc.IsThread t → (w.threads t).ownedMutexStack.count ≤ smashMaxResources
  mail : ∀ r, sc.IsResource r → MailFits (w.resources r)

/-! ## The helpers -/

/-- A queue that fits and holds threads. -/
structure QueueOk (sc : Scenario) (q : LiveArray Int) : Prop where
  count_le : q.count ≤ smashMaxWaiters
  thread : ∀ u ∈ q.toList, sc.IsThread u

theorem QueueOk.cell {q : LiveArray Int} (h : QueueOk sc q) (hb : sc.Bounds) {i : Nat}
    (hi : i < q.count) : (Access.waiter i).InBounds ∧ (Access.thread (q.cell i)).InBounds :=
  ⟨lt_of_lt_of_le hi h.count_le, thread_inBounds hb (h.thread _ (LiveArray.cell_mem hi))⟩

theorem safe_ownedPush (t : Thread) : SafeAccesses (ownedPushAccesses t) := by
  unfold ownedPushAccesses
  split
  · exact safe_cons.mpr ⟨‹_›, safe_nil⟩
  · exact safe_nil

theorem safe_ownedPop {t : Thread} (h : t.ownedMutexStack.count ≤ smashMaxResources) :
    SafeAccesses (ownedPopAccesses t) := by
  unfold ownedPopAccesses
  split
  · exact safe_nil
  · refine safe_cons.mpr ⟨?_, safe_nil⟩
    show t.ownedMutexStack.count - 1 < smashMaxResources
    omega

theorem safe_waiterRemove {r : Resource} (h : r.waiters.count ≤ smashMaxWaiters) {i : Nat}
    (hi : i < r.waiters.count) : SafeAccesses (waiterRemoveAccesses r i) := by
  have hlast : r.waiters.count - 1 < smashMaxWaiters := by omega
  exact safe_cons.mpr ⟨lt_of_lt_of_le hi h, safe_cons.mpr ⟨hlast, safe_nil⟩⟩

theorem safe_wakeBest (hb : sc.Bounds) {w : World} {r : Int}
    (hq : QueueOk sc (w.resources r).waiters) (hlive : 0 < (w.resources r).waiters.count) :
    SafeAccesses (wakeBestAccesses w r) := by
  have hbest := bestWaiter_lt hlive
  unfold wakeBestAccesses bestWaiterAccesses
  simp only [safe_append, safe_cons, safe_nil, safe_flatMap, and_true]
  refine ⟨⟨fun i hi => ?_, (hq.cell hb hbest).1, safe_waiterRemove hq.count_le hbest⟩,
    (hq.cell hb hbest).2⟩
  obtain ⟨hpos, hlt⟩ := List.mem_range'_1.mp hi
  have hscan : bestIdx (fun k => (w.threads ((w.resources r).waiters.cell k)).priority) i < i :=
    bestIdx_lt _ hpos
  have hhere := hq.cell hb (i := i) (by omega)
  have hsofar := hq.cell hb (lt_trans hscan (by omega : i < (w.resources r).waiters.count))
  exact ⟨hhere.1, hhere.2, hsofar.1, hsofar.2⟩

theorem safe_wakeFirst (hb : sc.Bounds) {r : Resource} (hq : QueueOk sc r.waiters)
    (hlive : 0 < r.waiters.count) : SafeAccesses (wakeFirstAccesses r) := by
  unfold wakeFirstAccesses
  simp only [safe_append, safe_cons, safe_nil, and_true]
  exact ⟨⟨(hq.cell hb hlive).1, safe_waiterRemove hq.count_le hlive⟩, (hq.cell hb hlive).2⟩

theorem safe_recalc (hb : sc.Bounds) {w : World} {tid r : Int} (htid : sc.IsThread tid)
    (hq : ∀ s, sc.IsResource s → QueueOk sc (w.resources s).waiters) :
    SafeAccesses (recalcAccesses sc w tid r) := by
  unfold recalcAccesses
  refine safe_cons.mpr ⟨thread_inBounds hb htid, safe_flatMap.mpr fun s hs => ?_⟩
  have hs := Scenario.mem_resourceIds.mp hs
  split
  · exact safe_nil
  · refine safe_cons.mpr ⟨resource_inBounds hb hs, ?_⟩
    split
    · refine safe_flatMap.mpr fun i hi => ?_
      obtain ⟨hwaiter, hthread⟩ := (hq s hs).cell hb (List.mem_range.mp hi)
      exact safe_cons.mpr ⟨hwaiter, safe_cons.mpr ⟨hthread, safe_nil⟩⟩
    · exact safe_nil

/-- The inheritance loop goes from thread to thread. -/
theorem safe_boost (hb : sc.Bounds) (p : Int) (fuel : Nat) (cur : Int) (w : World)
    (hcur : 0 ≤ cur → sc.IsThread cur)
    (hown : ∀ s, sc.IsResource s → 0 ≤ (w.resources s).owner → sc.IsThread (w.resources s).owner) :
    SafeAccesses (boostAccesses sc p fuel cur w) := by
  induction fuel generalizing cur w with
  | zero => exact safe_nil
  | succ fuel ih =>
    rw [boostAccesses]
    split
    · exact safe_nil
    · refine safe_cons.mpr ⟨thread_inBounds hb (hcur (by omega)), ?_⟩
      split
      · exact safe_nil
      · split
        · exact safe_nil
        · dsimp only
          split
          · exact safe_nil
          · have hnext : sc.IsResource (w.threads cur).blockedOn := ⟨by omega, by omega⟩
            exact safe_cons.mpr ⟨resource_inBounds hb hnext, ih _ _ (hown _ hnext) hown⟩

/-! ## The primitives -/

section primitives

variable (hb : sc.Bounds) {w : World} (hc : Crew sc w) (hf : Fits sc w)

include hc hf in
theorem queueOk {r : Int} (hr : sc.IsResource r) : QueueOk sc (w.resources r).waiters :=
  ⟨hf.queue r hr, hc.waiter r hr⟩

include hb hc in
theorem safe_mutexLock {tid r : Int} (htid : sc.IsThread tid) (hr : sc.IsResource r) :
    SafeAccesses (mutexLockAccesses sc w tid r) := by
  unfold mutexLockAccesses
  refine safe_cons.mpr ⟨resource_inBounds hb hr, safe_cons.mpr ⟨thread_inBounds hb htid, ?_⟩⟩
  split_ifs with _ _ _ _ hfull
  · exact safe_nil
  · exact safe_nil
  · exact safe_ownedPush _
  · exact safe_nil
  · exact safe_nil
  · refine safe_append.mpr ⟨safe_cons.mpr ⟨Nat.not_le.mp hfull, safe_nil⟩, ?_⟩
    refine safe_boost hb _ _ _ _ (hc.owner r hr) fun s hs h0 => ?_
    rw [World.enqueue_owner] at h0 ⊢
    exact hc.owner s hs h0

include hb hc hf in
theorem safe_mutexUnlock {tid r : Int} (htid : sc.IsThread tid) (hr : sc.IsResource r) :
    SafeAccesses (mutexUnlockAccesses sc w tid r) := by
  unfold mutexUnlockAccesses
  refine safe_cons.mpr ⟨resource_inBounds hb hr, safe_cons.mpr ⟨thread_inBounds hb htid, ?_⟩⟩
  split_ifs with _ _ _ hlive
  · exact safe_nil
  · exact safe_nil
  · exact safe_append.mpr ⟨safe_ownedPop (hf.stack tid htid), safe_ownedPop (hf.stack tid htid)⟩
  · refine safe_append.mpr ⟨safe_ownedPop (hf.stack tid htid), safe_append.mpr
      ⟨safe_recalc hb htid fun s hs => queueOk hc hf hs, safe_append.mpr ⟨?_, safe_ownedPush _⟩⟩⟩
    exact safe_wakeBest hb (w := lowered sc w tid r) (queueOk hc hf hr) hlive
  · exact safe_append.mpr ⟨safe_ownedPop (hf.stack tid htid), safe_append.mpr
      ⟨safe_recalc hb htid fun s hs => queueOk hc hf hs, safe_nil⟩⟩

include hb in
theorem safe_semWait {tid r : Int} (htid : sc.IsThread tid) (hr : sc.IsResource r) :
    SafeAccesses (semWaitAccesses w tid r) := by
  unfold semWaitAccesses
  refine safe_cons.mpr ⟨resource_inBounds hb hr, safe_cons.mpr ⟨thread_inBounds hb htid, ?_⟩⟩
  split_ifs with _ _ _ hfull
  · exact safe_nil
  · exact safe_nil
  · exact safe_nil
  · exact safe_nil
  · exact safe_cons.mpr ⟨Nat.not_le.mp hfull, safe_nil⟩

include hb hc hf in
theorem safe_semSignal {r : Int} (hr : sc.IsResource r) :
    SafeAccesses (semSignalAccesses w r) := by
  unfold semSignalAccesses
  refine safe_cons.mpr ⟨resource_inBounds hb hr, ?_⟩
  split_ifs with _ hlive
  · exact safe_nil
  · exact safe_wakeBest hb (queueOk hc hf hr) hlive
  · exact safe_nil

include hb hf in
theorem safe_condWait {tid r : Int} (htid : sc.IsThread tid) (hr : sc.IsResource r) :
    SafeAccesses (condWaitAccesses sc w tid r) := by
  unfold condWaitAccesses
  refine safe_cons.mpr ⟨resource_inBounds hb hr, safe_cons.mpr ⟨thread_inBounds hb htid, ?_⟩⟩
  split
  · exact safe_nil
  · split
    · exact safe_nil
    · rename_i hrange
      refine safe_cons.mpr ⟨resource_inBounds hb ⟨by omega, by omega⟩, ?_⟩
      split_ifs with _ _ hfull
      · exact safe_nil
      · exact safe_append.mpr ⟨safe_ownedPop (hf.stack tid htid), safe_nil⟩
      · exact safe_append.mpr ⟨safe_ownedPop (hf.stack tid htid), safe_nil⟩
      · exact safe_append.mpr ⟨safe_ownedPop (hf.stack tid htid),
          safe_cons.mpr ⟨Nat.not_le.mp hfull, safe_nil⟩⟩

include hb hc hf in
theorem safe_condSignal {r : Int} (hr : sc.IsResource r) :
    SafeAccesses (condSignalAccesses w r) := by
  unfold condSignalAccesses
  refine safe_cons.mpr ⟨resource_inBounds hb hr, ?_⟩
  split_ifs with _ hlive
  · exact safe_nil
  · exact safe_wakeBest hb (queueOk hc hf hr) hlive
  · exact safe_nil

end primitives

theorem safe_mbBlock (r : Resource) : SafeAccesses (mbBlockAccesses r) := by
  unfold mbBlockAccesses
  split
  · exact safe_nil
  · exact safe_cons.mpr ⟨Nat.not_le.mp ‹_›, safe_nil⟩

theorem safe_wakeAll (hb : sc.Bounds) (r : Int) (n : Nat) (w : World)
    (hn : n ≤ (w.resources r).waiters.count) (hq : QueueOk sc (w.resources r).waiters) :
    SafeAccesses (wakeAllAccesses r n w) := by
  induction n generalizing w with
  | zero => exact safe_nil
  | succ n ih =>
    have hlive : 0 < (w.resources r).waiters.count := by omega
    have hrest : ((w.waiterRemove r 0).resources r).waiters
        = (w.resources r).waiters.swapRemove 0 := by
      rw [World.waiterRemove_waiters, if_pos rfl]
    refine safe_append.mpr ⟨safe_wakeFirst hb hq hlive, ih _ ?_ ?_⟩
    · rw [World.modThread_resources, hrest, LiveArray.count_swapRemove]
      omega
    · rw [World.modThread_resources, hrest]
      refine ⟨?_, fun u hu => hq.thread u (LiveArray.mem_of_mem_swapRemove hlive hu)⟩
      rw [LiveArray.count_swapRemove]
      exact le_trans (Nat.sub_le _ _) hq.count_le

/-- The capacity that a mailbox operation divides by. -/
theorem MailFits.capacity_pos {r : Resource} (h : MailFits r) (hroom : r.mbCount < r.mbCapacity) :
    0 < r.mbCapacity := by
  by_contra hcap
  have := h.idle (by omega)
  omega

theorem MailFits.of_count {r : Resource} (h : MailFits r) (hlive : r.mbCount ≠ 0) :
    0 < r.mbCapacity := by
  by_contra hcap
  exact hlive (h.idle (by omega))

/-- A post is in bounds when the tail is. -/
theorem safe_mbPost (hb : sc.Bounds) {w : World} (hf : Fits sc w) {tid r : Int}
    (htid : sc.IsThread tid) (hr : sc.IsResource r) :
    SafeAccesses (mbPostAccesses w tid r) ↔ ((w.resources r).type = .mailbox →
      (w.resources r).mbCount < (w.resources r).mbCapacity →
      (w.resources r).mbTail < smashMaxWaiters) := by
  have hmail := hf.mail r hr
  unfold mbPostAccesses
  simp only [safe_cons, resource_inBounds hb hr, thread_inBounds hb htid, true_and]
  split_ifs with htype hfull
  · exact iff_of_true safe_nil fun h => absurd h htype
  · exact iff_of_true (safe_mbBlock _) fun _ hroom => by omega
  · have hcap := hmail.capacity_pos (by omega)
    have htail : 0 ≤ (w.resources r).mbTail := (hmail.wf hcap).tail_nonneg
    simp only [safe_cons, safe_nil, and_true]
    constructor
    · exact fun h _ _ => h.1.2
    · exact fun h => ⟨⟨htail, h (not_not.mp htype) (by omega)⟩, hcap.ne'⟩

theorem safe_mbPostFront (hb : sc.Bounds) {w : World} (hf : Fits sc w) {tid r : Int}
    (htid : sc.IsThread tid) (hr : sc.IsResource r) :
    SafeAccesses (mbPostFrontAccesses w tid r) ↔ ((w.resources r).type = .mailbox →
      (w.resources r).mbCount < (w.resources r).mbCapacity →
      IsInt ((w.resources r).mbHead - 1 + (w.resources r).mbCapacity) ∧
        ((w.resources r).mbHead - 1 + (w.resources r).mbCapacity).tmod (w.resources r).mbCapacity
          < smashMaxWaiters) := by
  have hmail := hf.mail r hr
  unfold mbPostFrontAccesses
  simp only [safe_cons, resource_inBounds hb hr, thread_inBounds hb htid, true_and]
  split_ifs with htype hfull
  · exact iff_of_true safe_nil fun h => absurd h htype
  · exact iff_of_true (safe_mbBlock _) fun _ hroom => by omega
  · have hcap := hmail.capacity_pos (by omega)
    have hhead : 0 ≤ (w.resources r).mbHead := (hmail.wf hcap).head_nonneg
    have hfront : 0 ≤ ((w.resources r).mbHead - 1 + (w.resources r).mbCapacity).tmod
        (w.resources r).mbCapacity := by
      rw [Int.tmod_eq_emod_of_nonneg (by omega)]
      exact Int.emod_nonneg _ hcap.ne'
    simp only [safe_cons, safe_nil, and_true]
    unfold frontSlot
    constructor
    · rintro ⟨hsum, -, hcell⟩ _ _
      exact ⟨hsum, (wrap32_of_isInt hsum ▸ hcell).2⟩
    · intro h
      obtain ⟨hsum, hcell⟩ := h (not_not.mp htype) (by omega)
      refine ⟨hsum, hcap.ne', ?_⟩
      rw [wrap32_of_isInt hsum]
      exact ⟨hfront, hcell⟩

/-- A fetch reads a cell that a post has written. -/
theorem safe_mbFetch (hb : sc.Bounds) {w : World} (hc : Crew sc w) (hf : Fits sc w) {tid r : Int}
    (htid : sc.IsThread tid) (hr : sc.IsResource r) : SafeAccesses (mbFetchAccesses w tid r) := by
  have hmail := hf.mail r hr
  unfold mbFetchAccesses
  refine safe_cons.mpr ⟨resource_inBounds hb hr, safe_cons.mpr ⟨thread_inBounds hb htid, ?_⟩⟩
  split
  · exact safe_nil
  · split
    · exact safe_mbBlock _
    · rename_i hlive
      have hcap := hmail.of_count hlive
      have hwf := hmail.wf hcap
      have hcount : 0 < (w.resources r).ring.count := by
        have h0 : 0 ≤ (w.resources r).mbCount := hwf.count_nonneg
        show 0 < (w.resources r).mbCount
        omega
      refine safe_cons.mpr ⟨⟨hwf.head_nonneg, (hmail.live hcap).head_lt hwf hcount⟩,
        safe_cons.mpr ⟨hcap.ne', ?_⟩⟩
      split
      · exact safe_wakeFirst hb (queueOk hc hf hr) ‹_›
      · exact safe_nil

/-! ## One action -/

/-- The actions that `smash_execute_step` passes a resource id on for. -/
def ActionType.needsResource : ActionType → Bool
  | .mutexLock | .mutexTimedLock | .mutexUnlock | .semWait | .semTimedWait | .semSignal | .condWait
  | .condSignal | .condBroadcast | .mbPost | .mbPostFront | .mbFetch | .objectInit
  | .objectDestroy => true
  | _ => false

/-- The action has the resource it needs, and a post that goes through finds its cell in
`mb_messages`, without an overflow on the way. -/
def Action.Safe (a : Action) (v : World) : Prop :=
  let mb := v.resources a.resourceId
  (a.type.needsResource = true → a.resourceId ≠ smashNoResource) ∧
    (a.type = .mbPost → mb.type = .mailbox → mb.mbCount < mb.mbCapacity →
      mb.mbTail < smashMaxWaiters) ∧
    (a.type = .mbPostFront → mb.type = .mailbox → mb.mbCount < mb.mbCapacity →
      IsInt (mb.mbHead - 1 + mb.mbCapacity) ∧
        (mb.mbHead - 1 + mb.mbCapacity).tmod mb.mbCapacity < smashMaxWaiters)

theorem not_safe_resource {l : List Access} (h : .resource (-1) ∈ l) : ¬ SafeAccesses l := by
  intro hsafe
  have := (hsafe _ h).1
  omega

/-- Without a resource the first access is out of bounds. -/
theorem mem_dispatchAccesses {w : World} {tid : Int} {a : Action} (hk : a.type.needsResource = true) :
    .resource a.resourceId ∈ dispatchAccesses sc w tid a := by
  obtain ⟨type, r, arg⟩ := a
  cases type <;> first
    | exact List.mem_cons_self
    | exact absurd (show (false : Bool) = true from hk) (by decide)

/-- **What an action accesses is in bounds exactly when the action is safe.** -/
theorem safe_dispatch (hb : sc.Bounds) {w : World} (hc : Crew sc w) (hf : Fits sc w) {tid : Int}
    (htid : sc.IsThread tid) {a : Action} (hr : a.resourceId = -1 ∨ sc.IsResource a.resourceId) :
    SafeAccesses (dispatchAccesses sc w tid a) ↔ a.Safe w := by
  by_cases hnone : a.type.needsResource = true ∧ a.resourceId = -1
  · refine iff_of_false ?_ fun h => h.1 hnone.1 hnone.2
    have hmem : .resource a.resourceId ∈ dispatchAccesses sc w tid a := mem_dispatchAccesses hnone.1
    rw [hnone.2] at hmem
    exact not_safe_resource hmem
  have hneeds : a.type.needsResource = true → a.resourceId ≠ smashNoResource :=
    fun hk hid => hnone ⟨hk, hid⟩
  have hres : a.type.needsResource = true → sc.IsResource a.resourceId :=
    fun hk => hr.resolve_left (hneeds hk)
  obtain ⟨type, r, arg⟩ := a
  -- All but the two posts are safe once the resource is there.
  have hsafe : SafeAccesses (dispatchAccesses sc w tid ⟨type, r, arg⟩) → type ≠ .mbPost →
      type ≠ .mbPostFront →
      (SafeAccesses (dispatchAccesses sc w tid ⟨type, r, arg⟩) ↔ Action.Safe ⟨type, r, arg⟩ w) :=
    fun h hpost hfront => iff_of_true h
      ⟨hneeds, fun hk => absurd hk hpost, fun hk => absurd hk hfront⟩
  cases type with
  | mutexLock | mutexTimedLock =>
    exact hsafe (safe_mutexLock hb hc htid (hres rfl)) (by simp) (by simp)
  | mutexUnlock => exact hsafe (safe_mutexUnlock hb hc hf htid (hres rfl)) (by simp) (by simp)
  | semWait | semTimedWait =>
    exact hsafe (safe_semWait hb htid (hres rfl)) (by simp) (by simp)
  | semSignal => exact hsafe (safe_semSignal hb hc hf (hres rfl)) (by simp) (by simp)
  | condWait => exact hsafe (safe_condWait hb hf htid (hres rfl)) (by simp) (by simp)
  | condSignal => exact hsafe (safe_condSignal hb hc hf (hres rfl)) (by simp) (by simp)
  | condBroadcast =>
    refine hsafe (safe_cons.mpr ⟨resource_inBounds hb (hres rfl), ?_⟩) (by simp) (by simp)
    split
    · exact safe_nil
    · exact safe_wakeAll hb r _ w le_rfl (queueOk hc hf (hres rfl))
  | mbFetch => exact hsafe (safe_mbFetch hb hc hf htid (hres rfl)) (by simp) (by simp)
  | objectInit | objectDestroy =>
    exact hsafe (safe_cons.mpr ⟨resource_inBounds hb (hres rfl), safe_nil⟩) (by simp) (by simp)
  | mbPost =>
    refine (safe_mbPost hb hf htid (hres rfl)).trans ?_
    exact ⟨fun h => ⟨hneeds, fun _ => h, fun hk => absurd hk (by simp)⟩, fun h => h.2.1 rfl⟩
  | mbPostFront =>
    refine (safe_mbPostFront hb hf htid (hres rfl)).trans ?_
    exact ⟨fun h => ⟨hneeds, fun hk => absurd hk (by simp), fun _ => h⟩, fun h => h.2.2 rfl⟩
  | nop | yield | done | sysLock | sysUnlock | isrEnter | isrExit | call | ret | condWaitTimeout
  | mbPostTimeout | mbFetchTimeout => exact hsafe safe_nil (by simp) (by simp)

/-! ## The arrays keep what they hold -/

theorem wakeAll_count_le (r : Int) (n : Nat) (w : World) (s : Int) :
    ((wakeAll r n w).1.resources s).waiters.count ≤ (w.resources s).waiters.count := by
  induction n generalizing w with
  | zero => exact le_rfl
  | succ n ih =>
    refine le_trans (ih _) ?_
    rw [World.modThread_resources, World.waiterRemove_waiters]
    split
    · subst s
      exact Nat.sub_le _ _
    · exact le_rfl

/-- A thread enters a queue only where there is room. -/
theorem Act.queue_le {tid : Int} {a : Action} {w w' : World} (h : Act sc tid a w w') {s : Int}
    (hs : (w.resources s).waiters.count ≤ smashMaxWaiters) :
    (w'.resources s).waiters.count ≤ smashMaxWaiters := by
  have hpush : ∀ {v : World} {state : ThreadState},
      (∀ x, (v.resources x).waiters = (w.resources x).waiters) →
      (w.resources a.resourceId).waiters.count < smashMaxWaiters →
      ((v.enqueue tid a.resourceId state).resources s).waiters.count ≤ smashMaxWaiters := by
    intro v state hsame hroom
    rw [World.enqueue_waiters, hsame, hsame]
    split
    · exact hroom
    · exact hs
  have hremove : ∀ {v : World} {i : Nat},
      (∀ x, (v.resources x).waiters = (w.resources x).waiters) →
      ((v.waiterRemove a.resourceId i).resources s).waiters.count ≤ smashMaxWaiters := by
    intro v i hsame
    rw [World.waiterRemove_waiters, hsame, hsame]
    split
    · subst s
      exact le_trans (Nat.sub_le _ _) hs
    · exact hs
  cases h with
  | bookkeep | exit | condLost => exact hs
  | lifecycle | take | signal =>
    rw [World.advance_resources, World.modResource_waiters rfl]
    exact hs
  | acquire =>
    rw [World.advance_resources, World.modThread_resources, World.modResource_waiters rfl]
    exact hs
  | blockMutex _ _ _ hroom =>
    rw [World.arm_resources, boost_resources]
    exact hpush (fun _ => rfl) hroom
  | blockSem _ _ hroom =>
    rw [World.arm_resources]
    exact hpush (fun _ => rfl) hroom
  | unlock =>
    by_cases hlive : 0 < ((lowered sc w tid a.resourceId).resources a.resourceId).waiters.count
    · rw [handOver_of_waiters hlive, World.advance_resources, World.modThread_resources,
        World.modResource_waiters rfl]
      exact hremove (v := lowered sc w tid a.resourceId) fun _ => rfl
    · rw [handOver_of_empty hlive, World.advance_resources, World.modResource_waiters rfl]
      exact hs
  | grant | condSignal => exact hremove fun _ => rfl
  | condWait m _ _ _ _ _ _ hroom =>
    exact hpush (v := released w tid m) (World.modResource_waiters rfl) hroom
  | condBroadcast =>
    rw [World.advance_resources]
    exact le_trans (wakeAll_count_le ..) hs
  | mail _ hf =>
    rw [World.advance_resources, World.modResource_waiters hf.waiters]
    exact hs
  | mailBlock _ hroom => exact hpush (fun _ => rfl) hroom
  | @mailWake f _ _ hf =>
    exact hremove (v := w.modResource a.resourceId f) (World.modResource_waiters hf.waiters)

/-- The owned stack of a thread fits. -/
def Thread.StackFits (t : Thread) : Prop := t.ownedMutexStack.count ≤ smashMaxResources

theorem Thread.StackFits.congr {t t' : Thread} (h : t.StackFits)
    (hsame : t'.ownedMutexStack = t.ownedMutexStack) : t'.StackFits := by
  unfold Thread.StackFits
  rw [hsame]
  exact h

/-- A push drops the entry that would not fit. -/
theorem Thread.StackFits.push {t : Thread} (h : t.StackFits) (r : Int) : (t.ownedPush r).StackFits := by
  unfold Thread.ownedPush
  split
  · show t.ownedMutexStack.count + 1 ≤ smashMaxResources
    omega
  · exact h

theorem Thread.StackFits.pop {t : Thread} (h : t.StackFits) : t.ownedPop.StackFits :=
  le_trans (Nat.sub_le _ _) h

theorem modThread_stackFits {w : World} {t : Int} {f : Thread → Thread} {u : Int}
    (h : (w.threads u).StackFits) (hf : (w.threads t).StackFits → (f (w.threads t)).StackFits) :
    ((w.modThread t f).threads u).StackFits := by
  rw [World.modThread_threads]
  split
  · subst u
    exact hf h
  · exact h

theorem wakeAll_stack (r : Int) (n : Nat) (w : World) (u : Int) :
    ((wakeAll r n w).1.threads u).ownedMutexStack = (w.threads u).ownedMutexStack := by
  induction n generalizing w with
  | zero => rfl
  | succ n ih =>
    exact (ih _).trans (World.modThread_field (f := (·.resume)) Thread.ownedMutexStack rfl u)

theorem Act.stackFits {tid : Int} {a : Action} {w w' : World} (h : Act sc tid a w w') {u : Int}
    (hu : (w.threads u).StackFits) : (w'.threads u).StackFits := by
  have hadvance : ∀ {v : World}, (v.threads u).StackFits → ((v.advance tid).threads u).StackFits :=
    fun hv => modThread_stackFits hv id
  have henqueue : ∀ {v : World} {r : Int} {state : ThreadState}, (v.threads u).StackFits →
      ((v.enqueue tid r state).threads u).StackFits :=
    fun {v} {r} {state} hv => modThread_stackFits (f := fun t => t.block state r) hv id
  have harm : ∀ {v : World} {c : Option Int}, (v.threads u).StackFits →
      ((v.arm tid c).threads u).StackFits := by
    intro v c hv
    rw [World.arm_threads]
    split
    · subst u
      exact hv
    · exact hv
  cases h with
  | bookkeep _ hstand => exact modThread_stackFits hu fun h => h.congr hstand.ownedMutexStack
  | exit => exact modThread_stackFits hu id
  | lifecycle | take | signal | condLost | mail => exact hadvance hu
  | acquire => exact hadvance (modThread_stackFits hu fun h => h.push _)
  | blockMutex =>
    refine harm ?_
    have hblocked : ((w.enqueue tid a.resourceId .blockedMutex).threads u).StackFits := henqueue hu
    exact hblocked.congr (boost_field Thread.ownedMutexStack fun _ _ => rfl)
  | blockSem => exact harm (henqueue hu)
  | unlock =>
    have hlow : ((lowered sc w tid a.resourceId).threads u).StackFits :=
      modThread_stackFits (modThread_stackFits hu fun h => h.pop) id
    by_cases hlive : 0 < ((lowered sc w tid a.resourceId).resources a.resourceId).waiters.count
    · rw [handOver_of_waiters hlive]
      have hawake : ∀ t : Thread, t.StackFits → t.resume.advance.StackFits := fun _ h => h.congr rfl
      exact hadvance (modThread_stackFits hlow fun h => (hawake _ h).push _)
    · rw [handOver_of_empty hlive]
      exact hadvance hlow
  | grant =>
    refine hadvance ?_
    unfold World.grantSem
    exact modThread_stackFits hu id
  | condSignal | mailWake => exact hadvance (modThread_stackFits hu id)
  | condWait m => exact henqueue (modThread_stackFits hu fun h => h.pop)
  | condBroadcast => exact hadvance (hu.congr (wakeAll_stack ..))
  | mailBlock => exact henqueue hu

/-! ### Mailboxes -/

theorem MailFits.congr {r r' : Resource} (h : MailFits r) (hsame : r'.mail = r.mail) : MailFits r' := by
  obtain ⟨hring, hcap⟩ := Prod.mk.inj hsame
  have hcount : r'.mbCount = r.mbCount := congrArg RingBuffer.count hring
  refine ⟨fun h0 => ?_, fun h0 => ?_, fun h0 => ?_⟩
  · rw [hcount]
    exact h.idle (hcap ▸ h0)
  · rw [hring, hcap]
    exact h.wf (hcap ▸ h0)
  · rw [hring, hcap]
    exact h.live (hcap ▸ h0)

theorem MailFits.post {m : Resource} (h : MailFits m) (hroom : m.mbCount < m.mbCapacity)
    (htail : m.mbTail < smashMaxWaiters) (msg : Int) : MailFits (m.post msg) := by
  have hcap := h.capacity_pos hroom
  have hwf := h.wf hcap
  refine ⟨fun h0 => absurd hcap (Int.not_lt.mpr h0), fun _ => ?_, fun _ => ?_⟩
  · rw [ring_post hwf]
    exact hwf.pushBack hroom msg
  · rw [ring_post hwf]
    exact (h.live hcap).pushBack hwf htail msg

theorem MailFits.postFront {m : Resource} (h : MailFits m) (hroom : m.mbCount < m.mbCapacity)
    (hsum : IsInt (m.mbHead - 1 + m.mbCapacity))
    (hhead : (m.mbHead - 1 + m.mbCapacity).tmod m.mbCapacity < smashMaxWaiters) (msg : Int) :
    MailFits (m.postFront msg) := by
  have hcap := h.capacity_pos hroom
  have hwf := h.wf hcap
  have h0 : 0 ≤ m.mbHead := hwf.head_nonneg
  rw [Int.tmod_eq_emod_of_nonneg (by omega)] at hhead
  refine ⟨fun h0 => absurd hcap (Int.not_lt.mpr h0), fun _ => ?_, fun _ => ?_⟩
  · rw [ring_postFront hwf hsum]
    exact hwf.pushFront hroom msg
  · rw [ring_postFront hwf hsum]
    exact (h.live hcap).pushFront hhead msg

theorem MailFits.fetch {m : Resource} (h : MailFits m) (hlive : m.mbCount ≠ 0) : MailFits m.fetch := by
  have hcap := h.of_count hlive
  have hwf := h.wf hcap
  have hcount : 0 < m.ring.count := by
    have h0 : 0 ≤ m.mbCount := hwf.count_nonneg
    show 0 < m.mbCount
    omega
  refine ⟨fun h0 => absurd hcap (Int.not_lt.mpr h0), fun _ => ?_, fun _ => ?_⟩
  · rw [ring_fetch hwf]
    exact hwf.popFront hcount
  · rw [ring_fetch hwf]
    exact (h.live hcap).popFront

theorem mbPost_type {w : World} {tid m msg : Int} (h : (mbPost w tid m msg).fault = none) :
    (w.resources m).type = .mailbox := by
  by_contra htype
  unfold mbPost at h
  dsimp only at h
  rw [if_pos htype] at h
  exact absurd h (by simp)

theorem mbPostFront_type {w : World} {tid m msg : Int}
    (h : (mbPostFront w tid m msg).fault = none) : (w.resources m).type = .mailbox := by
  by_contra htype
  unfold mbPostFront at h
  dsimp only at h
  rw [if_pos htype] at h
  exact absurd h (by simp)

/-- A post, at either end, that keeps the mailbox in order when it finds room. -/
theorem MailFits.posted {w : World} {tid r : Int} {f : Resource → Resource} {o : Outcome}
    (hposted : Posted w tid r f o)
    (hsent : (w.resources r).mbCount < (w.resources r).mbCapacity → MailFits (f (w.resources r)))
    (h : MailFits (w.resources r)) : MailFits (o.world.resources r) := by
  cases hposted with
  | sent _ hroom hw =>
    rw [hw, World.modResource_self]
    exact hsent hroom
  | waits _ _ _ hw =>
    rw [hw]
    exact h.congr (enqueue_mail ..)

/-- A safe action keeps the mailboxes in order. -/
theorem MailFits.dispatch {w : World} {tid r : Int} {a : Action}
    (hok : (w.dispatch sc tid a).fault = none) (hsafe : a.Safe w) (h : MailFits (w.resources r)) :
    MailFits ((w.dispatch sc tid a).world.resources r) := by
  by_cases helse : a.type.mails = true → r ≠ a.resourceId
  · exact h.congr ((dispatch_act hok).mail_same helse)
  obtain ⟨hk, rfl⟩ : a.type.mails = true ∧ r = a.resourceId := by simpa using helse
  obtain ⟨type, r, arg⟩ := a
  obtain ⟨_, hpost, hfront⟩ := hsafe
  have hkind : type.mails = true := hk
  cases type <;> try exact absurd hkind (by decide)
  case mbPost =>
    simp only [World.dispatch, Outcome.finish_fault, Outcome.finish_world,
      Outcome.advanceIfTrue_fault, Outcome.advanceIfTrue_resources] at hok ⊢
    exact h.posted (mbPost_cases hok) fun hroom =>
      h.post hroom (hpost rfl (mbPost_type hok) hroom) arg
  case mbPostFront =>
    simp only [World.dispatch, Outcome.finish_fault, Outcome.finish_world,
      Outcome.advanceIfTrue_fault, Outcome.advanceIfTrue_resources] at hok ⊢
    refine h.posted (mbPostFront_cases hok) fun hroom => ?_
    obtain ⟨hsum, hhead⟩ := hfront rfl (mbPostFront_type hok) hroom
    exact h.postFront hroom hsum hhead arg
  case mbFetch =>
    simp only [World.dispatch, Outcome.finish_fault, Outcome.finish_world,
      Outcome.advanceIfTrue_fault, Outcome.advanceIfTrue_resources] at hok ⊢
    rcases mbFetch_cases hok with ⟨_, hlive, _, ⟨_, hw⟩ | ⟨_, hw⟩⟩ | ⟨_, _, _, _, hw⟩
    · rw [hw, World.modThread_resources]
      refine (h.fetch hlive).congr ((waiterRemove_mail ..).trans ?_)
      rw [World.modResource_self]
    · rw [hw, World.modResource_self]
      exact h.fetch hlive
    · rw [hw]
      exact h.congr (enqueue_mail ..)

/-! ## One call -/

/-- The call of `smash_execute_step` for `tid` runs a safe action, or none. -/
def CallSafe (sc : Scenario) (w : World) (tid : Int) : Prop :=
  let v := (w.tick sc).1
  (v.threads tid).state = .ready → ∀ a ∈ sc.actionAt tid (v.threads tid).pc, a.Safe v

theorem Fits.tick {w : World} (h : Fits sc w) : Fits sc (w.tick sc).1 := by
  have hresources : (w.tick sc).1.resources = w.resources := tick_resources w
  refine ⟨fun r hr => ?_, fun t ht => ?_, fun r hr => ?_⟩
  · rw [hresources]
    exact h.queue r hr
  · rw [tick_threads, if_pos ht]
    refine Thread.StackFits.congr (h.stack t ht) ?_
    unfold Thread.tick
    split
    · rfl
    · split <;> rfl
  · rw [hresources]
    exact h.mail r hr

theorem Fits.reset (before : World) : Fits sc (before.reset sc) := by
  refine ⟨fun r hr => ?_, fun t ht => ?_, fun r hr => ?_⟩
  · simp [World.reset, hr, Resource.reset]
  · simp [World.reset, ht, Thread.reset]
  · simp only [World.reset, if_pos hr]
    refine ⟨fun _ => rfl, fun hcap => ⟨Int.le_refl 0, hcap, Int.le_refl 0, hcap.le, ?_⟩,
      fun _ i h0 hi => ?_⟩
    · exact (Int.zero_emod _).symm
    · have hi : i < 0 := hi
      omega

/-- **A safe call keeps everything within its array.** -/
theorem Fits.step {w : World} {tid : Int} (hok : (w.executeStep sc tid).fault = none)
    (hsafe : CallSafe sc w tid) (h : Fits sc w) : Fits sc (w.executeStep sc tid).world := by
  have hv := h.tick
  rcases executeStep_cases hok with ⟨_, hw⟩ | ⟨_, _, hw⟩ | ⟨a, hready, hat, _, hok', hw⟩
  · rw [hw]
    exact hv
  · rw [hw]
    exact ⟨hv.queue, fun t ht => modThread_stackFits (hv.stack t ht) id, hv.mail⟩
  · rw [hw]
    exact ⟨fun r hr => (dispatch_act hok').queue_le (hv.queue r hr),
      fun t ht => (dispatch_act hok').stackFits (hv.stack t ht),
      fun r hr => (hv.mail r hr).dispatch hok' (hsafe hready a hat)⟩

theorem actionAt_lt {tid : Int} {pc : Nat} {a : Action} (h : sc.actionAt tid pc = some a) :
    (pc : Int) < sc.stepCount tid := by
  unfold Scenario.actionAt at h
  split at h
  · rename_i hlt
    exact hlt
  · exact absurd h (by simp)

/-- **What a call accesses is in bounds exactly when the call is safe.** -/
theorem safe_executeStep (hb : sc.Bounds) {w : World} (hc : Crew sc w) (hf : Fits sc w) {tid : Int}
    (htid : sc.IsThread tid) : SafeAccesses (executeStepAccesses sc w tid) ↔ CallSafe sc w tid := by
  unfold executeStepAccesses CallSafe
  have hclock : ∀ i ∈ sc.threadIds, (Access.thread i).InBounds := fun i hi =>
    thread_inBounds hb (Scenario.mem_threadIds.mp hi)
  simp only [safe_append, safe_cons, safe_map, thread_inBounds hb htid, true_and]
  rw [and_iff_right hclock]
  have hc := hc.tick
  have hf := hf.tick
  generalize (w.tick sc).1 = v at hc hf ⊢
  by_cases hready : (v.threads tid).state = .ready
  · rw [if_neg (not_not.mpr hready)]
    cases hat : sc.actionAt tid (v.threads tid).pc with
    | none => simp
    | some a =>
      have hr := hb.resourceId_ok tid htid _ a hat
      have hstep : (Access.step tid (v.threads tid).pc).InBounds := by
        have hlt := actionAt_lt hat
        have hcount := hb.stepCount_le tid htid
        obtain ⟨h0, hthread⟩ := thread_inBounds hb htid
        refine ⟨h0, hthread, ?_⟩
        simp only [smashMaxSteps]
        omega
      dsimp only
      rw [if_neg (in_range hr), safe_cons, and_iff_right hstep, safe_dispatch hb hc hf htid hr]
      simp [hready]
  · rw [if_pos hready]
    simp [hready]

/-! ## Schedules -/

/-- The calls that `smash_run_schedule` makes, each with the engine it finds. -/
def calledSteps (sc : Scenario) : List Int → Engine → List (Engine × Int)
  | [], _ => []
  | tid :: rest, e =>
    if allDone sc e.world then []
    else if tid < 0 ∨ sc.threadCount ≤ tid then []
    else
      let recorded := { e with trace := { e.trace with schedule := e.trace.schedule.push tid } }
      let stepped := recorded.executeStep sc tid
      (e, tid) ::
        if (recorded.world.executeStep sc tid).ret = false then []
        else if stepped.failed then []
        else calledSteps sc rest stepped

/-- There is room for the entry of the schedule, and the call is safe. -/
def EntrySafe (sc : Scenario) (e : Engine) (tid : Int) : Prop :=
  e.trace.schedule.count < smashMaxDepth ∧ CallSafe sc e.world tid

theorem safe_allDone (hb : sc.Bounds) (w : World) (is : List Int) (h : ∀ i ∈ is, sc.IsThread i) :
    SafeAccesses (allDoneAccesses w is) := by
  induction is with
  | nil => exact safe_nil
  | cons i is ih =>
    refine safe_cons.mpr ⟨thread_inBounds hb (h i List.mem_cons_self), ?_⟩
    split
    · exact ih fun j hj => h j (List.mem_cons_of_mem _ hj)
    · exact safe_nil

theorem safe_runScheduleFrom (hb : sc.Bounds) (schedule : List Int) (e : Engine)
    (hw : (callSystem sc).Reach e.world) (hf : Fits sc e.world) :
    SafeAccesses (runScheduleFromAccesses sc schedule e) ↔
      ∀ p ∈ calledSteps sc schedule e, EntrySafe sc p.1 p.2 := by
  induction schedule generalizing e with
  | nil => exact iff_of_true safe_nil (by simp [calledSteps])
  | cons tid rest ih =>
    rw [runScheduleFromAccesses, calledSteps, safe_append,
      and_iff_right (safe_allDone hb e.world _ fun i => Scenario.mem_threadIds.mp)]
    split
    · exact iff_of_true safe_nil (by simp)
    split
    · exact iff_of_true safe_nil (by simp)
    rename_i hrange
    have htid : sc.IsThread tid := ⟨by omega, by omega⟩
    dsimp only
    rw [List.cons_append, safe_cons, safe_append, safe_executeStep hb (crew_reach hw) hf htid,
      List.forall_mem_cons, ← and_assoc]
    refine and_congr_right fun hentry => ?_
    split
    · exact iff_of_true safe_nil (by simp)
    split
    · exact iff_of_true safe_nil (by simp)
    · -- The call did not fail, and the rest starts in a state that fits as well.
      rename_i hfailed
      have hok : (e.world.executeStep sc tid).fault = none := by
        simp only [Engine.executeStep, Engine.apply, Bool.or_eq_true, not_or] at hfailed
        simpa using hfailed.2
      exact ih _ (.step hw ⟨htid, hok, rfl⟩) (hf.step hok hentry.2)

/-- **When a run is in bounds**: for every accepted scenario, engine and schedule, every access of
`smash_run_schedule` is in bounds and every divisor is not zero exactly when each call it makes finds room
in `trace.schedule` and runs a safe action. -/
theorem runSchedule_in_bounds_iff (hv : sc.Valid) (e : Engine) (schedule : List Int) :
    (∀ x ∈ runScheduleAccesses sc e schedule, x.InBounds) ↔
      ∀ p ∈ calledSteps sc schedule (e.reset sc), EntrySafe sc p.1 p.2 := by
  have hb := hv.bounds
  have hreset : SafeAccesses (resetAccesses sc) :=
    safe_append.mpr ⟨safe_map.mpr fun i hi => thread_inBounds hb (Scenario.mem_threadIds.mp hi),
      safe_map.mpr fun r hr => resource_inBounds hb (Scenario.mem_resourceIds.mp hr)⟩
  refine Iff.trans ?_ (safe_runScheduleFrom hb schedule (e.reset sc) (.init ⟨e.world, rfl⟩) (.reset _))
  exact safe_append.trans (and_iff_right hreset)

/-- One thread locks a mutex without saying which. -/
def lockNothing : Scenario := .ofSteps [[⟨.mutexLock, -1, 0⟩]] [.mutex] []

theorem runSchedule_in_bounds_iff_lockNothing :
    (∀ x ∈ runScheduleAccesses lockNothing .zero [0], x.InBounds) ↔
      ∀ p ∈ calledSteps lockNothing [0] (Engine.zero.reset lockNothing),
        EntrySafe lockNothing p.1 p.2 :=
  runSchedule_in_bounds_iff (by decide) .zero [0]

/-- The lock goes to `resources[-1]`. -/
theorem lockNothing_out_of_bounds : ¬ ∀ sc : Scenario, sc.Valid → ∀ (e : Engine) (schedule : List Int),
    ∀ x ∈ runScheduleAccesses sc e schedule, x.InBounds := by
  intro h
  have hbad := h lockNothing (by decide) .zero [0] (.resource (-1)) (by decide +kernel)
  exact absurd hbad (by decide)

end Smash
