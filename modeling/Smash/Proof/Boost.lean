import Smash.Proof.Priority

/-!
# The inheritance loop on any wait graph

The loop of `smash_mutex_lock` has no counter, and the chain of owners that it follows may run in a circle.
`BoostLoop` is the loop as the source has it, with the passes through its body counted. In a state where every
owner is a thread of the scenario it ends: each pass but the last lifts a thread that was below, and the
thread that blocks is never among them, so there are no more passes than threads (`BoostLoop.turns_le`).
What it leaves behind is what `boost` computes (`BoostLoop.boost_eq`), and that is the walk of
`Inheritance`: the longest prefix of the chain that is below is lifted, and nothing else is written.
-/

set_option autoImplicit false

namespace Smash

open Inheritance

variable {sc : Scenario}

/-- The inheritance loop of `smash_mutex_lock`: with `boost_prio = p` and `cur_tid = cur` it goes `n` times
through its body, and ends in `w'`. -/
inductive BoostLoop (sc : Scenario) (p : Int) : Int → World → Nat → World → Prop
  /-- `while (cur_tid >= 0)`. -/
  | exit {cur : Int} {w : World} : cur < 0 → BoostLoop sc p cur w 0 w
  /-- "Already high enough". -/
  | high {cur : Int} {w : World} : 0 ≤ cur → p ≤ (w.threads cur).priority → BoostLoop sc p cur w 1 w
  /-- "Chain ends". -/
  | last {cur : Int} {w : World} : 0 ≤ cur → (w.threads cur).priority < p →
      (w.threads cur).state ≠ .blockedMutex →
      BoostLoop sc p cur w 1 (w.modThread cur fun t => { t with priority := p })
  /-- The thread is blocked on nothing that exists. -/
  | stray {cur : Int} {w : World} : 0 ≤ cur → (w.threads cur).priority < p →
      (w.threads cur).state = .blockedMutex → ¬ sc.IsResource (w.threads cur).blockedOn →
      BoostLoop sc p cur w 1 (w.modThread cur fun t => { t with priority := p })
  | next {cur : Int} {w w' : World} {n : Nat} : 0 ≤ cur → (w.threads cur).priority < p →
      (w.threads cur).state = .blockedMutex → sc.IsResource (w.threads cur).blockedOn →
      BoostLoop sc p (w.resources (w.threads cur).blockedOn).owner
        (w.modThread cur fun t => { t with priority := p }) n w' →
      BoostLoop sc p cur w (n + 1) w'

/-- Every owner is `-1` or a thread of the scenario. -/
def World.OwnersInRange (sc : Scenario) (w : World) : Prop :=
  ∀ r, sc.IsResource r → (w.resources r).owner = -1 ∨ sc.IsThread (w.resources r).owner

/-- The thread that owns `r`. -/
def World.ownerOf (w : World) (r : Int) : Option Int :=
  if 0 ≤ (w.resources r).owner then some (w.resources r).owner else none

theorem not_isResource_iff {r : Int} : ¬ sc.IsResource r ↔ r < 0 ∨ sc.resourceCount ≤ r := by
  unfold Scenario.IsResource
  omega

/-! ## The loop and its model -/

/-- Fuel for every pass is enough: the model computes what the loop leaves. -/
theorem BoostLoop.boost_eq {p cur : Int} {w w' : World} {n : Nat} (h : BoostLoop sc p cur w n w') {fuel : Nat}
    (hfuel : n ≤ fuel) : boost sc p fuel cur w = w' := by
  induction h generalizing fuel with
  | exit hneg =>
    cases fuel with
    | zero => rfl
    | succ fuel => rw [boost, if_pos hneg]
  | high hcur hhigh =>
    obtain ⟨fuel, rfl⟩ := Nat.exists_eq_add_of_le' hfuel
    rw [boost, if_neg (by omega), if_pos hhigh]
  | last hcur hlow hstate =>
    obtain ⟨fuel, rfl⟩ := Nat.exists_eq_add_of_le' hfuel
    rw [boost, if_neg (by omega), if_neg (by omega)]
    exact if_pos hstate
  | stray hcur hlow hstate hstray =>
    obtain ⟨fuel, rfl⟩ := Nat.exists_eq_add_of_le' hfuel
    rw [boost, if_neg (by omega), if_neg (by omega)]
    dsimp only
    rw [if_neg (not_not_intro hstate), if_pos (not_isResource_iff.mp hstray)]
  | next hcur hlow hstate hres hrest ih =>
    obtain ⟨fuel, rfl⟩ := Nat.exists_eq_add_of_le' (Nat.le_of_add_left_le hfuel)
    rw [boost, if_neg (by omega), if_neg (by omega)]
    dsimp only
    rw [if_neg (not_not_intro hstate), if_neg (fun hout => not_isResource_iff.mpr hout hres)]
    exact ih (by omega)

/-! ## It ends -/

section

variable {p cur : Int} {w w' : World} {n : Nat}

/-- A pass that goes on leaves fewer threads to lift. -/
theorem card_below_raised (hcur : sc.IsThread cur) (hlow : (w.threads cur).priority < p) :
    (below sc.threadSet p (w.modThread cur fun t => { t with priority := p }).prio).card
      < (below sc.threadSet p w.prio).card := by
  rw [prio_raised]
  exact card_below_update (Scenario.mem_threadSet.mpr hcur) hlow

/-- **The loop ends** wherever the owners are threads. -/
theorem boostLoop_ends (hown : w.OwnersInRange sc) (hcur : cur = -1 ∨ sc.IsThread cur) :
    ∃ n w', BoostLoop sc p cur w n w' := by
  generalize hk : (below sc.threadSet p w.prio).card = k
  induction k using Nat.strong_induction_on generalizing cur w with
  | _ k ih =>
    rcases hcur with rfl | hcur
    · exact ⟨0, w, .exit (by omega)⟩
    have h0 := hcur.1
    by_cases hhigh : p ≤ (w.threads cur).priority
    · exact ⟨1, w, .high h0 hhigh⟩
    have hlow := lt_of_not_ge hhigh
    by_cases hstate : (w.threads cur).state = .blockedMutex
    · by_cases hres : sc.IsResource (w.threads cur).blockedOn
      · have hless := card_below_raised hcur hlow
        obtain ⟨n, w', hrest⟩ := ih _ (hk ▸ hless) (w := w.modThread cur fun t => { t with priority := p })
          hown (hown _ hres) rfl
        exact ⟨n + 1, w', .next h0 hlow hstate hres hrest⟩
      · exact ⟨1, _, .stray h0 hlow hstate hres⟩
    · exact ⟨1, _, .last h0 hlow hstate⟩

/-- Each pass but the last lifts a thread that was below. -/
theorem BoostLoop.turns_le (h : BoostLoop sc p cur w n w') (hown : w.OwnersInRange sc)
    (hcur : cur = -1 ∨ sc.IsThread cur) : n ≤ (Inheritance.below sc.threadSet p w.prio).card + 1 := by
  induction h with
  | exit => exact Nat.zero_le _
  | high | last | stray => exact Nat.le_add_left 1 _
  | @next cur w w' n h0 hlow hstate hres hrest ih =>
    have hthread : sc.IsThread cur := hcur.resolve_left (by omega)
    have hless := card_below_raised hthread hlow
    have hturns := ih hown (hown _ hres)
    omega

/-- A thread that is high enough itself leaves a pass to spare. -/
theorem card_below_lt {tid : Int} (htid : sc.IsThread tid) (hhigh : p ≤ w.prio tid) :
    (below sc.threadSet p w.prio).card < sc.threadCount.toNat := by
  refine lt_of_lt_of_le (Finset.card_lt_card ⟨Finset.filter_subset _ _, fun hsub => ?_⟩)
    sc.card_threadSet_le
  have hbelow := (mem_below.mp (hsub (Scenario.mem_threadSet.mpr htid))).2
  exact absurd hbelow (not_lt_of_ge hhigh)

/-! ## What it leaves -/

/-- The loop writes the priorities of the longest prefix of the chain that is below, and nothing else. -/
theorem BoostLoop.threads_eq (h : BoostLoop sc p cur w n w') (hown : w.OwnersInRange sc)
    (hcur : sc.IsThread cur) (t : Int) :
    (Leads (w.heldUpBy sc) p w.prio (some cur) t → w'.threads t = { w.threads t with priority := p }) ∧
      (¬ Leads (w.heldUpBy sc) p w.prio (some cur) t → w'.threads t = w.threads t) := by
  have hrange : ∀ r, sc.IsResource r → 0 ≤ (w.resources r).owner → sc.IsThread (w.resources r).owner :=
    fun r hr h0 => (hown r hr).resolve_left (by omega)
  have hclosed := heldUpBy_mem_threadSet (w := w) hrange
  obtain ⟨fuel, hturns, hroom⟩ : ∃ fuel, n ≤ fuel ∧ (Inheritance.below sc.threadSet p w.prio).card ≤ fuel :=
    ⟨n + (Inheritance.below sc.threadSet p w.prio).card, Nat.le_add_right _ _, Nat.le_add_left _ _⟩
  have hprio : (boost sc p fuel cur w).prio t = raise (w.heldUpBy sc) p fuel cur w.prio t :=
    congrFun (boost_priority hcur hrange) t
  obtain ⟨q, hq⟩ : ∃ q, (boost sc p fuel cur w).threads t = { w.threads t with priority := q } :=
    boost_threads p fuel cur w t
  rw [h.boost_eq hturns] at hprio hq
  rw [World.prio, hq] at hprio
  constructor
  · intro hleads
    rw [raise_of_leads hclosed (Scenario.mem_threadSet.mpr hcur) hroom hleads] at hprio
    rw [hq, show q = p from hprio]
  · intro hout
    rw [raise_of_not_leads hout] at hprio
    rw [hq, show q = (w.threads t).priority from hprio]

end

/-! ## The loop that a blocking lock runs -/

/-- A lock of `r` by `tid` has to wait: the mutex is alive and another thread's, the caller is in thread
context, and there is room in the queue. -/
structure LockWaits (w : World) (tid r : Int) : Prop where
  alive : (w.resources r).alive = true
  context : (w.threads tid).execCtx = .thread
  taken : (w.resources r).owner ≠ -1
  other : (w.resources r).owner ≠ tid
  room : (w.resources r).waiters.count < smashMaxWaiters

/-- Such a lock runs the loop, … -/
theorem mutexLock_of_waits {w : World} {tid r : Int} (h : LockWaits w tid r) :
    (mutexLock sc w tid r).fault = none ∧ (mutexLock sc w tid r).ret = false ∧
      (mutexLock sc w tid r).world = boost sc (w.threads tid).priority sc.threadCount.toNat
        (w.resources r).owner (w.enqueue tid r .blockedMutex) := by
  unfold mutexLock
  dsimp only
  rw [if_neg (by simp [h.alive]), if_neg (not_not_intro h.context), if_neg h.taken, if_neg h.other,
    if_neg (Nat.not_le_of_lt h.room)]
  exact ⟨rfl, rfl, rfl⟩

/-- … and every lock that neither fails nor acquires is one. -/
theorem lockWaits_iff {w : World} {tid r : Int} :
    (mutexLock sc w tid r).fault = none ∧ (mutexLock sc w tid r).ret = false ↔ LockWaits w tid r := by
  constructor
  · rintro ⟨hok, hret⟩
    unfold mutexLock at hok hret
    dsimp only at hok hret
    split_ifs at hok hret with hdead hctx hfree hown hroom
    · exact absurd hok (by simp)
    · exact absurd hok (by simp)
    · exact absurd hret (by simp)
    · exact absurd hok (by simp)
    · exact absurd hok (by simp)
    · exact ⟨by simpa using hdead, not_not.mp hctx, hfree, hown, Nat.lt_of_not_le hroom⟩
  · intro h
    have hwaits := @mutexLock_of_waits sc w tid r h
    exact ⟨hwaits.1, hwaits.2.1⟩

/-- **The boost loop on any wait graph.** In a state whose owners are threads or `-1`, with any priorities
and any links, the loop that `smash_mutex_lock` runs once it has put `tid` in the queue of `r` ends, with no
more passes than there are threads. It gives the priority of `tid` to the threads of the longest prefix of the
chain of owners, each blocked on a mutex of the next, that are below it, and writes nothing else. A lock that has
to wait leaves what the loop leaves. -/
theorem mutexLock_boostLoop (w : World) {tid r : Int} (htid : sc.IsThread tid) (hr : sc.IsResource r)
    (hown : w.OwnersInRange sc) :
    (∃ n w', BoostLoop sc (w.threads tid).priority (w.resources r).owner (w.enqueue tid r .blockedMutex) n w') ∧
    ∀ n w', BoostLoop sc (w.threads tid).priority (w.resources r).owner (w.enqueue tid r .blockedMutex) n w' →
      (n : Int) ≤ sc.threadCount ∧
      (∀ t, (Leads ((w.enqueue tid r .blockedMutex).heldUpBy sc) (w.prio tid) w.prio (w.ownerOf r) t →
          w'.threads t = { (w.enqueue tid r .blockedMutex).threads t with priority := w.prio tid }) ∧
        (¬ Leads ((w.enqueue tid r .blockedMutex).heldUpBy sc) (w.prio tid) w.prio (w.ownerOf r) t →
          w'.threads t = (w.enqueue tid r .blockedMutex).threads t)) ∧
      w'.resources = (w.enqueue tid r .blockedMutex).resources ∧
      ((mutexLock sc w tid r).fault = none ∧ (mutexLock sc w tid r).ret = false ↔ LockWaits w tid r) ∧
      (LockWaits w tid r → (mutexLock sc w tid r).world = w') := by
  have hstart : (w.enqueue tid r .blockedMutex).OwnersInRange sc := by
    intro s hs
    rw [World.enqueue_owner]
    exact hown s hs
  refine ⟨boostLoop_ends hstart (hown r hr), fun n w' h => ?_⟩
  have hpasses : n ≤ sc.threadCount.toNat := by
    have hcard : (below sc.threadSet (w.prio tid) (w.enqueue tid r .blockedMutex).prio).card
        < sc.threadCount.toNat := card_below_lt htid (by rw [prio_enqueue])
    have hturns := h.turns_le hstart (hown r hr)
    exact hturns.trans hcard
  have hcount := htid.2
  have h0 := htid.1
  refine ⟨by omega, fun t => ?_, ?_, lockWaits_iff, fun hwaits => ?_⟩
  · rcases hown r hr with hfree | hthread
    · -- No owner: the loop is not entered, and there is no chain.
      have hnone : w.ownerOf r = none := if_neg (by omega)
      have hsame : w' = w.enqueue tid r .blockedMutex := by
        rw [← h.boost_eq (Nat.le_succ n), boost, if_pos (by omega)]
      rw [hnone, hsame]
      exact ⟨fun hleads => absurd hleads not_leads_none, fun _ => rfl⟩
    · have hsome : w.ownerOf r = some (w.resources r).owner := if_pos hthread.1
      have hthreads := h.threads_eq hstart hthread t
      rw [prio_enqueue] at hthreads
      rw [hsome]
      exact hthreads
  · rw [← h.boost_eq (Nat.le_refl n), boost_resources]
  · rw [(mutexLock_of_waits hwaits).2.2, ← h.boost_eq hpasses]

/-- Three threads that each lock a mutex. -/
def threeLockers : Scenario :=
  .ofSteps [[⟨.mutexLock, 0, 0⟩], [⟨.mutexLock, 1, 0⟩], [⟨.mutexLock, 2, 0⟩]] [.mutex, .mutex, .mutex] []

/-- T1 and T2 wait for each other, and T1 owns mutex 0 as well, which an urgent T0 is about to lock. -/
def ownerRing : World where
  threads t :=
    { World.zero.threads t with
      priority := if t = 0 then 9 else t
      state := if t = 0 then .ready else .blockedMutex
      blockedOn := if t = 0 then -1 else t }
  resources r := { World.zero.resources r with owner := if r = 1 then 2 else 1, alive := true }

/-- The lock waits, and its loop goes round the ring once. -/
theorem mutexLock_boostLoop_ring : ∃ n w',
    BoostLoop threeLockers 9 1 (ownerRing.enqueue 0 0 .blockedMutex) n w' ∧ n ≤ 3 ∧
      (mutexLock threeLockers ownerRing 0 0).ret = false ∧ (mutexLock threeLockers ownerRing 0 0).world = w' ∧
      (w'.threads 1).priority = 9 ∧ (w'.threads 2).priority = 9 := by
  have hown : ownerRing.OwnersInRange threeLockers := by
    intro r _
    right
    show threeLockers.IsThread (if r = 1 then 2 else 1)
    split <;> decide
  have hwaits : LockWaits ownerRing 0 0 := ⟨by decide, by decide, by decide, by decide, by decide⟩
  obtain ⟨⟨n, w', h⟩, hall⟩ := @mutexLock_boostLoop threeLockers ownerRing 0 0 (by decide) (by decide) hown
  obtain ⟨hn, hthreads, -, hiff, hlock⟩ := hall n w' h
  have hbelow : ∀ j ≤ 1, ∀ u, link ((ownerRing.enqueue 0 0 .blockedMutex).heldUpBy threeLockers)
      (ownerRing.ownerOf 0) j = some u → ownerRing.prio u < ownerRing.prio 0 := by
    intro j hj u hu
    obtain rfl | rfl : j = 0 ∨ j = 1 := by omega
    · obtain rfl : 1 = u := Option.some.inj hu
      decide
    · obtain rfl : 2 = u := Option.some.inj hu
      decide
  have hfirst := (hthreads 1).1 ⟨0, rfl, fun j hj => hbelow j (by omega)⟩
  have hsecond := (hthreads 2).1 ⟨1, rfl, hbelow⟩
  refine ⟨n, w', h, ?_, (hiff.mpr hwaits).2, hlock hwaits, ?_, ?_⟩
  · have hcount : threeLockers.threadCount = 3 := rfl
    omega
  · rw [hfirst]
    rfl
  · rw [hsecond]
    rfl

end Smash
