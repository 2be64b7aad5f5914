import Smash.Lib.Inheritance
import Smash.Proof.Owning

/-!
# Priority inheritance

`World.heldUpBy` is the relation that the inheritance of `smash_mutex_lock` and `recalc_priority` walks: a
thread blocked on a mutex is held up by its owner. On it the two are the operations of
`Inheritance`: `boost` is `raise` (`boost_priority`), with fuel to spare (`boost_fuel`), and
`recalc_priority` is the greatest claim that is left (`recalcPriority_isGreatest`). So priorities are
exact in every reached state of a core scenario (`core_priority`).
-/

set_option autoImplicit false

namespace Smash

open Inheritance

variable {sc : Scenario}

/-- The owner of the mutex that a thread of the scenario is blocked on. -/
def World.heldUpBy (sc : Scenario) (w : World) (u : Int) : Option Int :=
  if sc.IsThread u ∧ (w.threads u).state = .blockedMutex ∧ sc.IsResource (w.threads u).blockedOn ∧
      0 ≤ (w.resources (w.threads u).blockedOn).owner then
    some (w.resources (w.threads u).blockedOn).owner
  else none

def World.prio (w : World) (t : Int) : Int := (w.threads t).priority

def World.basePrio (w : World) (t : Int) : Int := (w.threads t).basePriority

/-- The threads of the scenario. -/
def Scenario.threadSet (sc : Scenario) : Finset Int := sc.threadIds.toFinset

@[simp] theorem Scenario.mem_threadSet {t : Int} : t ∈ sc.threadSet ↔ sc.IsThread t := by
  simp [Scenario.threadSet]

theorem Scenario.card_threadSet_le (sc : Scenario) : sc.threadSet.card ≤ sc.threadCount.toNat := by
  refine (List.toFinset_card_le _).trans ?_
  simp [Scenario.threadIds]

theorem card_below_le (p : Int) (prio : Int → Int) :
    (below sc.threadSet p prio).card ≤ sc.threadCount.toNat :=
  (Finset.card_filter_le _ _).trans sc.card_threadSet_le

theorem heldUpBy_congr {v w : World} (hstate : ∀ u, (v.threads u).state = (w.threads u).state)
    (hon : ∀ u, (v.threads u).blockedOn = (w.threads u).blockedOn)
    (hown : ∀ r, (v.resources r).owner = (w.resources r).owner) :
    v.heldUpBy sc = w.heldUpBy sc := by
  funext u
  simp only [World.heldUpBy, hstate, hon, hown]

/-- A thread of the scenario is held up by one. -/
theorem heldUpBy_mem_threadSet {w : World}
    (hown : ∀ r, sc.IsResource r → 0 ≤ (w.resources r).owner → sc.IsThread (w.resources r).owner) :
    ∀ t ∈ sc.threadSet, ∀ o, w.heldUpBy sc t = some o → o ∈ sc.threadSet := by
  intro t _ o ho
  simp only [World.heldUpBy, Option.ite_none_right_eq_some, Option.some.injEq] at ho
  obtain ⟨⟨_, _, hr, h0⟩, rfl⟩ := ho
  exact Scenario.mem_threadSet.mpr (hown _ hr h0)

theorem prio_raised (w : World) (cur p : Int) :
    (w.modThread cur fun t => { t with priority := p }).prio = Function.update w.prio cur p := by
  funext u
  simp only [World.prio, World.modThread_threads, Function.update_apply]
  split <;> rfl

/-! ## `smash_mutex_lock`: the boost -/

/-- **The boost is the walk along the chain of owners.** -/
theorem boost_priority {p : Int} {fuel : Nat} {cur : Int} {w : World} (hcur : sc.IsThread cur)
    (hown : ∀ r, sc.IsResource r → 0 ≤ (w.resources r).owner → sc.IsThread (w.resources r).owner) :
    (boost sc p fuel cur w).prio = raise (w.heldUpBy sc) p fuel cur w.prio := by
  induction fuel generalizing cur w with
  | zero => rfl
  | succ fuel ih =>
    have hraised := prio_raised w cur p
    have hheld : (w.modThread cur fun t => { t with priority := p }).heldUpBy sc
        = w.heldUpBy sc := by
      exact heldUpBy_congr (World.modThread_field (·.state) rfl)
        (World.modThread_field (·.blockedOn) rfl) fun _ => rfl
    rw [boost, raise, if_neg (by have := hcur.1; omega)]
    by_cases hstop : p ≤ w.prio cur
    · rw [if_pos (show p ≤ (w.threads cur).priority from hstop), if_pos hstop]
    rw [if_neg (show ¬ p ≤ (w.threads cur).priority from hstop), if_neg hstop]
    dsimp only
    by_cases hstate : (w.threads cur).state ≠ .blockedMutex
    · have hnone : w.heldUpBy sc cur = none := by simp [World.heldUpBy, hstate]
      rw [if_pos hstate, hnone, hraised]
    rw [if_neg hstate]
    by_cases hrange : (w.threads cur).blockedOn < 0 ∨ sc.resourceCount ≤ (w.threads cur).blockedOn
    · have hnone : w.heldUpBy sc cur = none := by
        refine if_neg fun h => ?_
        obtain ⟨h0, hn⟩ := h.2.2.1
        omega
      rw [if_pos hrange, hnone, hraised]
    rw [if_neg hrange]
    have hres : sc.IsResource (w.threads cur).blockedOn := ⟨by omega, by omega⟩
    by_cases howner : 0 ≤ (w.resources (w.threads cur).blockedOn).owner
    · have hsome : w.heldUpBy sc cur = some (w.resources (w.threads cur).blockedOn).owner :=
        if_pos ⟨hcur, by simpa using hstate, hres, howner⟩
      have hrest := ih (w := w.modThread cur fun t => { t with priority := p })
        (hown _ hres howner) hown
      rw [hheld, hraised] at hrest
      rw [hsome]
      exact hrest
    · have hnone : w.heldUpBy sc cur = none := if_neg fun h => howner h.2.2.2
      rw [hnone]
      dsimp only
      -- The chain ends at a free mutex: one more turn, which stops at once.
      cases fuel with
      | zero => exact hraised
      | succ fuel =>
        rw [boost, if_pos (by omega)]
        exact hraised

/-- **The walk ends by itself**: from one unit of fuel for each thread on, more changes nothing, so
the loop of the source, which has no bound, computes the same. -/
theorem boost_fuel {p : Int} {cur : Int} {w : World} (hcur : sc.IsThread cur)
    (hown : ∀ r, sc.IsResource r → 0 ≤ (w.resources r).owner → sc.IsThread (w.resources r).owner)
    {n : Nat} (hn : sc.threadCount.toNat ≤ n) :
    boost sc p n cur w = boost sc p sc.threadCount.toNat cur w := by
  have hprio : (boost sc p n cur w).prio = (boost sc p sc.threadCount.toNat cur w).prio := by
    rw [boost_priority hcur hown, boost_priority hcur hown]
    induction n, hn using Nat.le_induction with
    | base => rfl
    | succ n hn ih =>
      rw [raise_fuel (heldUpBy_mem_threadSet hown) (Scenario.mem_threadSet.mpr hcur) ((card_below_le p w.prio).trans hn)]
      exact ih
  refine World.ext (funext fun u => ?_) (by simp)
  have ⟨q, hq⟩ : ∃ q, (boost sc p n cur w).threads u = { w.threads u with priority := q } :=
    boost_threads p n cur w u
  have ⟨q', hq'⟩ : ∃ q, (boost sc p sc.threadCount.toNat cur w).threads u
      = { w.threads u with priority := q } := boost_threads p _ cur w u
  have hqq : q = q' := by
    have := congrFun hprio u
    simpa only [World.prio, hq, hq'] using this
  rw [hq, hq', hqq]

/-- In every reached state, and for every scenario, the walk that a blocking lock starts ends by
itself. -/
theorem boost_fuel_reach {w : World} (h : (callSystem sc).Reach w) {tid r : Int}
    (hr : sc.IsResource r) (p : Int) {n : Nat} (hn : sc.threadCount.toNat ≤ n) :
    let v := (w.tick sc).1
    boost sc p n (v.resources r).owner (v.enqueue tid r .blockedMutex)
      = boost sc p sc.threadCount.toNat (v.resources r).owner (v.enqueue tid r .blockedMutex) := by
  intro v
  have hcrew := crew_reach h
  have hown : ∀ s, (v.resources s).owner = (w.resources s).owner := fun s => by
    rw [show v.resources = w.resources from tick_resources w]
  by_cases hcur : 0 ≤ (v.resources r).owner
  · refine boost_fuel (hown r ▸ hcrew.owner r hr (hown r ▸ hcur)) (fun s hs h0 => ?_) hn
    rw [World.enqueue_owner, hown] at h0 ⊢
    exact hcrew.owner s hs h0
  · -- There is no owner to raise.
    have hstop : ∀ k, boost sc p k (v.resources r).owner (v.enqueue tid r .blockedMutex)
        = v.enqueue tid r .blockedMutex := fun k => by
      cases k with
      | zero => rfl
      | succ k => rw [boost, if_pos (by omega)]
    rw [hstop, hstop]

/-! ## `recalc_priority` -/

/-- **The recomputed priority is the greatest claim on the thread once `released` is gone.** -/
theorem recalcPriority_isGreatest (sc : Scenario) (w : World) (tid released : Int) :
    IsGreatest {p | p = w.basePrio tid ∨ ∃ r, sc.IsResource r ∧ r ≠ released ∧
      (w.resources r).type = .mutex ∧ (w.resources r).owner = tid ∧
      ∃ u ∈ (w.resources r).waiters.toList, w.prio u = p} (recalcPriority sc w tid released) := by
  let claims (r : Int) : List Int :=
    if r ≠ released ∧ (w.resources r).type = .mutex ∧ (w.resources r).owner = tid then
      (w.resources r).waiters.toList.map w.prio
    else []
  have hfold : recalcPriority sc w tid released
      = foldMax (w.basePrio tid) (sc.resourceIds.flatMap claims) := by
    rw [← foldl_foldMax]
    unfold recalcPriority
    congr 1
    funext p r
    simp only [claims]
    by_cases h₁ : r = released
    · simp [h₁, foldMax]
    by_cases h₂ : (w.resources r).type = .mutex
    · by_cases h₃ : (w.resources r).owner = tid
      · simp [h₁, h₂, h₃]; rfl
      · simp [h₁, h₂, h₃, foldMax]
    · simp [h₁, h₂, foldMax]
  have hset : {p | p = w.basePrio tid ∨ ∃ r, sc.IsResource r ∧ r ≠ released ∧
      (w.resources r).type = .mutex ∧ (w.resources r).owner = tid ∧
      ∃ u ∈ (w.resources r).waiters.toList, w.prio u = p}
      = {p | p = w.basePrio tid ∨ p ∈ sc.resourceIds.flatMap claims} := by
    ext p
    simp only [Set.mem_ofPred_eq, List.mem_flatMap, Scenario.mem_resourceIds, claims]
    refine or_congr Iff.rfl (exists_congr fun r => ?_)
    by_cases h : r ≠ released ∧ (w.resources r).type = .mutex ∧ (w.resources r).owner = tid
    · rw [if_pos h, List.mem_map]
      exact ⟨fun ⟨hr, _, _, _, hu⟩ => ⟨hr, hu⟩, fun ⟨hr, hu⟩ => ⟨hr, h.1, h.2.1, h.2.2, hu⟩⟩
    · rw [if_neg h]
      simp only [List.not_mem_nil, and_false, iff_false]
      rintro ⟨_, h₁, h₂, h₃, _⟩
      exact h ⟨h₁, h₂, h₃⟩
  rw [hfold, hset]
  exact foldMax_isGreatest _ _

/-! ## Who holds up whom -/

/-- In a reached state of a core scenario the threads held up by `t` are the waiters of its mutexes. -/
theorem heldUpBy_eq_some (hc : sc.Core) {w : World} (h : (callSystem sc).Reach w) {u t : Int} :
    w.heldUpBy sc u = some t ↔ 0 ≤ t ∧ ∃ r, sc.IsResource r ∧ sc.resTypes r = .mutex ∧
      (w.resources r).owner = t ∧ u ∈ (w.resources r).waiters.toList := by
  have hinv := core_reach hc h
  unfold World.heldUpBy
  rw [Option.ite_none_right_eq_some, Option.some.injEq]
  constructor
  · rintro ⟨⟨hu, hstate, hr, h0⟩, rfl⟩
    have hb : (w.threads u).blocked = true := by simp [Thread.blocked, hstate]
    obtain ⟨a, hat, hwait, hon⟩ := reach_standsAt h hu hb
    refine ⟨h0, _, hr, ?_, rfl, (hinv.mem_waiters hr).mpr ⟨hu, hb, rfl⟩⟩
    -- The action it stands at is a lock, so the resource is a mutex.
    have hcore := hc.core u hu _ a hat
    have hop : a.type.operand = some .mutex := by
      rw [hstate] at hwait
      cases htype : a.type <;> simp_all [ActionType.core, ActionType.wait, ActionType.operand]
    rw [hon]
    exact (hc.operand u hu _ a hat _ hop).2
  · rintro ⟨h0, r, hr, htype, rfl, hmem⟩
    obtain ⟨hu, hb, rfl⟩ := (hinv.mem_waiters hr).mp hmem
    refine ⟨⟨hu, ?_, hr, h0⟩, rfl⟩
    obtain ⟨a, hat, hwait, hon⟩ := reach_standsAt h hu hb
    have hcore := hc.core u hu _ a hat
    have hop := hc.operand u hu _ a hat
    rw [← hon, htype] at hop
    -- A semaphore wait would name a semaphore.
    cases htype : a.type <;> simp_all [ActionType.core, ActionType.wait, ActionType.operand]

theorem heldUpBy_ready {w : World} {t : Int} (h : (w.threads t).state = .ready) :
    w.heldUpBy sc t = none := by
  simp [World.heldUpBy, h]

/-- Every thread of the scenario has the priority it should. -/
def PrioExact (sc : Scenario) (w : World) : Prop :=
  ∀ t ∈ sc.threadSet, Exact w.basePrio (w.heldUpBy sc) w.prio t

/-- When no mutex changes owner or queue, nobody is held up by somebody else. -/
theorem heldUpBy_of_same (hc : sc.Core) {w w' : World} (hw : (callSystem sc).Reach w)
    (hw' : (callSystem sc).Reach w')
    (hmutex : ∀ r, sc.IsResource r → sc.resTypes r = .mutex →
      ((w'.resources r).owner = (w.resources r).owner ∧
        (w'.resources r).waiters = (w.resources r).waiters) ∨
      ((w'.resources r).waiters.toList = [] ∧ (w.resources r).waiters.toList = [])) :
    w'.heldUpBy sc = w.heldUpBy sc := by
  funext u
  refine Option.ext fun t => ?_
  rw [heldUpBy_eq_some hc hw, heldUpBy_eq_some hc hw']
  refine and_congr_right fun _ => exists_congr fun r => ?_
  refine and_congr_right fun hr => and_congr_right fun htype => ?_
  rcases hmutex r hr htype with ⟨hown, hwait⟩ | ⟨hnone', hnone⟩
  · rw [hown, hwait]
  · simp [hnone, hnone']

/-! ## Writes that leave priorities alone -/

@[simp] theorem prio_modResource (w : World) (r : Int) (f : Resource → Resource) :
    (w.modResource r f).prio = w.prio := rfl

@[simp] theorem basePrio_modResource (w : World) (r : Int) (f : Resource → Resource) :
    (w.modResource r f).basePrio = w.basePrio := rfl

@[simp] theorem prio_modThread {w : World} {t : Int} {f : Thread → Thread}
    (h : (f (w.threads t)).priority = (w.threads t).priority) : (w.modThread t f).prio = w.prio :=
  funext (World.modThread_field (·.priority) h)

@[simp] theorem basePrio_modThread {w : World} {t : Int} {f : Thread → Thread}
    (h : (f (w.threads t)).basePriority = (w.threads t).basePriority) :
    (w.modThread t f).basePrio = w.basePrio :=
  funext (World.modThread_field (·.basePriority) h)

@[simp] theorem prio_advance (w : World) (t : Int) : (w.advance t).prio = w.prio :=
  prio_modThread rfl

@[simp] theorem basePrio_advance (w : World) (t : Int) : (w.advance t).basePrio = w.basePrio :=
  basePrio_modThread rfl

@[simp] theorem prio_ownedPush (t : Thread) (r : Int) :
    (t.ownedPush r).priority = t.priority := by
  unfold Thread.ownedPush
  split <;> rfl

@[simp] theorem basePrio_ownedPush (t : Thread) (r : Int) :
    (t.ownedPush r).basePriority = t.basePriority := by
  unfold Thread.ownedPush
  split <;> rfl

@[simp] theorem prio_waiterRemove (w : World) (r : Int) (i : Nat) :
    (w.waiterRemove r i).prio = w.prio := rfl

@[simp] theorem basePrio_waiterRemove (w : World) (r : Int) (i : Nat) :
    (w.waiterRemove r i).basePrio = w.basePrio := rfl

@[simp] theorem prio_enqueue (w : World) (tid r : Int) (state : ThreadState) :
    (w.enqueue tid r state).prio = w.prio :=
  prio_modThread (w := w.modResource r fun r => { r with waiters := r.waiters.push tid }) rfl

@[simp] theorem basePrio_enqueue (w : World) (tid r : Int) (state : ThreadState) :
    (w.enqueue tid r state).basePrio = w.basePrio :=
  basePrio_modThread (w := w.modResource r fun r => { r with waiters := r.waiters.push tid }) rfl

@[simp] theorem basePrio_boost (p : Int) (fuel : Nat) (cur : Int) (w : World) :
    (boost sc p fuel cur w).basePrio = w.basePrio := by
  funext u
  exact boost_field (·.basePriority) fun _ _ => rfl

@[simp] theorem prio_handOver (w : World) (r : Int) : (handOver w r).1.prio = w.prio := by
  by_cases h : 0 < (w.resources r).waiters.count
  · rw [handOver_of_waiters h, prio_modThread (by rw [prio_ownedPush]; rfl)]
    rfl
  · rw [handOver_of_empty h]
    rfl

@[simp] theorem basePrio_handOver (w : World) (r : Int) :
    (handOver w r).1.basePrio = w.basePrio := by
  by_cases h : 0 < (w.resources r).waiters.count
  · rw [handOver_of_waiters h, basePrio_modThread (by rw [basePrio_ownedPush]; rfl)]
    rfl
  · rw [handOver_of_empty h]
    rfl

@[simp] theorem basePrio_lowered (w : World) (tid r : Int) :
    (lowered sc w tid r).basePrio = w.basePrio := by
  unfold lowered
  rw [World.modThread_modThread]
  exact basePrio_modThread rfl

theorem recalcPriority_ownedPop (w : World) (tid r : Int) :
    recalcPriority sc (w.modThread tid (·.ownedPop)) tid r = recalcPriority sc w tid r := by
  have hprio : ∀ x, ((w.modThread tid (·.ownedPop)).threads x).priority = (w.threads x).priority :=
    congrFun (prio_modThread (w := w) (t := tid) (f := (·.ownedPop)) rfl)
  unfold recalcPriority
  simp only [World.modThread_resources, World.modThread_self, hprio]
  rfl

theorem prio_lowered (w : World) (tid r : Int) :
    (lowered sc w tid r).prio = Function.update w.prio tid (recalcPriority sc w tid r) := by
  unfold lowered
  rw [World.modThread_modThread, recalcPriority_ownedPop]
  funext u
  simp only [World.prio, World.modThread_threads, Function.update_apply]
  split <;> rfl

/-! ## The two steps that move priorities -/

theorem heldUpBy_enqueue {w : World} (hinv : CoreInv sc w) {tid r : Int} (htid : sc.IsThread tid)
    (hr : sc.IsResource r) (hown : (w.resources r).owner ≠ -1) :
    (w.enqueue tid r .blockedMutex).heldUpBy sc
      = Function.update (w.heldUpBy sc) tid (some (w.resources r).owner) := by
  have h0 : 0 ≤ (w.resources r).owner := (hinv.owner_isThread hr hown).1
  funext u
  rw [Function.update_apply]
  simp only [World.heldUpBy, World.enqueue_owner, World.enqueue_threads]
  split
  · subst u
    exact if_pos ⟨htid, rfl, hr, h0⟩
  · rfl

/-- Threads hold up threads. -/
theorem heldUpBy_threads {w : World} (hinv : CoreInv sc w) {u t : Int}
    (h : w.heldUpBy sc u = some t) : sc.IsThread u ∧ sc.IsThread t := by
  simp only [World.heldUpBy, Option.ite_none_right_eq_some, Option.some.injEq] at h
  obtain ⟨⟨hu, _, hr, h0⟩, rfl⟩ := h
  exact ⟨hu, hinv.owner_isThread hr (by omega)⟩

section block

variable {w : World} (hinv : CoreInv sc w) {tid r : Int} (htid : sc.IsThread tid)
  (hr : sc.IsResource r) (hown : (w.resources r).owner ≠ -1)
include hinv htid hr hown

/-- Who holds up whom once `tid` is blocked on the mutex `r`, … -/
theorem heldUpBy_block : (boost sc (w.threads tid).priority sc.threadCount.toNat
    (w.resources r).owner (w.enqueue tid r .blockedMutex)).heldUpBy sc
      = Function.update (w.heldUpBy sc) tid (some (w.resources r).owner) := by
  rw [← heldUpBy_enqueue hinv htid hr hown]
  refine heldUpBy_congr (fun u => ?_) (fun u => ?_) fun s => by rw [boost_resources]
  · exact boost_field (·.state) fun _ _ => rfl
  · exact boost_field (·.blockedOn) fun _ _ => rfl

/-- … and the priorities then. -/
theorem prio_block : (boost sc (w.threads tid).priority sc.threadCount.toNat
    (w.resources r).owner (w.enqueue tid r .blockedMutex)).prio
      = raise (Function.update (w.heldUpBy sc) tid (some (w.resources r).owner)) (w.prio tid)
          sc.threadCount.toNat (w.resources r).owner w.prio := by
  rw [boost_priority (hinv.owner_isThread hr hown), heldUpBy_enqueue hinv htid hr hown, prio_enqueue]
  · rfl
  · intro s hs h0
    rw [World.enqueue_owner] at h0 ⊢
    exact hinv.owner_isThread hs (by omega)

/-- **Blocking on a mutex**: the boost makes every priority exact again. -/
theorem PrioExact.block (hready : (w.threads tid).state = .ready) (h : PrioExact sc w) :
    PrioExact sc (boost sc (w.threads tid).priority sc.threadCount.toNat (w.resources r).owner
      (w.enqueue tid r .blockedMutex)) := by
  have howner := hinv.owner_isThread hr hown
  have hclosed : ∀ t ∈ sc.threadSet, ∀ o,
      Function.update (w.heldUpBy sc) tid (some (w.resources r).owner) t = some o →
        o ∈ sc.threadSet := by
    intro t _ o ho
    rw [Function.update_apply] at ho
    split at ho
    · exact Scenario.mem_threadSet.mpr (Option.some.inj ho ▸ howner)
    · exact Scenario.mem_threadSet.mpr (heldUpBy_threads hinv ho).2
  have hnone : w.heldUpBy sc tid = none := heldUpBy_ready hready
  unfold PrioExact
  rw [basePrio_boost, basePrio_enqueue, heldUpBy_block hinv htid hr hown,
    prio_block hinv htid hr hown]
  refine raise_exact hclosed (Scenario.mem_threadSet.mpr howner) (card_below_le _ _)
    (due_of_wait hnone (h _ (Scenario.mem_threadSet.mpr howner))) fun t ht hne => ?_
  -- Whoever is not the owner holds up the same threads as before.
  refine (h t ht).congr rfl (fun u hu => ⟨?_, rfl⟩) fun u hu => .inl ?_
  · rw [Function.update_of_ne]
    · exact hu
    · rintro rfl
      rw [hnone] at hu
      exact absurd hu (by simp)
  · by_cases hut : u = tid
    · rw [hut, Function.update_self] at hu
      exact absurd (Option.some.inj hu).symm hne
    · rwa [Function.update_of_ne hut] at hu

end block

/-- The mutex once it is handed over: nobody's, or the best waiter's. -/
theorem unlock_resource {w : World} (hinv : CoreInv sc w) {tid r : Int} (hr : sc.IsResource r)
    (hready : (w.threads tid).state = .ready) :
    let w' := (handOver (lowered sc w tid r) r).1.advance tid
    ((w'.resources r).owner = -1 ∧ (w'.resources r).waiters.toList = []) ∨
    ((w'.resources r).owner ≠ tid ∧ ∀ u ∈ (w'.resources r).waiters.toList,
      u ∈ (w.resources r).waiters.toList ∧ w.prio u ≤ w.prio (w'.resources r).owner) := by
  dsimp only
  by_cases hlive : 0 < ((lowered sc w tid r).resources r).waiters.count
  · right
    rw [handOver_of_waiters hlive]
    simp only [World.advance_resources, World.modThread_resources, World.modResource_self,
      World.waiterRemove_waiters]
    generalize hbest : (lowered sc w tid r).bestWaiter r = best
    have hlt : best < (w.resources r).waiters.count := hbest ▸ bestWaiter_lt hlive
    have hprio : ∀ u ∈ (w.resources r).waiters.toList, (lowered sc w tid r).prio u = w.prio u := by
      intro u hu
      rw [prio_lowered, Function.update_of_ne (hinv.ne_of_waits hr hready hu)]
    refine ⟨hinv.ne_of_waits hr hready (LiveArray.cell_mem hlt), fun u hu => ?_⟩
    have hu' : u ∈ (w.resources r).waiters.toList := LiveArray.mem_of_mem_swapRemove hlt hu
    refine ⟨hu', ?_⟩
    obtain ⟨i, hi, rfl⟩ := LiveArray.mem_toList.mp hu'
    have hle := le_bestIdx (fun i => (lowered sc w tid r).prio
      (((lowered sc w tid r).resources r).waiters.cell i)) hi
    have hle : (lowered sc w tid r).prio ((w.resources r).waiters.cell i)
        ≤ (lowered sc w tid r).prio ((w.resources r).waiters.cell best) := hbest ▸ hle
    rw [hprio _ hu', hprio _ (LiveArray.cell_mem hlt)] at hle
    exact hle
  · left
    rw [handOver_of_empty hlive]
    simp only [World.advance_resources, World.modResource_self]
    refine ⟨trivial, LiveArray.toList_eq_nil.mpr ?_⟩
    show ((lowered sc w tid r).resources r).waiters.count = 0
    omega

/-- What else an unlock changes: no other resource, and the priority of the thread alone. -/
theorem unlock_elsewhere {w : World} {tid : Int} {a : Action} (hk : a.type = .mutexUnlock)
    (hown : (w.resources a.resourceId).owner = tid)
    (htop : (w.threads tid).ownedTopIs a.resourceId = true) :
    let w' := (handOver (lowered sc w tid a.resourceId) a.resourceId).1.advance tid
    (∀ s, s ≠ a.resourceId → w'.resources s = w.resources s) ∧
      w'.prio = Function.update w.prio tid (recalcPriority sc w tid a.resourceId) ∧
      w'.basePrio = w.basePrio := by
  refine ⟨fun s hs => ?_, ?_, ?_⟩
  · exact (Act.unlock hk hown htop).resource_of_ne (by rw [hk]; rfl) hs
  · rw [prio_advance, prio_handOver, prio_lowered]
  · rw [basePrio_advance, basePrio_handOver, basePrio_lowered]

/-- **Unlocking a mutex**: recomputing one priority is enough. -/
theorem PrioExact.unlock (hc : sc.Core) {w : World} (hw : (callSystem sc).Reach w) {tid : Int}
    {a : Action} (hk : a.type = .mutexUnlock) (htid : sc.IsThread tid)
    (hready : (w.threads tid).state = .ready) (hr : sc.IsResource a.resourceId)
    (hown : (w.resources a.resourceId).owner = tid) (htop : (w.threads tid).ownedTopIs a.resourceId = true)
    (hw' : (callSystem sc).Reach ((handOver (lowered sc w tid a.resourceId) a.resourceId).1.advance tid))
    (h : PrioExact sc w) :
    PrioExact sc ((handOver (lowered sc w tid a.resourceId) a.resourceId).1.advance tid) := by
  have hinv := core_reach hc hw
  have hrest := unlock_resource hinv hr hready
  obtain ⟨hother, hprio, hbase⟩ := unlock_elsewhere hk hown htop
  generalize (handOver (lowered sc w tid a.resourceId) a.resourceId).1.advance tid = w'
    at hw' hrest hother hprio hbase ⊢
  dsimp only at hrest
  have hsame : ∀ s u, sc.IsResource s → u ∈ (w.resources s).waiters.toList → w'.prio u = w.prio u := by
    intro s u hs hmem
    rw [hprio, Function.update_of_ne (hinv.ne_of_waits hs hready hmem)]
  have hnot : (w'.resources a.resourceId).owner ≠ tid := by
    rcases hrest with ⟨hfree, _⟩ | ⟨hne, _⟩
    · rw [hfree]; have := htid.1; omega
    · exact hne
  intro t ht
  rw [hbase]
  by_cases hself : t = tid
  · subst hself
    obtain ⟨hmem, hub⟩ := recalcPriority_isGreatest sc w t a.resourceId
    unfold Exact
    rw [show w'.prio t = recalcPriority sc w t a.resourceId by rw [hprio, Function.update_self]]
    refine ⟨?_, ?_⟩
    · rcases hmem with hb | ⟨s, hs, hne, htype, hsown, u, hu, hp⟩
      · exact .inl hb
      · refine .inr ⟨u, (heldUpBy_eq_some hc hw').mpr ⟨htid.1, s, hs, ?_, ?_, ?_⟩, ?_⟩
        · rw [← reach_type hw hs]; exact htype
        · rw [hother s hne]; exact hsown
        · rw [hother s hne]; exact hu
        · rw [hsame s u hs hu]; exact hp
    · rintro q (rfl | ⟨u, hu, rfl⟩)
      · exact hub (.inl rfl)
      · obtain ⟨_, s, hs, htype, hsown, hmem'⟩ := (heldUpBy_eq_some hc hw').mp hu
        have hne : s ≠ a.resourceId := by
          rintro rfl
          exact hnot hsown
        rw [hother s hne] at hsown hmem'
        rw [hsame s u hs hmem']
        exact hub (.inr ⟨s, hs, hne, by rw [reach_type hw hs]; exact htype, hsown, u, hmem', rfl⟩)
  · refine (h t ht).congr (by rw [hprio, Function.update_of_ne hself]) (fun u hu => ?_) fun u hu => ?_
    · obtain ⟨h0, s, hs, htype, hsown, hmem⟩ := (heldUpBy_eq_some hc hw).mp hu
      have hne : s ≠ a.resourceId := by
        rintro rfl
        exact hself (hsown.symm.trans hown)
      refine ⟨(heldUpBy_eq_some hc hw').mpr ⟨h0, s, hs, htype, ?_, ?_⟩, hsame s u hs hmem⟩
      · rw [hother s hne]; exact hsown
      · rw [hother s hne]; exact hmem
    · obtain ⟨h0, s, hs, htype, hsown, hmem⟩ := (heldUpBy_eq_some hc hw').mp hu
      by_cases hne : s = a.resourceId
      · -- The new owner is the best waiter, and the rest of the queue is not more urgent.
        subst hne
        rcases hrest with ⟨_, hnil⟩ | ⟨_, hbest⟩
        · rw [hnil] at hmem
          exact absurd hmem (List.not_mem_nil)
        · obtain ⟨hin, hle⟩ := hbest u hmem
          rw [hsown] at hle
          exact .inr (by rw [hsame _ u hs hin]; exact hle)
      · rw [hother s hne] at hsown hmem
        exact .inl ((heldUpBy_eq_some hc hw).mpr ⟨h0, s, hs, htype, hsown, hmem⟩)

/-! ## Over every run -/

/-- What a call does to priorities, and to who holds up whom. -/
inductive PrioStep (sc : Scenario) (w w' : World) : Prop
  | same : w'.basePrio = w.basePrio → w'.prio = w.prio → w'.heldUpBy sc = w.heldUpBy sc →
      PrioStep sc w w'
  | block (tid r : Int) : sc.IsThread tid → (w.threads tid).state = .ready → sc.IsResource r →
      (w.resources r).owner ≠ -1 →
      w' = boost sc (w.threads tid).priority sc.threadCount.toNat (w.resources r).owner
        (w.enqueue tid r .blockedMutex) → PrioStep sc w w'
  | unlock (tid : Int) (a : Action) : a.type = .mutexUnlock → sc.IsThread tid →
      (w.threads tid).state = .ready → sc.IsResource a.resourceId →
      (w.resources a.resourceId).owner = tid → (w.threads tid).ownedTopIs a.resourceId = true →
      w' = (handOver (lowered sc w tid a.resourceId) a.resourceId).1.advance tid → PrioStep sc w w'

/-- **Only a lock that blocks and an unlock move priorities.** -/
theorem core_prioStep (hc : sc.Core) {w : World} (hw : (callSystem sc).Reach w) {tid : Int}
    (htid : sc.IsThread tid) (hok : (w.executeStep sc tid).fault = none) :
    PrioStep sc w (w.executeStep sc tid).world := by
  have hinv := core_reach hc hw
  have hw' : (callSystem sc).Reach (w.executeStep sc tid).world := .step hw ⟨htid, hok, rfl⟩
  have hmove := executeStep_move hok
  rw [hinv.tick_eq] at hmove
  generalize (w.executeStep sc tid).world = w' at hmove hw' ⊢
  cases hmove with
  | idle => exact .same rfl rfl rfl
  | finish =>
    exact .same (basePrio_modThread rfl) (prio_modThread rfl)
      (heldUpBy_of_same hc hw hw' fun _ _ _ => .inl ⟨rfl, rfl⟩)
  | @act a _ hready hat hrange hact =>
    have hcore := hc.core tid htid _ _ hat
    have hop := hc.operand tid htid _ _ hat
    -- Outside the action's resource nothing changes, and a semaphore is no mutex.
    have hsem : a.type.operand = some .semaphore → w'.heldUpBy sc = w.heldUpBy sc := by
      intro hop'
      refine heldUpBy_of_same hc hw hw' fun r hr htype => .inl ?_
      rw [hact.resource_of_ne hcore]
      · exact ⟨rfl, rfl⟩
      · rintro rfl
        rw [(hop _ hop').2] at htype
        exact absurd htype (by decide)
    cases hact with
    | bookkeep _ hstand hp =>
      exact .same (basePrio_modThread hstand.basePriority) (prio_modThread hp)
        (heldUpBy_of_same hc hw hw' fun _ _ _ => .inl ⟨rfl, rfl⟩)
    | exit =>
      exact .same (basePrio_modThread rfl) (prio_modThread rfl)
        (heldUpBy_of_same hc hw hw' fun _ _ _ => .inl ⟨rfl, rfl⟩)
    | lifecycle =>
      refine .same (by simp) (by simp) (heldUpBy_of_same hc hw hw' fun r hr _ => .inl ⟨?_, ?_⟩)
      · rw [World.advance_resources]
        apply World.modResource_owner
        rfl
      · rw [World.advance_resources]
        apply World.modResource_waiters
        rfl
    | acquire hk hfree =>
      refine .same ?_ ?_ (heldUpBy_of_same hc hw hw' fun r hr htype => ?_)
      · rw [basePrio_advance]
        exact basePrio_modThread (f := (·.ownedPush a.resourceId)) (basePrio_ownedPush _ _)
      · rw [prio_advance]
        exact prio_modThread (f := (·.ownedPush a.resourceId)) (prio_ownedPush _ _)
      by_cases hra : r = a.resourceId
      · right
        have hnil : (w.resources r).waiters.toList = [] :=
          LiveArray.toList_eq_nil.mpr (hinv.free r hr htype (hra ▸ hfree))
        refine ⟨?_, hnil⟩
        rw [World.advance_resources, World.modThread_resources, World.modResource_waiters rfl]
        exact hnil
      · left
        rw [World.advance_resources, World.modThread_resources, World.modResource_of_ne _ hra]
        exact ⟨rfl, rfl⟩
    | blockMutex hk hown =>
      have hr := (hop _ (ActionType.wait_of_locks hk).2).1
      refine .block tid _ htid hready hr hown ?_
      rw [ActionType.countdown_of_core hcore]
      rfl
    | unlock hk hown htop =>
      exact .unlock tid a hk htid hready (hop .mutex (by rw [hk]; rfl)).1 hown htop rfl
    | take hk => exact .same (by simp) (by simp) (hsem (ActionType.wait_of_waits hk).2)
    | blockSem hk =>
      have harm : ∀ v : World, v.arm tid a.countdown = v := by
        rw [ActionType.countdown_of_core hcore]
        exact fun _ => rfl
      exact .same (by rw [harm]; simp) (by rw [harm]; simp) (hsem (ActionType.wait_of_waits hk).2)
    | grant hk =>
      refine .same ?_ ?_ (hsem (by rw [hk]; rfl))
      · rw [basePrio_advance, World.grantSem, basePrio_modThread rfl, basePrio_waiterRemove]
      · rw [prio_advance, World.grantSem, prio_modThread rfl, prio_waiterRemove]
    | signal hk => exact .same (by simp) (by simp) (hsem (by rw [hk]; rfl))
    | condWait _ hk | condSignal hk | condLost hk | condBroadcast hk | mailWake hk =>
      rw [hk] at hcore
      exact absurd hcore (by decide)
    | mail hk | mailBlock hk =>
      rw [ActionType.mails_of_core hcore] at hk
      exact absurd hk (by decide)

theorem PrioExact.step (hc : sc.Core) {w : World} (hw : (callSystem sc).Reach w) {tid : Int}
    (htid : sc.IsThread tid) (hok : (w.executeStep sc tid).fault = none) (h : PrioExact sc w) :
    PrioExact sc (w.executeStep sc tid).world := by
  have hw' : (callSystem sc).Reach (w.executeStep sc tid).world := .step hw ⟨htid, hok, rfl⟩
  have hstep := core_prioStep hc hw htid hok
  generalize (w.executeStep sc tid).world = w' at hstep hw' ⊢
  cases hstep with
  | same hbase hprio hheld =>
    unfold PrioExact
    rw [hbase, hheld, hprio]
    exact h
  | block tid r htid hready hr hown hv =>
    rw [hv]
    exact h.block (core_reach hc hw) htid hr hown hready
  | unlock tid a hk htid hready hr hown htop hv =>
    subst hv
    exact h.unlock hc hw hk htid hready hr hown htop hw'

theorem reach_prioExact (hc : sc.Core) {w : World} (h : (callSystem sc).Reach w) :
    PrioExact sc w := by
  induction h with
  | init hi =>
    obtain ⟨before, rfl⟩ := hi
    intro t ht
    have ht := Scenario.mem_threadSet.mp ht
    have hheld : (before.reset sc).heldUpBy sc = fun _ => none := by
      funext u
      refine if_neg fun h => ?_
      have hstate := h.2.1
      simp only [World.reset, if_pos h.1] at hstate
      exact absurd hstate (by simp [Thread.reset])
    have hself : (before.reset sc).prio t = (before.reset sc).basePrio t := by
      simp [World.prio, World.basePrio, World.reset, ht, Thread.reset]
    refine ⟨.inl hself, ?_⟩
    rintro q (rfl | ⟨u, hu, _⟩)
    · exact le_of_eq hself.symm
    · rw [hheld] at hu
      exact absurd hu (by simp)
  | step hr hst ih =>
    obtain ⟨htid, hok, rfl⟩ := hst
    exact ih.step hc hr htid hok

/-- The priorities of the waiters of a thread's mutexes, and its own base priority. -/
def World.claims (sc : Scenario) (w : World) (t : Int) : Set Int :=
  {p | p = (w.threads t).basePriority ∨ ∃ r, sc.IsResource r ∧ sc.resTypes r = .mutex ∧
    (w.resources r).owner = t ∧ ∃ u ∈ (w.resources r).waiters.toList, (w.threads u).priority = p}

theorem reach_greatest_claim (hc : sc.Core) {w : World} (h : (callSystem sc).Reach w) {t : Int}
    (ht : sc.IsThread t) : IsGreatest (w.claims sc t) (w.threads t).priority := by
  obtain ⟨hmem, hub⟩ := reach_prioExact hc h t (Scenario.mem_threadSet.mpr ht)
  refine ⟨?_, ?_⟩
  · rcases hmem with hb | ⟨u, hu, hp⟩
    · exact .inl hb
    · obtain ⟨_, r, hr, htype, hown, hin⟩ := (heldUpBy_eq_some hc h).mp hu
      exact .inr ⟨r, hr, htype, hown, u, hin, hp⟩
  · rintro p (rfl | ⟨r, hr, htype, hown, u, hin, rfl⟩)
    · exact hub (.inl rfl)
    · exact hub (.inr ⟨u, (heldUpBy_eq_some hc h).mpr ⟨ht.1, r, hr, htype, hown, hin⟩, rfl⟩)

/-- `smash_check_priority_inversion` never fails. -/
theorem reach_checkPriorityInversion (hc : sc.Core) {w : World} (h : (callSystem sc).Reach w) :
    checkPriorityInversion sc w = none := by
  refine List.findSome?_eq_none_iff.mpr fun r hr => ?_
  have hr := Scenario.mem_resourceIds.mp hr
  dsimp only
  split
  · rfl
  · rename_i hmutex
    refine List.findSome?_eq_none_iff.mpr fun k hk => ?_
    have hcell := LiveArray.cell_mem (List.mem_range.mp hk)
    have howner := (core_reach hc h).owner_isThread hr (by omega)
    have hle := (reach_greatest_claim hc h howner).2 (.inr ⟨r, hr, by
      rw [← reach_type h hr]
      by_contra htype
      exact hmutex (.inl htype), rfl, _, hcell, rfl⟩)
    exact if_neg (not_lt_of_ge hle)

/-- **Priority inheritance is exact** in every reached state of a core scenario: a thread is as urgent as
its base priority and the waiters of its mutexes make it, and no more. -/
theorem core_priority (hc : sc.Core) {w : World} (h : (callSystem sc).Reach w) :
    (∀ t, sc.IsThread t → IsGreatest {p | p = (w.threads t).basePriority ∨
      ∃ r, sc.IsResource r ∧ sc.resTypes r = .mutex ∧ (w.resources r).owner = t ∧
        ∃ u ∈ (w.resources r).waiters.toList, (w.threads u).priority = p} (w.threads t).priority) ∧
    checkPriorityInversion sc w = none ∧
    ∀ t, sc.IsThread t →
      (∀ r, sc.IsResource r → sc.resTypes r = .mutex → (w.resources r).owner = t →
        (w.resources r).waiters.count = 0) →
      (w.threads t).priority = (w.threads t).basePriority := by
  refine ⟨fun t ht => reach_greatest_claim hc h ht, reach_checkPriorityInversion hc h,
    fun t ht hidle => ?_⟩
  rcases (reach_greatest_claim hc h ht).1 with hb | ⟨r, hr, htype, hown, u, hin, _⟩
  · exact hb
  · have := hidle r hr htype hown
    rw [LiveArray.toList_eq_nil.mpr this] at hin
    exact absurd hin (List.not_mem_nil)

/-- `sc_multihop_inheritance` of `test_chibios_patterns.c`. -/
def multihopInheritance : Scenario :=
  { Scenario.ofSteps
      [[⟨.mutexLock, 0, 0⟩, ⟨.mutexLock, 1, 0⟩, ⟨.mutexUnlock, 1, 0⟩, ⟨.mutexUnlock, 0, 0⟩],
        [⟨.mutexLock, 1, 0⟩, ⟨.mutexUnlock, 1, 0⟩], [⟨.mutexLock, 0, 0⟩, ⟨.mutexUnlock, 0, 0⟩]]
      [.mutex, .mutex] [] with
    priorities := fun t => if t = 0 then 5 else if t = 1 then 10 else 20 }

theorem multihopInheritance_core : multihopInheritance.Core where
  toMatching := Scenario.matching_of_steps (by decide) (by decide)
  core := forall_actionAt (P := fun _ a => a.type.core = true) (by decide)
  lifecycle := forall_actionAt (P := fun _ a => a.type = .objectInit ∨ a.type = .objectDestroy →
    multihopInheritance.IsResource a.resourceId) (by decide)

/-- `T2` waits for `T0`, which waits for `T1`. -/
def multihopChain : World := (startWorld multihopInheritance).calls multihopInheritance [1, 0, 0, 2]

/-- The last of them is lifted from 10 to 20, which is what the others hand on. -/
theorem core_priority_multihop :
    (multihopChain.threads 1).basePriority = 10 ∧
      IsGreatest {p | p = (multihopChain.threads 1).basePriority ∨
        ∃ r, multihopInheritance.IsResource r ∧ multihopInheritance.resTypes r = .mutex ∧
          (multihopChain.resources r).owner = 1 ∧
          ∃ u ∈ (multihopChain.resources r).waiters.toList, (multihopChain.threads u).priority = p} 20 := by
  have hreach : (callSystem multihopInheritance).Reach multihopChain := reach_calls (by decide)
  have hgreatest := (core_priority multihopInheritance_core hreach).1 1 (by decide)
  have hprio : (multihopChain.threads 1).priority = 20 := by decide
  rw [hprio] at hgreatest
  exact ⟨by decide, hgreatest⟩

end Smash
