import Smash.Lib.Cascade
import Smash.Lib.Saturate
import Smash.Proof.Exhaustive

/-!
# Persistent sets and sleep sets

Of its READY threads a node tries the persistent set, a closure under dependence of the next actions
(`mem_computePersistentSet`), less what is asleep.

`explore_dfs` keeps one sleep set for each depth, for the whole search. A node reads and extends the set
of its own depth, and after each child extends the set one depth below; no node clears a set. So the
search is a `Cascade` with the sleep set as the state of a level (`reduction`), and what it visits can be
told depth by depth, without the order of the search (`exploreLedger_visits_dpor`).

`kept_tried_once` draws the consequence: in a whole search a thread is tried once at each depth.
-/

set_option autoImplicit false

namespace Smash

variable {sc : Scenario} {cfg : Config}

/-! ## Persistent sets -/

theorem persistentLoop_eq (w : World) (runnable : List Int) (n : Nat) (set : Finset Int) :
    persistentLoop sc w runnable n set = Saturate.saturate (nextDependent sc w) runnable n set := by
  induction n generalizing set with
  | zero => rfl
  | succ n ih =>
    rw [persistentLoop, Saturate.saturate]
    simp only [ih]
    rfl

/-- **The persistent set is a closure**: it holds what the lowest READY thread reaches, over READY
threads, from one to another whose next action is dependent. -/
theorem mem_computePersistentSet {w : World} {first : Int} {rest : List Int} {q : Int} :
    q ∈ computePersistentSet sc w (first :: rest) ↔
      Relation.ReflTransGen (Saturate.Pulls (nextDependent sc w) (first :: rest)) first q := by
  rw [computePersistentSet, persistentLoop_eq]
  exact Saturate.mem_saturate List.mem_cons_self le_rfl

/-- The `while` loop of `compute_persistent_set` ends by itself: more turns change nothing. -/
theorem persistentLoop_fuel {w : World} {first : Int} {rest : List Int} {n : Nat}
    (hn : (first :: rest).length ≤ n) :
    persistentLoop sc w (first :: rest) n {first} = computePersistentSet sc w (first :: rest) := by
  refine Finset.ext fun q => ?_
  rw [mem_computePersistentSet, persistentLoop_eq]
  exact Saturate.mem_saturate List.mem_cons_self hn

/-- **`compute_persistent_set` computes the least closed set.** Its loop ends, with the smallest set of
listed threads that contains the first and, with a thread, every listed thread whose next action is dependent
on that of the thread. -/
theorem computePersistentSet_isLeast (w : World) (first : Int) (rest : List Int) :
    Saturate.Ends (persistentSweep sc w (first :: rest)) (first :: rest).toFinset {first}
      (computePersistentSet sc w (first :: rest)) ∧
    IsLeast {set : Finset Int | set ⊆ (first :: rest).toFinset ∧ first ∈ set ∧
        ∀ p ∈ set, ∀ q ∈ first :: rest, nextDependent sc w p q = true → q ∈ set}
      (computePersistentSet sc w (first :: rest)) := by
  rw [computePersistentSet, persistentLoop_eq]
  refine ⟨Saturate.ends_of_seed List.mem_cons_self le_rfl, ?_⟩
  have hclosed : ∀ set : Finset Int,
      Saturate.Closed (nextDependent sc w) (first :: rest) set ↔
        ∀ p ∈ set, ∀ q ∈ first :: rest, nextDependent sc w p q = true → q ∈ set := fun set =>
    forall₃_congr fun _ _ _ => and_imp
  simp only [← hclosed]
  exact Saturate.saturate_isLeast List.mem_cons_self le_rfl

/-! ## The schedules the reduction keeps -/

/-- What comes up at a depth of the reduced search. -/
inductive Item where
  | node (schedule : List Int) (world : World)
  /-- The last step of the schedule fails, and leaves `world`. -/
  | broken (schedule : List Int) (world : World)
  /-- A node above hands down sleeping threads. -/
  | pass (threads : List Int)

/-- What the loop of a node makes of the sleep set of its depth, and what it sends one depth below. -/
def keepLoop (sc : Scenario) (s : List Int) (w : World) (tried : Finset Int) :
    List Int → Finset Int → Finset Int × List Item
  | [], sleep => (sleep, [])
  | t :: rest, sleep =>
    if t ∉ tried then keepLoop sc s w tried rest sleep
    else
      let slept := insert t sleep
      let below := (w.executeStep sc t).world
      let later := keepLoop sc s w tried rest slept
      if stepFails sc w t then (later.1, .broken (s ++ [t]) below :: later.2)
      else (later.1, .node (s ++ [t]) below ::
        .pass ((collectRunnable sc w smashMaxThreads).filter (· ∈ slept)) :: later.2)

/-- The reduction: a node tries the threads of its persistent set that are not asleep. -/
def reduction (sc : Scenario) : Cascade (Finset Int) Item where
  react
    | sleep, .node s w =>
      let runnable := collectRunnable sc w smashMaxThreads
      keepLoop sc s w ((computePersistentSet sc w runnable).filter (· ∉ sleep)) runnable sleep
    | sleep, .broken _ _ => (sleep, [])
    | sleep, .pass threads => (sleep ∪ threads.toFinset, [])

/-- What comes up at depth `d`, from left to right. -/
def kept (sc : Scenario) (d : Nat) : List Item :=
  (reduction sc).level (fun _ => ∅) 0 [.node [] (startWorld sc)] d

def Item.schedule : Item → Option (List Int)
  | .node s _ | .broken s _ => some s
  | .pass _ => none

/-- A schedule that the reduction keeps. -/
def KeptSchedule (sc : Scenario) (s : List Int) : Prop :=
  ∃ d, ∃ x ∈ kept sc d, x.schedule = some s

/-! ## The walk works the items off -/

/-- The kind of a node that no guard cuts off. -/
def nodeKind (sc : Scenario) (w : World) : VisitKind :=
  if allDone sc w then .interleaving
  else if collectRunnable sc w smashMaxThreads = [] then .deadlock
  else .expanded

/-- What the search records of an item. -/
def Item.visit (sc : Scenario) : Item → Option Visit
  | .node s w => some ⟨nodeKind sc w, s, w⟩
  | .broken s w => some ⟨.violation, s, w⟩
  | .pass _ => none

/-- The search has worked off the items `xs` at depth `d`, has met the items `seen`, and has recorded
them. -/
structure WorksOff (sc : Scenario) (d : Nat) (xs : List Item) (l l' : Ledger) (seen : List Item) :
    Prop where
  settled : (reduction sc).Settled l.dpor.sleepSet l'.dpor.sleepSet d xs seen
  visits : l'.visits = l.visits ++ seen.filterMap (Item.visit sc)

theorem WorksOff.append {d : Nat} {xs ys seen seen' : List Item} {l l₁ l' : Ledger}
    (h : WorksOff sc d xs l l₁ seen) (h' : WorksOff sc d ys l₁ l' seen') :
    WorksOff sc d (xs ++ ys) l l' (seen ++ seen') := by
  refine ⟨h.settled.append h'.settled, ?_⟩
  rw [h'.visits, h.visits, List.filterMap_append, List.append_assoc]

/-- Changes above the depth do not matter. -/
theorem WorksOff.nil {d : Nat} {l l' : Ledger} (hv : l'.visits = l.visits)
    (hs : ∀ k, l'.dpor.sleepSet (d + k) = l.dpor.sleepSet (d + k)) : WorksOff sc d [] l l' [] :=
  ⟨.nil hs, by simp [hv]⟩

/-! ### The sleep sets -/

section sleepSets

variable (hdpor : cfg.enableDpor = true) {depth : Nat}
include hdpor

theorem sleepSet_sleep (l : Ledger) (t : Int) (hd : depth < smashMaxDepth) :
    (l.sleep cfg depth t).dpor.sleepSet
      = Function.update l.dpor.sleepSet depth (insert t (l.dpor.sleepSet depth)) := by
  rw [Ledger.sleep, if_pos hdpor]
  show (l.dpor.sleepAdd depth t).sleepSet = _
  rw [Dpor.sleepAdd, if_neg (by omega)]

omit hdpor in
theorem sleepSet_foldl (S : Finset Int) (hd : depth < smashMaxDepth) (ts : List Int) (d : Dpor) :
    (ts.foldl (fun d' tid => if tid ∈ S then d'.sleepAdd depth tid else d') d).sleepSet
      = Function.update d.sleepSet depth (d.sleepSet depth ∪ (ts.filter (· ∈ S)).toFinset) := by
  induction ts generalizing d with
  | nil => simp
  | cons t ts ih =>
    rw [List.foldl_cons, ih]
    by_cases ht : t ∈ S
    · rw [if_pos ht, List.filter_cons_of_pos (by simpa using ht), Dpor.sleepAdd, if_neg (by omega)]
      simp only [Function.update_idem, Function.update_self, List.toFinset_cons]
      congr 1
      ext u
      simp only [Finset.mem_union, Finset.mem_insert]
      tauto
    · rw [if_neg ht, List.filter_cons_of_neg (by simpa using ht)]

theorem sleepSet_propagate (l : Ledger) (ts : List Int) (hd : depth + 1 < smashMaxDepth) :
    (l.propagate cfg depth ts).dpor.sleepSet = Function.update l.dpor.sleepSet (depth + 1)
      (l.dpor.sleepSet (depth + 1) ∪ (ts.filter (· ∈ l.dpor.sleepSet depth)).toFinset) := by
  rw [Ledger.propagate, if_pos hdpor]
  show (l.dpor.sleepPropagate depth ts).sleepSet = _
  rw [Dpor.sleepPropagate, if_neg (by omega)]
  by_cases hempty : l.dpor.sleepSet depth = ∅
  · rw [if_pos hempty, hempty]
    simp
  · rw [if_neg hempty]
    exact sleepSet_foldl _ hd ts _

/-- What a node tries, with the depth inside the array of sleep sets. -/
theorem tried_dpor (l : Ledger) (w : World) (hd : depth < smashMaxDepth) :
    l.tried sc cfg depth w = (computePersistentSet sc w (collectRunnable sc w smashMaxThreads)).filter
      (· ∉ l.dpor.sleepSet depth) := by
  have hc : ∀ t, l.dpor.sleepContains depth t = decide (t ∈ l.dpor.sleepSet depth) := fun t => by
    rw [Dpor.sleepContains, if_neg (by omega)]
  simp only [Ledger.tried, hdpor, if_true, hc, decide_eq_true_eq]

/-! ### The events of the loop, as items of the depth below -/

/-- Putting a thread to sleep changes nothing below, … -/
theorem worksOff_sleep (sc : Scenario) (l : Ledger) (t : Int) (hd : depth < smashMaxDepth) :
    WorksOff sc (depth + 1) [] l (l.sleep cfg depth t) [] := by
  refine .nil (visits_sleep ..) fun k => ?_
  rw [sleepSet_sleep hdpor l t hd, Function.update_of_ne (by omega)]

/-- … and what a parent hands down is one more item. -/
theorem worksOff_pass (sc : Scenario) (l : Ledger) (ts : List Int) (hd : depth + 1 < smashMaxDepth) :
    WorksOff sc (depth + 1) [.pass (ts.filter (· ∈ l.dpor.sleepSet depth))] l
      (l.propagate cfg depth ts) [.pass (ts.filter (· ∈ l.dpor.sleepSet depth))] := by
  have hset := sleepSet_propagate hdpor l ts hd
  refine ⟨.item ?_ (.nil fun k => ?_), ?_⟩
  · rw [hset, Function.update_self]
    rfl
  · rw [hset, Function.update_of_ne (by omega)]
  · rw [visits_propagate]
    exact (List.append_nil _).symm

end sleepSets

/-- A failing step is recorded, and that is all. -/
theorem worksOff_broken (sc : Scenario) (d : Nat) (l : Ledger) (m : Saved) :
    WorksOff sc d [.broken m.schedule m.world] l (l.reportViolation m)
      [.broken m.schedule m.world] :=
  ⟨.item rfl (.nil fun _ => rfl), rfl⟩

/-- A node that tries no thread is recorded, and that is all. -/
theorem worksOff_leaf {d : Nat} {l l' : Ledger} {s : List Int} {w : World}
    (hnil : collectRunnable sc w smashMaxThreads = []) (hdpor : l'.dpor = l.dpor)
    (hvisits : l'.visits = l.visits ++ [⟨nodeKind sc w, s, w⟩]) :
    WorksOff sc d [.node s w] l l' [.node s w] := by
  have hreact : (reduction sc).react (l.dpor.sleepSet d) (.node s w) = (l.dpor.sleepSet d, []) := by
    show keepLoop _ _ _ _ _ _ = _
    rw [hnil, keepLoop]
  refine ⟨.item ?_ ?_, hvisits⟩
  · rw [hreact, hdpor]
  · rw [hreact]
    exact .nil fun k => by rw [hdpor]

/-! ### The loop and the walk -/

section worksOff

variable (hdpor : cfg.enableDpor = true) (hstop : cfg.stopOnFirstBug = false) {bound : Nat}
  (hle : bound ≤ smashMaxDepth) (hshort : RunsShorter sc bound)
include hdpor hstop hle hshort

theorem walkLoop_worksOff {recurse : Saved → Ledger → Ledger} {room depth : Nat} {n : Saved}
    (hn : AtRun sc (room + 1) depth n)
    (hrec : ∀ m l, AtRun sc room (depth + 1) m → (∃ seen, WorksOff sc (depth + 1)
        [.node m.schedule m.world] l (recurse m l) seen) ∧
      ∀ j ≤ depth, (recurse m l).dpor.sleepSet j = l.dpor.sleepSet j)
    (tried : Finset Int) (rest : List Int) (hrest : ∀ t ∈ rest, sc.Ready n.world t) (l : Ledger) :
    (∃ seen, WorksOff sc (depth + 1)
        (keepLoop sc n.schedule n.world tried rest (l.dpor.sleepSet depth)).2 l
        (walkLoop sc cfg recurse depth n tried rest l) seen) ∧
      (walkLoop sc cfg recurse depth n tried rest l).dpor.sleepSet depth
        = (keepLoop sc n.schedule n.world tried rest (l.dpor.sleepSet depth)).1 ∧
      ∀ j < depth, (walkLoop sc cfg recurse depth n tried rest l).dpor.sleepSet j
        = l.dpor.sleepSet j := by
  have hdepth : depth < smashMaxDepth := by have := hn.room; omega
  induction rest generalizing l with
  | nil => exact ⟨⟨[], .nil rfl fun _ => rfl⟩, rfl, fun _ _ => rfl⟩
  | cons t rest ih =>
    have hready := hrest t List.mem_cons_self
    have ih := ih fun u hu => hrest u (List.mem_cons_of_mem _ hu)
    rw [walkLoop, keepLoop]
    by_cases htried : t ∉ tried
    · -- Passed over: only a counter moves.
      have hsame : (l.countPruned cfg depth t).dpor = l.dpor := by
        unfold Ledger.countPruned
        split <;> rfl
      rw [if_pos htried, if_pos htried]
      obtain ⟨⟨seen, hw⟩, hown, habove⟩ := ih (l.countPruned cfg depth t)
      rw [hsame] at hw hown habove
      exact ⟨⟨seen, ⟨hsame ▸ hw.settled, by rw [hw.visits, visits_countPruned]⟩⟩, hown, habove⟩
    rw [if_neg htried, if_neg htried]
    have hslept := sleepSet_sleep hdpor l t hdepth
    have hself : (l.sleep cfg depth t).dpor.sleepSet depth = insert t (l.dpor.sleepSet depth) := by
      rw [hslept, Function.update_self]
    have hother : ∀ j ≠ depth, (l.sleep cfg depth t).dpor.sleepSet j = l.dpor.sleepSet j :=
      fun j hj => by rw [hslept, Function.update_of_ne hj]
    have hfirst := worksOff_sleep hdpor sc l t hdepth
    by_cases hfail : stepFails sc n.world t = true
    · simp only [if_pos hfail, hstop, Bool.false_eq_true, if_false]
      obtain ⟨⟨seen, hw⟩, hown, habove⟩ :=
        ih ((l.sleep cfg depth t).reportViolation (n.step sc t))
      have hset : ((l.sleep cfg depth t).reportViolation (n.step sc t)).dpor.sleepSet
          = (l.sleep cfg depth t).dpor.sleepSet := rfl
      rw [hset, hself] at hw hown
      have hitem := worksOff_broken sc (depth + 1) (l.sleep cfg depth t) (n.step sc t)
      rw [hn.schedule_step t] at hitem
      refine ⟨⟨_, (hfirst.append hitem).append hw⟩, hown, fun j hj => ?_⟩
      rw [habove j hj, hset, hother j (by omega)]
    · have hclean := hn.child hready (by simpa using hfail)
      have hnext : depth + 1 < smashMaxDepth := by
        have := hshort _ _ hclean.run
        have := hclean.length
        omega
      simp only [if_neg hfail, Ledger.stopped, hstop, Bool.and_false, Bool.false_eq_true, if_false]
      obtain ⟨⟨seen, hdown⟩, habove⟩ := hrec (n.step sc t) (l.sleep cfg depth t) hclean
      rw [hn.schedule_step t] at hdown
      generalize recurse (n.step sc t) (l.sleep cfg depth t) = back at hdown habove
      have hback : back.dpor.sleepSet depth = insert t (l.dpor.sleepSet depth) := by
        rw [habove depth (le_refl _), hself]
      have hpass := worksOff_pass hdpor sc back (collectRunnable sc n.world smashMaxThreads) hnext
      have hkeep : ∀ j ≤ depth,
          (back.propagate cfg depth (collectRunnable sc n.world smashMaxThreads)).dpor.sleepSet j
            = back.dpor.sleepSet j := fun j hj => by
        rw [sleepSet_propagate hdpor back _ hnext, Function.update_of_ne (by omega)]
      rw [hback] at hpass
      obtain ⟨⟨seen', hw⟩, hown, hrest'⟩ :=
        ih (back.propagate cfg depth (collectRunnable sc n.world smashMaxThreads))
      rw [hkeep depth (le_refl _), hback] at hw hown
      refine ⟨⟨_, ((hfirst.append hdown).append hpass).append hw⟩, hown, fun j hj => ?_⟩
      rw [hrest' j hj, hkeep j (by omega), habove j (by omega), hother j (by omega)]

/-- Below a node at `depth` the walk works off that node, and leaves the sleep sets above alone. -/
theorem walk_worksOff (hv : sc.Valid) (hcache : cfg.enableStateCaching = false)
    (hlim : cfg.maxInterleavings = none) (hbound : cfg.maxDepth = bound) (room depth : Nat)
    (n : Saved) (l : Ledger) (hn : AtRun sc room depth n) :
    (∃ seen, WorksOff sc depth [.node n.schedule n.world] l (walk sc cfg room depth n l) seen) ∧
      ∀ j < depth, (walk sc cfg room depth n l).dpor.sleepSet j = l.dpor.sleepSet j := by
  have hgo : ∀ l : Ledger, (l.stopped cfg || l.enough cfg) = false := fun l => by
    simp [Ledger.stopped, Ledger.enough, hstop, hlim]
  induction room generalizing depth n l with
  | zero =>
    have := hshort _ _ hn.run
    have := hn.length
    have := hn.room
    omega
  | succ room ih =>
    have hlen : depth < bound := by
      have := hshort _ _ hn.run
      have := hn.length
      omega
    rw [walk, hgo, if_neg Bool.false_ne_true, if_neg (by omega)]
    unfold walkNode
    by_cases hdone : allDone sc n.world = true
    · rw [if_pos hdone]
      exact ⟨⟨_, worksOff_leaf ((collectRunnable_eq_nil hv).mpr (stuck_of_allDone hdone)) rfl
        (by rw [nodeKind, if_pos hdone]; rfl)⟩, fun _ _ => rfl⟩
    rw [if_neg hdone]
    by_cases hstuck : collectRunnable sc n.world smashMaxThreads = []
    · rw [if_pos hstuck]
      exact ⟨⟨_, worksOff_leaf hstuck rfl (by rw [nodeKind, if_neg hdone, if_pos hstuck]; rfl)⟩,
        fun _ _ => rfl⟩
    rw [if_neg hstuck]
    have hhit : l.cacheHit sc cfg n.world = false := by simp [Ledger.cacheHit, hcache]
    have hmark : l.cacheMark sc cfg n.world = l := by simp [Ledger.cacheMark, hcache]
    rw [hhit, if_neg Bool.false_ne_true, hmark]
    have hdepth : depth < smashMaxDepth := by omega
    obtain ⟨⟨seen, hw⟩, hown, habove⟩ := walkLoop_worksOff hdpor hstop hle hshort hn
      (fun m l hm => (ih (depth + 1) m l hm).imp_right fun h j hj => h j (by omega))
      ((l.countState n).tried sc cfg depth n.world) (collectRunnable sc n.world smashMaxThreads)
      (fun t ht => (mem_collectRunnable hv).mp ht) (l.countState n)
    have htried : (l.countState n).tried sc cfg depth n.world
        = (computePersistentSet sc n.world (collectRunnable sc n.world smashMaxThreads)).filter
          (· ∉ l.dpor.sleepSet depth) := tried_dpor hdpor (l.countState n) n.world hdepth
    have hset : (l.countState n).dpor = l.dpor := rfl
    rw [htried, hset] at hw hown habove
    dsimp only
    rw [htried]
    refine ⟨⟨.node n.schedule n.world :: seen, .item hown hw.settled, ?_⟩, habove⟩
    rw [hw.visits]
    show (l.visits ++ _) ++ _ = _
    rw [List.append_assoc, List.filterMap_cons, Item.visit, nodeKind, if_neg hdone, if_neg hstuck]
    rfl

end worksOff

/-! ## The reduced search -/

/-- The switch for DPOR. -/
def Config.dpor (cfg : Config) (on : Bool) : Config := { cfg with enableDpor := on }

/-- **What the reduced search visits is what the reduction keeps**, told depth by depth. -/
theorem exploreLedger_visits_dpor (hv : sc.Valid) (hp : (cfg.dpor false).Plain)
    (hshort : RunsShorter sc cfg.bound) (v : Visit) :
    v ∈ (exploreLedger sc (cfg.dpor true)).visits ↔ ∃ d, ∃ x ∈ kept sc d, x.visit sc = some v := by
  have hlim : (cfg.dpor true).clamp.maxInterleavings = none := by
    rcases hp.maxInterleavings with h | h <;>
      simp only [Config.dpor] at h <;> simp [Config.clamp, Config.dpor, h]
  have hdpor : (cfg.dpor true).clamp.enableDpor = true := rfl
  have hstop : (cfg.dpor true).clamp.stopOnFirstBug = false := hp.stopOnFirstBug
  obtain ⟨⟨seen, hw⟩, -⟩ := walk_worksOff hdpor hstop cfg.bound_le hshort hv hp.enableStateCaching
    hlim cfg.bound_eq smashMaxDepth 0 (rootNode sc) .init atRun_root
  have hvisits : (exploreLedger sc (cfg.dpor true)).visits = seen.filterMap (Item.visit sc) :=
    hw.visits
  rw [hvisits, List.mem_filterMap]
  constructor
  · rintro ⟨x, hx, hxv⟩
    obtain ⟨d, hd⟩ := (hw.settled.mem_seen x).mp hx
    exact ⟨d, x, hd, hxv⟩
  · rintro ⟨d, x, hx, hxv⟩
    exact ⟨x, (hw.settled.mem_seen x).mpr ⟨d, hx⟩, hxv⟩

/-! ## A thread is tried once at each depth -/

/-- The thread whose step leads to an item. -/
def Item.last (x : Item) : Option Int := x.schedule.bind List.getLast?

/-- The loop puts the threads it tries to sleep. -/
theorem keepLoop_sleep (s : List Int) (w : World) (tried : Finset Int) (rest : List Int)
    (sleep : Finset Int) : (keepLoop sc s w tried rest sleep).1
      = sleep ∪ (rest.filter (· ∈ tried)).toFinset := by
  induction rest generalizing sleep with
  | nil => simp [keepLoop]
  | cons t rest ih =>
    rw [keepLoop]
    by_cases ht : t ∈ tried
    · rw [if_neg (not_not.mpr ht), List.filter_cons_of_pos (by simpa using ht), List.toFinset_cons]
      have hfst : ∀ xs ys : List Item, (if stepFails sc w t = true then
          ((keepLoop sc s w tried rest (insert t sleep)).1, xs)
        else ((keepLoop sc s w tried rest (insert t sleep)).1, ys)).1
          = (keepLoop sc s w tried rest (insert t sleep)).1 := fun xs ys => by split <;> rfl
      rw [hfst, ih, Finset.insert_union, Finset.union_insert]
    · rw [if_pos ht, List.filter_cons_of_neg (by simpa using ht), ih]

/-- What the loop sends down comes from the threads it tries, one after the other. -/
theorem keepLoop_last (s : List Int) (w : World) (tried : Finset Int) (rest : List Int)
    (sleep : Finset Int) : (keepLoop sc s w tried rest sleep).2.filterMap Item.last
      = rest.filter (· ∈ tried) := by
  induction rest generalizing sleep with
  | nil => simp [keepLoop]
  | cons t rest ih =>
    rw [keepLoop]
    by_cases ht : t ∈ tried
    · rw [if_neg (not_not.mpr ht), List.filter_cons_of_pos (by simpa using ht), ← ih (insert t sleep)]
      by_cases hfail : stepFails sc w t = true
      · rw [if_pos hfail]
        simp [Item.last, Item.schedule]
      · rw [if_neg hfail]
        simp [Item.last, Item.schedule, List.filterMap_cons]
    · rw [if_pos ht, List.filter_cons_of_neg (by simpa using ht), ih]

/-- One item: the threads it tries were awake, are distinct, and are asleep afterwards. -/
theorem reduction_last (sc : Scenario) (sleep : Finset Int) (x : Item) :
    (((reduction sc).react sleep x).2.filterMap Item.last).Nodup ∧
      (∀ t ∈ ((reduction sc).react sleep x).2.filterMap Item.last, t ∉ sleep) ∧
      sleep ∪ (((reduction sc).react sleep x).2.filterMap Item.last).toFinset
        ⊆ ((reduction sc).react sleep x).1 := by
  cases x with
  | broken s w => simp [reduction]
  | pass threads => simp [reduction]
  | node s w =>
    simp only [reduction, keepLoop_last, keepLoop_sleep]
    refine ⟨(nodup_collectRunnable w _).filter _, fun t ht => ?_, subset_rfl⟩
    have := (List.mem_filter.mp ht).2
    simp only [decide_eq_true_eq, Finset.mem_filter] at this
    exact this.2

theorem drops_last (sleep : Finset Int) (xs : List Item) :
    (((reduction sc).drops sleep xs).filterMap Item.last).Nodup ∧
      ∀ t ∈ ((reduction sc).drops sleep xs).filterMap Item.last, t ∉ sleep := by
  induction xs generalizing sleep with
  | nil => simp [Cascade.drops]
  | cons x xs ih =>
    obtain ⟨hnodup, hawake, hasleep⟩ := reduction_last sc sleep x
    obtain ⟨hnodup', hawake'⟩ := ih ((reduction sc).react sleep x).1
    rw [Cascade.drops, List.filterMap_append]
    refine ⟨hnodup.append hnodup' fun t ht ht' => ?_, fun t ht => ?_⟩
    · exact hawake' t ht' (hasleep (Finset.mem_union_right _ (List.mem_toFinset.mpr ht)))
    · cases List.mem_append.mp ht with
      | inl ht =>
        exact hawake t ht
      | inr ht =>
        exact fun hs => hawake' t ht (hasleep (Finset.mem_union_left _ hs))

/-- **In a whole search a thread is tried at most once at each depth**, from whatever states its turn
comes up in. -/
theorem kept_tried_once (sc : Scenario) (d : Nat) :
    ((kept sc (d + 1)).filterMap Item.last).Nodup := (drops_last ∅ _).1

/-! ## The bugs that the reduction keeps -/

/-- A schedule that ends in a failing step is no clean run. -/
theorem ViolationSchedule.not_clean {s : List Int} {w : World} (h : ViolationSchedule sc s) :
    ¬ CleanRun sc s w := by
  obtain ⟨s', t, w', rfl, hrun, -, hfails⟩ := h
  intro hclean
  obtain ⟨w'', hrun', -, hok, -⟩ := TransitionSystem.Run.snoc_inv hclean
  rw [CleanRun.unique hrun' hrun, hfails] at hok
  exact absurd hok (by simp)

section visited

variable (hv : sc.Valid) (hp : (cfg.dpor false).Plain) (hshort : RunsShorter sc cfg.bound)
include hv hp hshort

/-- The visit of a kept schedule, and what is known of it. -/
theorem visit_of_kept {s : List Int} (h : KeptSchedule sc s) :
    ∃ v ∈ (exploreLedger sc (cfg.dpor true)).visits, v.schedule = s ∧
      (v.kind = .violation ∨ v.kind = nodeKind sc v.world ∧ CleanRun sc s v.world) := by
  obtain ⟨d, x, hx, hs⟩ := h
  have hmem := fun v hxv => (exploreLedger_visits_dpor hv hp hshort v).mpr ⟨d, x, hx, hxv⟩
  cases x with
  | pass threads => exact absurd hs (by simp [Item.schedule])
  | broken s' w =>
    cases hs
    exact ⟨_, hmem _ rfl, rfl, Or.inl rfl⟩
  | node s' w =>
    cases hs
    refine ⟨_, hmem _ rfl, rfl, Or.inr ⟨rfl, ?_⟩⟩
    have hok := exploreLedger_visitOk hv (cfg.dpor true) _ (hmem _ rfl)
    unfold VisitOk nodeKind at hok
    by_cases hdone : allDone sc w = true
    · simp only [if_pos hdone] at hok
      exact hok.1
    by_cases hstuck : collectRunnable sc w smashMaxThreads = []
    · simp only [if_neg hdone, if_pos hstuck] at hok
      exact hok.1
    · simp only [if_neg hdone, if_neg hstuck] at hok
      exact hok.1

theorem kept_of_visit {v : Visit} (hmem : v ∈ (exploreLedger sc (cfg.dpor true)).visits) :
    KeptSchedule sc v.schedule := by
  obtain ⟨d, x, hx, hxv⟩ := (exploreLedger_visits_dpor hv hp hshort v).mp hmem
  refine ⟨d, x, hx, ?_⟩
  cases x with
  | pass threads => exact absurd hxv (by simp [Item.visit])
  | broken s w => cases hxv; rfl
  | node s w => cases hxv; rfl

theorem dpor_deadlock_iff : (∃ v ∈ (exploreLedger sc (cfg.dpor true)).visits, v.kind = .deadlock) ↔
    ∃ s, KeptSchedule sc s ∧ DeadlockSchedule sc s := by
  constructor
  · rintro ⟨v, hmem, hk⟩
    exact ⟨_, kept_of_visit hv hp hshort hmem, deadlockSchedule_of_visit hv hmem hk⟩
  · rintro ⟨s, hkept, w, hrun, hstuck, hdone⟩
    obtain ⟨v, hmem, rfl, hk | ⟨hk, hrun'⟩⟩ := visit_of_kept hv hp hshort hkept
    · exact absurd hrun (violationSchedule_of_visit hv hmem hk).not_clean
    · rw [hrun'.unique hrun, nodeKind, if_neg (by simp [hdone]),
        if_pos ((collectRunnable_eq_nil hv).mpr hstuck)] at hk
      exact ⟨v, hmem, hk⟩

theorem dpor_violation_iff : (∃ v ∈ (exploreLedger sc (cfg.dpor true)).visits, v.kind = .violation) ↔
    ∃ s, KeptSchedule sc s ∧ ViolationSchedule sc s := by
  constructor
  · rintro ⟨v, hmem, hk⟩
    exact ⟨_, kept_of_visit hv hp hshort hmem, violationSchedule_of_visit hv hmem hk⟩
  · rintro ⟨s, hkept, hviol⟩
    obtain ⟨v, hmem, rfl, hk | ⟨-, hrun'⟩⟩ := visit_of_kept hv hp hshort hkept
    · exact ⟨v, hmem, hk⟩
    · exact absurd hrun' hviol.not_clean

end visited

end Smash
