import Smash.Proof.Exhaustive

/-!
# What the options leave out of an exploration

Persistent sets, sleep sets, the visited table, the stop at the first bug and the limit on interleavings
all make the search pass over part of the tree. None of them makes it see anything new: what a search
visits is what plain search with the same `max_depth` visits, with some of it left out and the order kept
(`exploreLedger_thins`). A node that the visited table knows is one that plain search expands.

Plain search lists the tree in dictionary order of the schedules, so every search meets its nodes in that
order (`explore_in_order`), whatever it leaves out.
-/

set_option autoImplicit false

namespace Smash

variable {sc : Scenario} {cfg : Config}

/-! ## Leaving out -/

/-- What plain search makes of a node of this kind. -/
def VisitKind.plain : VisitKind → VisitKind
  | .cached => .expanded
  | k => k

def Visit.plain (v : Visit) : Visit := { v with kind := v.kind.plain }

/-- The configuration with every option off that leaves something out, and the same depth. -/
def Config.plain (cfg : Config) : Config :=
  { cfg with
    enableDpor := false
    enableStateCaching := false
    maxInterleavings := none
    stopOnFirstBug := false }

theorem Config.plain_plain (cfg : Config) : cfg.plain.Plain := ⟨rfl, rfl, Or.inl rfl, rfl⟩

/-- What `l'` has visited since `l` is on the list `vs`, in its order. -/
def Thins (l l' : Ledger) (vs : List Visit) : Prop :=
  ∃ seen, l'.visits = l.visits ++ seen ∧ List.Sublist (seen.map Visit.plain) vs

theorem Thins.nil {l l' : Ledger} {vs : List Visit} (h : l'.visits = l.visits) : Thins l l' vs :=
  ⟨[], by simp [h], List.nil_sublist _⟩

theorem Thins.one {l l' : Ledger} {v : Visit} (h : l'.visits = l.visits ++ [v]) :
    Thins l l' [v.plain] :=
  ⟨[v], h, List.Sublist.refl _⟩

theorem Thins.mono {l l' : Ledger} {vs vs' : List Visit} (h : Thins l l' vs)
    (hsub : List.Sublist vs vs') : Thins l l' vs' := by
  obtain ⟨seen, heq, hseen⟩ := h
  exact ⟨seen, heq, hseen.trans hsub⟩

theorem Thins.append {l l' l'' : Ledger} {vs vs' : List Visit} (h : Thins l l' vs)
    (h' : Thins l' l'' vs') : Thins l l'' (vs ++ vs') := by
  obtain ⟨seen, heq, hseen⟩ := h
  obtain ⟨seen', heq', hseen'⟩ := h'
  refine ⟨seen ++ seen', by rw [heq', heq, List.append_assoc], ?_⟩
  rw [List.map_append]
  exact hseen.append hseen'

/-- Only the visits matter, not what else the ledger holds. -/
theorem Thins.congr {l₀ l l' l₀' : Ledger} {vs : List Visit} (h : Thins l l' vs)
    (hl : l.visits = l₀.visits) (hl' : l₀'.visits = l'.visits) : Thins l₀ l₀' vs := by
  obtain ⟨seen, heq, hseen⟩ := h
  exact ⟨seen, by rw [hl', heq, hl], hseen⟩

/-- What the loop of a node visits, child by child. -/
theorem walkLoop_thins {recurse : Saved → Ledger → Ledger} {depth : Nat} {n : Saved}
    {tried : Finset Int} (f : Int → List Visit) (rest : List Int)
    (hrec : ∀ t ∈ rest, stepFails sc n.world t = false → ∀ l, Thins l (recurse (n.step sc t) l) (f t))
    (hfail : ∀ t ∈ rest, stepFails sc n.world t = true →
      f t = [⟨.violation, (n.step sc t).schedule, (n.step sc t).world⟩]) (l : Ledger) :
    Thins l (walkLoop sc cfg recurse depth n tried rest l) (rest.flatMap f) := by
  induction rest generalizing l with
  | nil => exact .nil rfl
  | cons t rest ih =>
    have ih := ih (fun u hu => hrec u (List.mem_cons_of_mem _ hu))
      (fun u hu => hfail u (List.mem_cons_of_mem _ hu))
    rw [walkLoop, List.flatMap_cons]
    split
    · exact ((ih _).congr (visits_countPruned _ _ _) rfl).mono (List.sublist_append_right _ _)
    by_cases hf : stepFails sc n.world t = true
    · have hone : Thins l ((l.sleep cfg depth t).reportViolation (n.step sc t)) (f t) := by
        rw [hfail t List.mem_cons_self hf]
        exact .one (v := ⟨.violation, (n.step sc t).schedule, (n.step sc t).world⟩)
          (congrArg (· ++ _) (visits_sleep _ _ _))
      simp only [if_pos hf]
      split
      · exact hone.mono (List.sublist_append_left _ _)
      · exact hone.append (ih _)
    · have hback : Thins l ((recurse (n.step sc t) (l.sleep cfg depth t)).propagate cfg depth
          (collectRunnable sc n.world smashMaxThreads)) (f t) :=
        (hrec t List.mem_cons_self (by simpa using hf) _).congr (visits_sleep _ _ _)
          (visits_propagate _ _ _)
      simp only [if_neg hf]
      split
      · exact hback.mono (List.sublist_append_left _ _)
      · exact hback.append (ih _)

/-- The walk below a node visits some of the tree below it. -/
theorem walk_thins (hv : sc.Valid) {bound : Nat} (hbound : cfg.maxDepth = bound)
    (hle : bound ≤ smashMaxDepth) (room depth : Nat) (n : Saved) (l : Ledger)
    (hn : AtRun sc room depth n) (hd : depth ≤ bound) :
    Thins l (walk sc cfg room depth n l)
      (((searchTree hv).unfold (bound - depth) n.world).map (treeVisit sc bound n.schedule)) := by
  induction room generalizing depth n l with
  | zero =>
    have hdepth : depth = smashMaxDepth := by have := hn.room; omega
    have hb : bound = smashMaxDepth := by omega
    rw [walk, show bound - depth = 0 by omega]
    split
    · exact .nil rfl
    · simp only [Branching.unfold, List.map_cons, List.map_nil, treeVisit, if_pos hb, List.append_nil]
      exact .one (v := ⟨.hardGuard, n.schedule, n.world⟩) rfl
  | succ room ih =>
    have hroom := hn.room
    rw [walk, hbound]
    split
    · exact .nil rfl
    by_cases hcut : (bound : Int) ≤ depth
    · have hb : bound ≠ smashMaxDepth := by omega
      rw [if_pos hcut, show bound - depth = 0 by omega]
      simp only [Branching.unfold, List.map_cons, List.map_nil, treeVisit, if_neg hb, List.append_nil]
      exact .one (v := ⟨.depthLimit, n.schedule, n.world⟩) rfl
    rw [if_neg hcut]
    obtain ⟨m, hm⟩ : ∃ m, bound - depth = m + 1 := ⟨bound - depth - 1, by omega⟩
    rw [hm, Branching.unfold]
    unfold walkNode
    by_cases hdone : allDone sc n.world = true
    · have hnil : (searchTree hv).choices n.world = [] :=
        (collectRunnable_eq_nil hv).mpr (stuck_of_allDone hdone)
      rw [if_pos hdone, hnil]
      simp only [List.isEmpty_nil, if_true, List.map_cons, List.map_nil, treeVisit, hdone,
        List.append_nil]
      exact .one (v := ⟨.interleaving, n.schedule, n.world⟩) rfl
    rw [if_neg hdone]
    by_cases hstuck : collectRunnable sc n.world smashMaxThreads = []
    · have hnil : (searchTree hv).choices n.world = [] := hstuck
      rw [if_pos hstuck, hnil]
      simp only [List.isEmpty_nil, if_true, List.map_cons, List.map_nil, treeVisit, if_neg hdone,
        List.append_nil]
      exact .one (v := ⟨.deadlock, n.schedule, n.world⟩) rfl
    have hcons : ((searchTree hv).choices n.world).isEmpty = false := by
      rw [List.isEmpty_eq_false_iff]
      exact hstuck
    rw [if_neg hstuck, hcons, if_neg Bool.false_ne_true, List.map_cons, List.map_flatMap]
    simp only [treeVisit, List.append_nil]
    by_cases hcached : l.cacheHit sc cfg n.world = true
    · -- A cached node stands for the expanded one; nothing below it is visited.
      rw [if_pos hcached]
      refine Thins.mono (.one (v := ⟨.cached, n.schedule, n.world⟩) rfl) ?_
      exact (List.nil_sublist _).cons_cons _
    rw [if_neg hcached]
    have hone : Thins l ((l.cacheMark sc cfg n.world).countState n)
        [⟨.expanded, n.schedule, n.world⟩] :=
      .one (v := ⟨.expanded, n.schedule, n.world⟩) (congrArg (· ++ _) (visits_cacheMark _ _))
    refine hone.append (walkLoop_thins (fun t => (((searchTree hv).next n.world t).elim
      [⟨.broken t, [t], n.world⟩] fun w' =>
        ((searchTree hv).unfold m w').map (Branching.Node.below t)).map
          (treeVisit sc bound n.schedule)) _ ?_ ?_ _)
    · intro t ht hok l'
      have hready := (mem_collectRunnable hv).mp ht
      have hnext : (searchTree hv).next n.world t = some (n.step sc t).world := by
        simp only [searchTree, hok, Bool.false_eq_true, if_false]
        rfl
      have hbelow := ih (depth + 1) _ l' (hn.child hready hok) (by omega)
      rw [show bound - (depth + 1) = m by omega, hn.schedule_step t] at hbelow
      simp only [hnext, Option.elim_some, List.map_map, Function.comp_def, treeVisit_below]
      exact hbelow
    · intro t ht hf
      have hnext : (searchTree hv).next n.world t = none := by
        simp only [searchTree, hf, if_true]
      simp only [hnext, Option.elim_none, List.map_cons, List.map_nil, hn.schedule_step t]
      rfl

theorem Config.plain_bound (cfg : Config) : cfg.plain.bound = cfg.bound := rfl

/-- **The options only leave out**: what a search visits is, in its order, what plain search visits. -/
theorem exploreLedger_thins (hv : sc.Valid) (cfg : Config) :
    List.Sublist ((exploreLedger sc cfg).visits.map Visit.plain) (exploreLedger sc cfg.plain).visits := by
  obtain ⟨seen, heq, hseen⟩ := walk_thins hv cfg.bound_eq cfg.bound_le smashMaxDepth 0 (rootNode sc)
    .init atRun_root (Nat.zero_le _)
  rw [exploreLedger_visits_plain hv cfg.plain_plain, exploreLedger, heq]
  exact hseen

/-- How often a list of visits has a kind. -/
theorem countP_plain_le {vs vs' : List Visit} (h : List.Sublist (vs.map Visit.plain) vs')
    (p : VisitKind → Bool) : (vs.countP fun v => p v.kind.plain) ≤ vs'.countP fun v => p v.kind := by
  have hle : (vs.map Visit.plain).countP (fun v => p v.kind) ≤ vs'.countP fun v => p v.kind := h.countP_le
  rwa [List.countP_map] at hle

/-- Plain search expands what this one expands or finds cached. -/
theorem countP_expanded_add_cached (vs : List Visit) :
    (vs.countP fun v => v.kind = .expanded) + (vs.countP fun v => v.kind = .cached)
      = vs.countP fun v => v.kind.plain = .expanded := by
  induction vs with
  | nil => rfl
  | cons v vs ih =>
    simp only [List.countP_cons, ← ih]
    cases v.kind <;> simp [VisitKind.plain] <;> omega

/-- **No option makes a counter grow**, but that a state may be counted as cached. -/
theorem options_only_leave_out (hv : sc.Valid) (cfg : Config) (stack stack' : Nat → Saved) :
    List.Sublist ((exploreSearch sc cfg stack).visits.map Visit.plain)
        (exploreSearch sc cfg.plain stack').visits ∧
      (explore sc cfg stack).interleavings ≤ (explore sc cfg.plain stack').interleavings ∧
      (explore sc cfg stack).deadlocks ≤ (explore sc cfg.plain stack').deadlocks ∧
      (explore sc cfg stack).violations ≤ (explore sc cfg.plain stack').violations ∧
      (explore sc cfg stack).states + (explore sc cfg stack).cachePruned
        ≤ (explore sc cfg.plain stack').states := by
  have hthin := exploreLedger_thins hv cfg
  have hb := exploreLedger_booked hv cfg
  have hp := exploreLedger_booked hv cfg.plain
  rw [exploreSearch_visits hv, exploreSearch_visits hv, explore_eq hv, explore_eq hv]
  have hsame : ∀ k : VisitKind, k ≠ .expanded → k ≠ .cached →
      (exploreLedger sc cfg).seen k ≤ (exploreLedger sc cfg.plain).seen k := by
    intro k hexp hcac
    refine le_trans (List.countP_mono_left fun v _ hk => ?_)
      (countP_plain_le hthin fun k' => decide (k' = k))
    have hk : v.kind = k := by simpa using hk
    cases k with
    | cached => exact absurd rfl hcac
    | interleaving => simp [hk, VisitKind.plain]
    | deadlock => simp [hk, VisitKind.plain]
    | violation => simp [hk, VisitKind.plain]
    | hardGuard => simp [hk, VisitKind.plain]
    | depthLimit => simp [hk, VisitKind.plain]
    | expanded => exact absurd rfl hexp
  refine ⟨hthin, ?_, ?_, ?_, ?_⟩
  · show (exploreLedger sc cfg).result.interleavings ≤ (exploreLedger sc cfg.plain).result.interleavings
    rw [hb.interleavings, hp.interleavings]
    exact hsame _ (by simp) (by simp)
  · show (exploreLedger sc cfg).result.deadlocks ≤ (exploreLedger sc cfg.plain).result.deadlocks
    rw [hb.deadlocks, hp.deadlocks]
    exact hsame _ (by simp) (by simp)
  · show (exploreLedger sc cfg).result.violations ≤ (exploreLedger sc cfg.plain).result.violations
    rw [hb.violations, hp.violations]
    exact hsame _ (by simp) (by simp)
  · show (exploreLedger sc cfg).result.states + (exploreLedger sc cfg).result.cachePruned
      ≤ (exploreLedger sc cfg.plain).result.states
    rw [hb.states, hb.cachePruned, hp.states, Ledger.seen, Ledger.seen]
    exact (countP_expanded_add_cached _).le.trans
      (countP_plain_le hthin fun k => decide (k = .expanded))

/-- Two threads that take two mutexes in opposite orders, with every option as by default. -/
theorem options_only_leave_out_abba :
    (explore abbaDeadlock .default fun _ => rootNode abbaDeadlock).deadlocks
      ≤ (explore abbaDeadlock Config.default.plain fun _ => rootNode abbaDeadlock).deadlocks :=
  (options_only_leave_out (by decide) .default _ _).2.2.1

/-! ## In dictionary order -/

theorem treeVisit_schedule (bound : Nat) (v : Branching.Node World Int) :
    (treeVisit sc bound [] v).schedule = v.path := by
  obtain ⟨fate, path, state⟩ := v
  cases fate <;> rfl

theorem plain_in_order (hv : sc.Valid) {cfg : Config} (hp : cfg.Plain) :
    (exploreLedger sc cfg).visits.Pairwise fun u v => u.schedule < v.schedule := by
  have hchoices : ∀ w, ((searchTree hv).choices w).Pairwise (· < ·) :=
    fun w => sorted_collectRunnable w smashMaxThreads
  have hsorted := (searchTree hv).sorted_unfold hchoices cfg.bound (startWorld sc)
  rw [exploreLedger_visits_plain hv hp, List.pairwise_map]
  simp only [treeVisit_schedule]
  exact List.pairwise_map.mp hsorted

theorem exploreLedger_in_order (hv : sc.Valid) (cfg : Config) :
    (exploreLedger sc cfg).visits.Pairwise fun u v => u.schedule < v.schedule := by
  have h := (plain_in_order hv cfg.plain_plain).sublist (exploreLedger_thins hv cfg)
  rw [List.pairwise_map] at h
  exact h

/-- The trace that is kept is that of the first bug that is found. -/
theorem exploreLedger_kept (hv : sc.Valid) (cfg : Config) {tr : Trace}
    (htr : (exploreLedger sc cfg).result.failingTrace = some tr) :
    ∃ u, (exploreLedger sc cfg).visits.find? Visit.isBug = some u ∧ u.schedule = tr.schedule.toList := by
  have hb := (exploreLedger_booked hv cfg).failingTrace
  rw [htr, Option.map_some] at hb
  exact Option.map_eq_some_iff.mp hb.symm

/-- The bug that is kept is the least of those that are found. -/
theorem exploreLedger_least (hv : sc.Valid) (cfg : Config) {tr : Trace}
    (htr : (exploreLedger sc cfg).result.failingTrace = some tr) {v : Visit}
    (hmem : v ∈ (exploreLedger sc cfg).visits) (hbug : v.isBug = true) :
    v.schedule = tr.schedule.toList ∨ tr.schedule.toList < v.schedule := by
  have hsorted := exploreLedger_in_order hv cfg
  obtain ⟨u, hu, hsched⟩ := exploreLedger_kept hv cfg htr
  obtain ⟨-, before, after, hsplit, hbefore⟩ := List.find?_eq_some_iff_append.mp hu
  rw [hsplit] at hmem hsorted
  rcases List.mem_append.mp hmem with hin | hin
  · exact absurd hbug (by simpa using hbefore v hin)
  rcases List.mem_cons.mp hin with rfl | hin
  · exact Or.inl hsched
  · rw [List.pairwise_append, List.pairwise_cons] at hsorted
    exact Or.inr (hsched ▸ hsorted.2.1.1 v hin)

/-- **Every search goes in dictionary order**: it meets no schedule twice, and the trace it keeps is that
of the least schedule it has found a bug at. It keeps one if it has found a bug, and then that of a bug it has
found, with no smaller one among them. -/
theorem explore_in_order (hv : sc.Valid) (cfg : Config) (stack : Nat → Saved) :
    ((exploreSearch sc cfg stack).visits.Pairwise fun u v => u.schedule < v.schedule) ∧
      (∀ tr, (explore sc cfg stack).failingTrace = some tr →
        ∃ v ∈ (exploreSearch sc cfg stack).visits, v.isBug = true ∧ v.schedule = tr.schedule.toList) ∧
      ∀ v ∈ (exploreSearch sc cfg stack).visits, v.isBug = true →
        ∃ tr, (explore sc cfg stack).failingTrace = some tr ∧
          (v.schedule = tr.schedule.toList ∨ tr.schedule.toList < v.schedule) := by
  rw [exploreSearch_visits hv, explore_eq hv]
  refine ⟨exploreLedger_in_order hv cfg, fun tr htr => ?_, fun v hmem hbug => ?_⟩
  · obtain ⟨v, hfind, hsched⟩ := exploreLedger_kept hv cfg htr
    exact ⟨v, List.mem_of_find?_eq_some hfind, List.find?_some hfind, hsched⟩
  -- A bug was found, so one was kept.
  have hsome : ((exploreLedger sc cfg).visits.find? Visit.isBug).isSome = true :=
    List.find?_isSome.mpr ⟨v, hmem, hbug⟩
  rw [← Option.isSome_map (f := Visit.schedule), ← (exploreLedger_booked hv cfg).failingTrace, Option.isSome_map] at hsome
  obtain ⟨tr, htr⟩ := Option.isSome_iff_exists.mp hsome
  exact ⟨tr, htr, exploreLedger_least hv cfg htr hmem hbug⟩

/-- Two threads that take two mutexes in opposite orders: with DPOR and caching off a deadlock is found, and the
schedule that is kept is that of a bug visited, before all the others. -/
theorem explore_in_order_abba : ∃ tr,
    (explore abbaDeadlock ⟨false, false, 16, none, false⟩ fun _ => rootNode abbaDeadlock).failingTrace = some tr ∧
      (∃ v ∈ (exploreSearch abbaDeadlock ⟨false, false, 16, none, false⟩
          fun _ => rootNode abbaDeadlock).visits, v.isBug = true ∧ v.schedule = tr.schedule.toList) ∧
      (exploreSearch abbaDeadlock ⟨false, false, 16, none, false⟩ fun _ => rootNode abbaDeadlock).visits.Pairwise
        fun u v => u.schedule < v.schedule := by
  have hv : abbaDeadlock.Valid := by decide
  have hsome : ((explore abbaDeadlock ⟨false, false, 16, none, false⟩
      fun _ => rootNode abbaDeadlock).failingTrace).isSome = true := by
    rw [explore_eq hv]
    decide +kernel
  obtain ⟨tr, htr⟩ := Option.isSome_iff_exists.mp hsome
  have horder := explore_in_order hv ⟨false, false, 16, none, false⟩ fun _ => rootNode abbaDeadlock
  exact ⟨tr, htr, horder.2.1 tr htr, horder.1⟩

end Smash
