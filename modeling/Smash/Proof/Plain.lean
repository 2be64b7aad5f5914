import Smash.Lib.Unfold
import Smash.Proof.Visits

/-!
# Plain search

With DPOR, caching, the stop at the first bug and the limit on interleavings all off, the walk is
the depth-first listing of the clean runs, cut at `max_depth` (`exploreLedger_visits_plain`). The
two results about plain search are read off that listing: it is exhaustive when no run is as long
as the bound, and at the largest bound the cut leaves no mark.
-/

set_option autoImplicit false

namespace Smash

variable {sc : Scenario} {cfg : Config}

/-- Neither pruning nor an early stop. -/
structure Config.Plain (cfg : Config) : Prop where
  enableDpor : cfg.enableDpor = false
  enableStateCaching : cfg.enableStateCaching = false
  maxInterleavings : cfg.maxInterleavings = none ∨ cfg.maxInterleavings = some 0
  stopOnFirstBug : cfg.stopOnFirstBug = false

/-- The bound the search works with. -/
def Config.bound (cfg : Config) : Nat := cfg.clamp.maxDepth.toNat

theorem Config.bound_eq (cfg : Config) : cfg.clamp.maxDepth = cfg.bound :=
  (Int.toNat_of_nonneg (le_of_lt cfg.clamp_maxDepth_pos)).symm

theorem Config.bound_le (cfg : Config) : cfg.bound ≤ smashMaxDepth := by
  have := cfg.clamp_maxDepth_le
  have := cfg.bound_eq
  omega

/-! ## The clean runs as a search tree -/

/-- The choices of the explorer at a state, and what they lead to. -/
def searchTree (hv : sc.Valid) : Branching (cleanSystem sc) where
  choices w := collectRunnable sc w smashMaxThreads
  next w t := if stepFails sc w t then none else some (w.executeStep sc t).world
  nodup w := nodup_collectRunnable w _
  step_iff w t w' := by
    rw [mem_collectRunnable hv]
    show (sc.Ready w t ∧ stepFails sc w t = false ∧ w' = _) ↔ _
    refine and_congr_right fun _ => ?_
    by_cases hf : stepFails sc w t = true
    · simp [hf]
    · simp only [hf, Bool.false_eq_true, if_false, Option.some.injEq, eq_comm]
      exact ⟨fun h => h.2, fun h => ⟨by simp, h⟩⟩

/-- What the search records at a node of the tree, under a bound. -/
def treeVisit (sc : Scenario) (bound : Nat) (base : List Int) (v : Branching.Node World Int) : Visit :=
  match v.fate with
  | .ended => ⟨if allDone sc v.state then .interleaving else .deadlock, base ++ v.path, v.state⟩
  | .goesOn => ⟨.expanded, base ++ v.path, v.state⟩
  | .cut => ⟨if bound = smashMaxDepth then .hardGuard else .depthLimit, base ++ v.path, v.state⟩
  | .broken t => ⟨.violation, base ++ v.path, (v.state.executeStep sc t).world⟩

theorem treeVisit_below (bound : Nat) (base : List Int) (t : Int) (v : Branching.Node World Int) :
    treeVisit sc bound base (v.below t) = treeVisit sc bound (base ++ [t]) v := by
  obtain ⟨fate, path, state⟩ := v
  cases fate <;> (simp [treeVisit, Branching.Node.below]; try rfl)

/-- What the loop of a node records, child by child. -/
theorem walkLoop_visits_plain (hp : cfg.Plain) {recurse : Saved → Ledger → Ledger} {depth : Nat}
    {n : Saved} {tried : Finset Int} (f : Int → List Visit) (rest : List Int)
    (htried : ∀ t ∈ rest, t ∈ tried)
    (hrec : ∀ t ∈ rest, stepFails sc n.world t = false → ∀ l,
      (recurse (n.step sc t) l).visits = l.visits ++ f t)
    (hfail : ∀ t ∈ rest, stepFails sc n.world t = true →
      f t = [⟨.violation, (n.step sc t).schedule, (n.step sc t).world⟩]) (l : Ledger) :
    (walkLoop sc cfg recurse depth n tried rest l).visits = l.visits ++ rest.flatMap f := by
  induction rest generalizing l with
  | nil => simp [walkLoop]
  | cons t rest ih =>
    have hmem : t ∈ t :: rest := List.mem_cons_self
    have ih := ih (fun u hu => htried u (List.mem_cons_of_mem _ hu))
      (fun u hu => hrec u (List.mem_cons_of_mem _ hu))
      (fun u hu => hfail u (List.mem_cons_of_mem _ hu))
    rw [walkLoop, if_neg (not_not.mpr (htried t hmem)), List.flatMap_cons, ← List.append_assoc]
    by_cases hf : stepFails sc n.world t = true
    · simp only [if_pos hf, hp.stopOnFirstBug, Bool.false_eq_true, if_false]
      rw [ih, hfail t hmem hf]
      show ((l.sleep cfg depth t).visits ++ _) ++ _ = _
      rw [visits_sleep]
    · have hgo := hrec t hmem (by simpa using hf)
      simp only [if_neg hf, Ledger.stopped, hp.stopOnFirstBug, Bool.and_false, Bool.false_eq_true,
        if_false]
      rw [ih, visits_propagate, hgo, visits_sleep]

/-- The walk below a node records the tree below it. -/
theorem walk_visits_plain (hv : sc.Valid) (hp : cfg.Plain) (hlim : cfg.maxInterleavings = none)
    {bound : Nat} (hbound : cfg.maxDepth = bound) (hle : bound ≤ smashMaxDepth) (room depth : Nat)
    (n : Saved) (l : Ledger) (hn : AtRun sc room depth n) (hd : depth ≤ bound) :
    (walk sc cfg room depth n l).visits = l.visits ++
      ((searchTree hv).unfold (bound - depth) n.world).map (treeVisit sc bound n.schedule) := by
  have hgo : ∀ l : Ledger, (l.stopped cfg || l.enough cfg) = false := fun l => by
    simp [Ledger.stopped, Ledger.enough, hp.stopOnFirstBug, hlim]
  induction room generalizing depth n l with
  | zero =>
    have hdepth : depth = smashMaxDepth := by have := hn.room; omega
    have hb : bound = smashMaxDepth := by omega
    rw [walk, hgo, if_neg Bool.false_ne_true, show bound - depth = 0 by omega]
    simp [Branching.unfold, treeVisit, hb, Ledger.visit]
  | succ room ih =>
    have hroom := hn.room
    rw [walk, hgo, if_neg Bool.false_ne_true, hbound]
    by_cases hcut : (bound : Int) ≤ depth
    · rw [if_pos hcut, show bound - depth = 0 by omega]
      have hb : bound ≠ smashMaxDepth := by omega
      simp [Branching.unfold, treeVisit, hb, Ledger.reportDepth, Ledger.visit]
    rw [if_neg hcut]
    obtain ⟨m, hm⟩ : ∃ m, bound - depth = m + 1 := ⟨bound - depth - 1, by omega⟩
    rw [hm, Branching.unfold]
    unfold walkNode
    by_cases hdone : allDone sc n.world = true
    · have hnil : (searchTree hv).choices n.world = [] :=
        (collectRunnable_eq_nil hv).mpr (stuck_of_allDone hdone)
      rw [if_pos hdone, hnil]
      simp [treeVisit, hdone, Ledger.countInterleaving, Ledger.visit]
    rw [if_neg hdone]
    by_cases hstuck : collectRunnable sc n.world smashMaxThreads = []
    · have hnil : (searchTree hv).choices n.world = [] := hstuck
      rw [if_pos hstuck, hnil]
      simp [treeVisit, hdone, Ledger.reportDeadlock, Ledger.keepTrace, Ledger.visit]
    · have hcons : ((searchTree hv).choices n.world).isEmpty = false := by
        rw [List.isEmpty_eq_false_iff]
        exact hstuck
      have hcache : l.cacheHit sc cfg n.world = false := by
        simp [Ledger.cacheHit, hp.enableStateCaching]
      rw [if_neg hstuck, hcache, hcons, if_neg Bool.false_ne_true, if_neg Bool.false_ne_true]
      rw [walkLoop_visits_plain hp
        (fun t => (((searchTree hv).next n.world t).elim [⟨.broken t, [t], n.world⟩] fun w' =>
          ((searchTree hv).unfold m w').map (Branching.Node.below t)).map
            (treeVisit sc bound n.schedule))]
      · show ((l.cacheMark sc cfg n.world).visits ++ _) ++ _ = _
        rw [visits_cacheMark, List.map_cons, List.map_flatMap, List.append_assoc]
        simp only [treeVisit, List.append_nil, List.singleton_append]
        rfl
      · intro t ht
        simpa [Ledger.tried, hp.enableDpor] using ht
      · intro t ht hok l'
        have hready := (mem_collectRunnable hv).mp ht
        have hnext : (searchTree hv).next n.world t = some (n.step sc t).world := by
          simp only [searchTree, hok, Bool.false_eq_true, if_false]; rfl
        rw [hnext, ih (depth + 1) _ l' (hn.child hready hok) (by omega),
          show bound - (depth + 1) = m by omega, hn.schedule_step t]
        simp only [Option.elim_some, List.map_map, Function.comp_def, treeVisit_below]
      · intro t ht hf
        have hnext : (searchTree hv).next n.world t = none := by
          simp only [searchTree, hf, if_true]
        rw [hnext, Option.elim_none, List.map_singleton, hn.schedule_step t]
        rfl

/-- **Plain search lists the clean runs**, in depth-first order, down to its bound. -/
theorem exploreLedger_visits_plain (hv : sc.Valid) (hp : cfg.Plain) :
    (exploreLedger sc cfg).visits =
      ((searchTree hv).unfold cfg.bound (startWorld sc)).map (treeVisit sc cfg.bound []) := by
  have hclamp : cfg.clamp.Plain := ⟨hp.enableDpor, hp.enableStateCaching, by
    rcases hp.maxInterleavings with h | h <;> simp [Config.clamp, h], hp.stopOnFirstBug⟩
  have hlim : cfg.clamp.maxInterleavings = none := by
    rcases hp.maxInterleavings with h | h <;> simp [Config.clamp, h]
  exact walk_visits_plain hv hclamp hlim cfg.bound_eq cfg.bound_le _ _ _ _ atRun_root
    (Nat.zero_le _)

end Smash
