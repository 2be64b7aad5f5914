import Smash.Proof.Visits

/-!
# Where an exploration is cut short

Two settings end an exploration early, `stop_on_first_bug` and `max_interleavings`. Each is compared
with the exploration that has the setting off and is otherwise the same.

Both comparisons are simulations of one walk by another. Up to a point the two ledgers are equal; past it
the walk that goes on only adds to its ledger (`Extends`), and the other one is at the bug or at the
limit. `stop_cuts_at_first_bug` and `limit_cuts_interleavings` say what that leaves of the result.
-/

set_option autoImplicit false

namespace Smash

variable {sc : Scenario} {cfg : Config}

/-! ## A walk only adds to its ledger -/

/-- `l'` is what some more of the search makes of `l`. -/
structure Ledger.Extends (l l' : Ledger) : Prop where
  visits : l.visits <+: l'.visits
  interleavings : l.result.interleavings ≤ l'.result.interleavings
  states : l.result.states ≤ l'.result.states
  cachePruned : l.result.cachePruned ≤ l'.result.cachePruned
  dporPruned : l.result.dporPruned ≤ l'.result.dporPruned
  sleepPruned : l.result.sleepPruned ≤ l'.result.sleepPruned
  deadlocks : l.result.deadlocks ≤ l'.result.deadlocks
  violations : l.result.violations ≤ l'.result.violations
  failingTrace : ∀ tr, l.result.failingTrace = some tr → l'.result.failingTrace = some tr
  maxDepthReached : l.maxDepthReached ≤ l'.maxDepthReached

namespace Ledger.Extends

theorem refl (l : Ledger) : l.Extends l :=
  ⟨List.prefix_refl _, le_rfl, le_rfl, le_rfl, le_rfl, le_rfl, le_rfl, le_rfl, fun _ h => h, le_rfl⟩

theorem trans {l l' l'' : Ledger} (h : l.Extends l') (h' : l'.Extends l'') : l.Extends l'' where
  visits := h.visits.trans h'.visits
  interleavings := h.interleavings.trans h'.interleavings
  states := h.states.trans h'.states
  cachePruned := h.cachePruned.trans h'.cachePruned
  dporPruned := h.dporPruned.trans h'.dporPruned
  sleepPruned := h.sleepPruned.trans h'.sleepPruned
  deadlocks := h.deadlocks.trans h'.deadlocks
  violations := h.violations.trans h'.violations
  failingTrace tr ht := h'.failingTrace tr (h.failingTrace tr ht)
  maxDepthReached := h.maxDepthReached.trans h'.maxDepthReached

/-- The fields that `Extends` speaks of are the same, but for one more visit and what it counts. -/
theorem of_visit {l l' : Ledger} (v : Visit) (hvisits : l'.visits = l.visits ++ [v])
    (hi : l.result.interleavings ≤ l'.result.interleavings)
    (hs : l.result.states ≤ l'.result.states)
    (hc : l.result.cachePruned ≤ l'.result.cachePruned)
    (hp : l'.result.dporPruned = l.result.dporPruned)
    (hsp : l'.result.sleepPruned = l.result.sleepPruned)
    (hd : l.result.deadlocks ≤ l'.result.deadlocks)
    (hv : l.result.violations ≤ l'.result.violations)
    (ht : ∀ tr, l.result.failingTrace = some tr → l'.result.failingTrace = some tr)
    (hm : l.maxDepthReached ≤ l'.maxDepthReached) : l.Extends l' :=
  ⟨hvisits ▸ List.prefix_append _ _, hi, hs, hc, hp.ge, hsp.ge, hd, hv, ht, hm⟩

theorem countPruned (l : Ledger) (depth : Nat) (t : Int) : l.Extends (l.countPruned cfg depth t) := by
  have h := refl l
  unfold Ledger.countPruned
  split
  · exact { h with sleepPruned := Nat.le_succ _ }
  · exact { h with dporPruned := Nat.le_succ _ }

theorem sleep (l : Ledger) (depth : Nat) (t : Int) : l.Extends (l.sleep cfg depth t) := by
  have h := refl l
  unfold Ledger.sleep
  split
  · exact { h with }
  · exact h

theorem propagate (l : Ledger) (depth : Nat) (runnable : List Int) :
    l.Extends (l.propagate cfg depth runnable) := by
  have h := refl l
  unfold Ledger.propagate
  split
  · exact { h with }
  · exact h

/-- The sleep sets do not count. -/
theorem propagate_left {l l' : Ledger} {depth : Nat} {runnable : List Int} (h : l.Extends l') :
    (l.propagate cfg depth runnable).Extends l' := by
  unfold Ledger.propagate
  split
  · exact { h with }
  · exact h

theorem cacheMark (l : Ledger) (w : World) : l.Extends (l.cacheMark sc cfg w) := by
  have h := refl l
  unfold Ledger.cacheMark
  split
  · exact { h with }
  · exact h

theorem reportViolation (l : Ledger) (n : Saved) : l.Extends (l.reportViolation n) :=
  of_visit ⟨.violation, n.schedule, n.world⟩ rfl le_rfl le_rfl le_rfl rfl rfl le_rfl (Nat.le_succ _)
    (fun tr h => by
      show Option.or l.result.failingTrace _ = _
      rw [h, Option.some_or])
    le_rfl

theorem reportDeadlock (l : Ledger) (n : Saved) : l.Extends (l.reportDeadlock n) :=
  of_visit ⟨.deadlock, n.schedule, n.world⟩ rfl le_rfl le_rfl le_rfl rfl rfl (Nat.le_succ _) le_rfl
    (fun tr h => by
      show Option.or l.result.failingTrace _ = _
      rw [h, Option.some_or])
    le_rfl

theorem countInterleaving (l : Ledger) (n : Saved) : l.Extends (l.countInterleaving n) :=
  of_visit ⟨.interleaving, n.schedule, n.world⟩ rfl (Nat.le_succ _) le_rfl le_rfl rfl rfl le_rfl le_rfl
    (fun _ h => h) le_rfl

theorem countCached (l : Ledger) (n : Saved) : l.Extends (l.countCached n) :=
  of_visit ⟨.cached, n.schedule, n.world⟩ rfl le_rfl le_rfl (Nat.le_succ _) rfl rfl le_rfl le_rfl
    (fun _ h => h) le_rfl

theorem countState (l : Ledger) (n : Saved) : l.Extends (l.countState n) :=
  of_visit ⟨.expanded, n.schedule, n.world⟩ rfl le_rfl (Nat.le_succ _) le_rfl rfl rfl le_rfl le_rfl
    (fun _ h => h) le_rfl

theorem visit (l : Ledger) (n : Saved) (k : VisitKind) : l.Extends (l.visit n k) :=
  of_visit ⟨k, n.schedule, n.world⟩ rfl le_rfl le_rfl le_rfl rfl rfl le_rfl le_rfl (fun _ h => h) le_rfl

theorem reportDepth (l : Ledger) (n : Saved) (depth : Nat) : l.Extends (l.reportDepth n depth) :=
  of_visit ⟨.depthLimit, n.schedule, n.world⟩ rfl le_rfl le_rfl le_rfl rfl rfl le_rfl le_rfl
    (fun _ h => h) (by
      simp only [Ledger.reportDepth]
      split <;> omega)

end Ledger.Extends

/-- Nothing is asked of the nodes. -/
def Anywhere (_ _ : Nat) (_ : Saved) : Prop := True

/-- What the search keeps of any node, the loop over the children of one keeps. -/
theorem walkLoop_anywhere {I : Ledger → Prop} (h : WalkInv sc cfg Anywhere I) (hv : sc.Valid)
    (room depth : Nat) {n : Saved} (tried : Finset Int) (rest : List Int)
    (hrest : ∀ t ∈ rest, sc.Ready n.world t) (l : Ledger) (hl : I l) :
    I (walkLoop sc cfg (walk sc cfg room (depth + 1)) depth n tried rest l) :=
  @WalkInv.loop sc cfg Anywhere I h _ room depth n trivial
    (fun _ _ _ h' => h.walk hv _ _ _ _ trivial h') tried rest hrest l hl

theorem walkInv_extends (sc : Scenario) (cfg : Config) (l₀ : Ledger) :
    WalkInv sc cfg Anywhere l₀.Extends where
  child _ _ _ := trivial
  hardGuard _ h := h.trans (.visit _ _ _)
  depthLimit _ _ h := h.trans (.reportDepth _ _ _)
  interleaving _ _ h := h.trans (.countInterleaving _ _)
  deadlock _ _ _ h := h.trans (.reportDeadlock _ _)
  cached _ _ _ h := h.trans (.countCached _ _)
  expanded _ _ _ h := (h.trans (.cacheMark _ _)).trans (.countState _ _)
  violation _ _ _ h := h.trans (.reportViolation _ _)
  pruned h := h.trans (.countPruned _ _ _)
  sleep h := h.trans (.sleep _ _ _)
  propagate h := h.trans (.propagate _ _ _)

theorem walkLoop_extends (hv : sc.Valid) (room depth : Nat) (n : Saved) (tried : Finset Int)
    (rest : List Int) (hrest : ∀ t ∈ rest, sc.Ready n.world t) (l : Ledger) :
    l.Extends (walkLoop sc cfg (walk sc cfg room (depth + 1)) depth n tried rest l) :=
  walkLoop_anywhere (walkInv_extends sc cfg l) hv _ _ _ _ hrest _ (.refl l)

/-! ## Stopping at the first bug -/

/-- `stop_on_first_bug` switched on or off. -/
def Config.stopping (cfg : Config) (on : Bool) : Config := { cfg with stopOnFirstBug := on }

/-- No bug has been met. -/
structure Bugless (l : Ledger) : Prop where
  failingTrace : l.result.failingTrace = none
  visits : ∀ v ∈ l.visits, v.isBug = false
  deadlocks : l.result.deadlocks = 0
  violations : l.result.violations = 0

/-- The last visit is a bug, and the only one. -/
structure AtFirstBug (l : Ledger) : Prop where
  failingTrace : l.result.failingTrace.isSome = true
  visits : ∃ vs v, l.visits = vs ++ [v] ∧ v.isBug = true ∧ ∀ u ∈ vs, u.isBug = false
  bugs : l.result.deadlocks + l.result.violations = 1

/-- How far the walk that stops is behind the one that does not: not at all, or it has met a bug. -/
inductive Behind (stop full : Ledger) : Prop where
  | level (heq : stop = full) (hbugless : Bugless full)
  | stopped (hbug : AtFirstBug stop) (hext : stop.Extends full)

theorem Behind.onward {stop full full' : Ledger} (h : Behind stop full)
    (hstop : stop.result.failingTrace.isSome = true) (hext : full.Extends full') : Behind stop full' := by
  cases h with
  | level heq hbugless =>
    rw [heq, hbugless.failingTrace] at hstop
    exact absurd hstop (by simp)
  | stopped hbug hext' => exact .stopped hbug (hext'.trans hext)

theorem Bugless.visit {l l' : Ledger} (hl : Bugless l) (v : Visit) (hv : l'.visits = l.visits ++ [v])
    (hk : v.isBug = false) (ht : l'.result.failingTrace = l.result.failingTrace)
    (hd : l'.result.deadlocks = l.result.deadlocks)
    (hvi : l'.result.violations = l.result.violations) : Bugless l' where
  failingTrace := ht.trans hl.failingTrace
  visits := forall_visits_append hl.visits hv hk
  deadlocks := hd.trans hl.deadlocks
  violations := hvi.trans hl.violations

/-- What adds no visit and touches no bug counter leaves a ledger without bugs. -/
theorem Bugless.same {l l' : Ledger} (hl : Bugless l) (hv : l'.visits = l.visits)
    (ht : l'.result.failingTrace = l.result.failingTrace)
    (hd : l'.result.deadlocks = l.result.deadlocks)
    (hvi : l'.result.violations = l.result.violations) : Bugless l' where
  failingTrace := ht.trans hl.failingTrace
  visits := hv ▸ hl.visits
  deadlocks := hd.trans hl.deadlocks
  violations := hvi.trans hl.violations

theorem Bugless.countPruned {l : Ledger} (hl : Bugless l) (depth : Nat) (t : Int) :
    Bugless (l.countPruned cfg depth t) := by
  unfold Ledger.countPruned
  split <;> exact hl.same rfl rfl rfl rfl

theorem Bugless.sleep {l : Ledger} (hl : Bugless l) (depth : Nat) (t : Int) :
    Bugless (l.sleep cfg depth t) := by
  unfold Ledger.sleep
  split
  · exact hl.same rfl rfl rfl rfl
  · exact hl

theorem Bugless.propagate {l : Ledger} (hl : Bugless l) (depth : Nat) (runnable : List Int) :
    Bugless (l.propagate cfg depth runnable) := by
  unfold Ledger.propagate
  split
  · exact hl.same rfl rfl rfl rfl
  · exact hl

theorem Bugless.cacheMark {l : Ledger} (hl : Bugless l) (w : World) :
    Bugless (l.cacheMark sc cfg w) := by
  unfold Ledger.cacheMark
  split
  · exact hl.same rfl rfl rfl rfl
  · exact hl

theorem Bugless.reportViolation {l : Ledger} (hl : Bugless l) (n : Saved) :
    AtFirstBug (l.reportViolation n) where
  failingTrace := by simp [Ledger.reportViolation, Ledger.keepTrace]
  visits := ⟨l.visits, ⟨.violation, n.schedule, n.world⟩, rfl, by simp [Visit.isBug], hl.visits⟩
  bugs := by
    show l.result.deadlocks + (l.result.violations + 1) = 1
    rw [hl.deadlocks, hl.violations]

theorem Bugless.reportDeadlock {l : Ledger} (hl : Bugless l) (n : Saved) :
    AtFirstBug (l.reportDeadlock n) where
  failingTrace := by simp [Ledger.reportDeadlock, Ledger.keepTrace]
  visits := ⟨l.visits, ⟨.deadlock, n.schedule, n.world⟩, rfl, by simp [Visit.isBug], hl.visits⟩
  bugs := by
    show l.result.deadlocks + 1 + l.result.violations = 1
    rw [hl.deadlocks, hl.violations]

theorem AtFirstBug.propagate {l : Ledger} (hl : AtFirstBug l) (depth : Nat) (runnable : List Int) :
    AtFirstBug (l.propagate cfg depth runnable) := by
  unfold Ledger.propagate
  split
  · exact ⟨hl.failingTrace, hl.visits, hl.bugs⟩
  · exact hl

/-- The sleep sets are passed on alike in both walks, but no result depends on that once they differ. -/
theorem Behind.propagate {stop full : Ledger} (h : Behind stop full) (depth : Nat)
    (runnable : List Int) : Behind (stop.propagate (cfg.stopping true) depth runnable)
      (full.propagate (cfg.stopping false) depth runnable) := by
  cases h with
  | level heq hbugless =>
    subst heq
    exact .level rfl (hbugless.propagate depth runnable)
  | stopped hbug hext =>
    exact .stopped (hbug.propagate depth runnable) (hext.propagate_left.trans (.propagate _ _ _))

theorem behind_loop (hv : sc.Valid) (cfg : Config) {room depth : Nat} {n : Saved} (tried : Finset Int)
    (hrec : ∀ m l, Bugless l → Behind (walk sc (cfg.stopping true) room (depth + 1) m l)
      (walk sc (cfg.stopping false) room (depth + 1) m l))
    (rest : List Int) (hrest : ∀ t ∈ rest, sc.Ready n.world t) (l : Ledger) (hl : Bugless l) :
    Behind
      (walkLoop sc (cfg.stopping true) (walk sc (cfg.stopping true) room (depth + 1)) depth n tried rest l)
      (walkLoop sc (cfg.stopping false) (walk sc (cfg.stopping false) room (depth + 1)) depth n tried
        rest l) := by
  induction rest generalizing l with
  | nil => exact .level rfl hl
  | cons t rest ih =>
    have hon : ∀ l' : Ledger, l'.Extends (walkLoop sc (cfg.stopping false)
        (walk sc (cfg.stopping false) room (depth + 1)) depth n tried rest l') :=
      walkLoop_extends hv _ _ _ _ _ fun u hu => hrest u (List.mem_cons_of_mem _ hu)
    have ih := ih fun u hu => hrest u (List.mem_cons_of_mem _ hu)
    rw [walkLoop, walkLoop]
    by_cases htried : t ∉ tried
    · rw [if_pos htried, if_pos htried]
      have hpruned : Bugless (l.countPruned (cfg.stopping true) depth t) := hl.countPruned depth t
      exact ih _ hpruned
    rw [if_neg htried, if_neg htried]
    have hsleep : ∀ on, l.sleep (cfg.stopping on) depth t = l.sleep cfg depth t := fun _ => rfl
    have hslept : Bugless (l.sleep cfg depth t) := hl.sleep depth t
    rw [hsleep, hsleep]
    by_cases hfail : stepFails sc n.world t = true
    · -- The bug is here: one walk returns, the other goes on.
      simp only [if_pos hfail, Config.stopping, if_true, Bool.false_eq_true, if_false]
      exact .stopped (hslept.reportViolation _) (hon _)
    · simp only [if_neg hfail]
      have hback : Behind (Ledger.propagate _ (cfg.stopping true) depth
            (collectRunnable sc n.world smashMaxThreads))
          (Ledger.propagate _ (cfg.stopping false) depth
            (collectRunnable sc n.world smashMaxThreads)) :=
        (hrec (n.step sc t) _ hslept).propagate depth _
      have hfull : ∀ l' : Ledger, l'.stopped (cfg.stopping false) = false := fun l' => by
        simp [Ledger.stopped, Config.stopping]
      rw [hfull, if_neg Bool.false_ne_true]
      cases hback with
      | level heq hbugless =>
        rw [heq, Ledger.stopped, hbugless.failingTrace, Option.isSome_none, Bool.false_and,
          if_neg Bool.false_ne_true]
        exact ih _ hbugless
      | stopped hbug hext =>
        have hstop : (cfg.stopping true).stopOnFirstBug = true := rfl
        rw [Ledger.stopped, hbug.failingTrace, hstop, Bool.and_true, if_pos rfl]
        exact .stopped hbug (hext.trans (hon _))

theorem behind_walk (hv : sc.Valid) (cfg : Config) (room depth : Nat) (n : Saved) (l : Ledger) (hl : Bugless l) :
    Behind (walk sc (cfg.stopping true) room depth n l) (walk sc (cfg.stopping false) room depth n l) := by
  have hgo : ∀ on, l.stopped (cfg.stopping on) = false := fun on => by
    simp [Ledger.stopped, hl.failingTrace]
  have henough : ∀ on, l.enough (cfg.stopping on) = l.enough cfg := fun _ => rfl
  induction room generalizing depth n l with
  | zero =>
    rw [walk, walk, hgo, hgo, henough, henough, Bool.false_or]
    split
    · exact .level rfl hl
    · exact .level rfl (hl.visit ⟨.hardGuard, n.schedule, n.world⟩ rfl rfl rfl rfl rfl)
  | succ room ih =>
    rw [walk, walk, hgo, hgo, henough, henough, Bool.false_or]
    split
    · exact .level rfl hl
    have hmax : ∀ on, (cfg.stopping on).maxDepth = cfg.maxDepth := fun _ => rfl
    rw [hmax, hmax]
    split
    · exact .level rfl (hl.visit ⟨.depthLimit, n.schedule, n.world⟩ rfl rfl rfl rfl rfl)
    unfold walkNode
    have hhit : ∀ on, l.cacheHit sc (cfg.stopping on) n.world = l.cacheHit sc cfg n.world := fun _ => rfl
    rw [hhit, hhit]
    split
    · exact .level rfl (hl.visit ⟨.interleaving, n.schedule, n.world⟩ rfl rfl rfl rfl rfl)
    split
    · exact .stopped (hl.reportDeadlock n) (.refl _)
    split
    · exact .level rfl (hl.visit ⟨.cached, n.schedule, n.world⟩ rfl rfl rfl rfl rfl)
    · have hready : ∀ t ∈ collectRunnable sc n.world smashMaxThreads, sc.Ready n.world t :=
        fun t ht => (mem_collectRunnable hv).mp ht
      have hcounted : Bugless ((l.cacheMark sc cfg n.world).countState n) :=
        (hl.cacheMark n.world).visit ⟨.expanded, n.schedule, n.world⟩ rfl rfl rfl rfl rfl
      exact behind_loop hv cfg _ (fun m l' hl' => ih (depth + 1) m l' hl'
        (fun on => by simp [Ledger.stopped, hl'.failingTrace]) fun _ => rfl) _ hready _ hcounted

theorem behind_exploreLedger (hv : sc.Valid) (cfg : Config) :
    Behind (exploreLedger sc (cfg.stopping true)) (exploreLedger sc (cfg.stopping false)) :=
  behind_walk hv cfg.clamp _ _ _ _ ⟨rfl, by simp [Ledger.init], rfl, rfl⟩

/-- A list that ends in the only bug of a longer one is what comes before that bug, and the bug. -/
theorem AtFirstBug.visits_eq {stop full : Ledger} (hbug : AtFirstBug stop) (hext : stop.Extends full) :
    stop.visits = full.visits.take (full.visits.findIdx Visit.isBug + 1) := by
  obtain ⟨vs, v, heq, hv, hvs⟩ := hbug.visits
  obtain ⟨rest, hrest⟩ := hext.visits
  have hidx : full.visits.findIdx Visit.isBug = vs.length := by
    rw [← hrest, heq, List.append_assoc, List.findIdx_append, List.findIdx_eq_length_of_false hvs,
      if_neg (Nat.lt_irrefl _)]
    simp [List.findIdx_cons, hv]
  rw [hidx, ← hrest, heq]
  exact (List.take_left' (by simp)).symm

/-- Whether the search stops or goes on, it keeps the same trace. -/
theorem stopping_failingTrace (hv : sc.Valid) (cfg : Config) :
    (exploreLedger sc (cfg.stopping true)).result.failingTrace
      = (exploreLedger sc (cfg.stopping false)).result.failingTrace := by
  cases behind_exploreLedger hv cfg with
  | level heq _ => rw [heq]
  | stopped hbug hext =>
    obtain ⟨tr, htr⟩ := Option.isSome_iff_exists.mp hbug.failingTrace
    exact htr.trans (hext.failingTrace tr htr).symm

/-- **Stopping at the first bug reports the same bug.** -/
theorem stop_cuts_at_first_bug (hv : sc.Valid) (cfg : Config) (stack stack' : Nat → Saved) :
    (explore sc (cfg.stopping true) stack).failingTrace
        = (explore sc (cfg.stopping false) stack').failingTrace ∧
      (exploreSearch sc (cfg.stopping true) stack).visits
        = (exploreSearch sc (cfg.stopping false) stack').visits.take
            ((exploreSearch sc (cfg.stopping false) stack').visits.findIdx Visit.isBug + 1) ∧
      (exploreSearch sc (cfg.stopping true) stack).ledger.Extends
        (exploreSearch sc (cfg.stopping false) stack').ledger ∧
      (explore sc (cfg.stopping true) stack).deadlocks + (explore sc (cfg.stopping true) stack).violations
        = (if (explore sc (cfg.stopping false) stack').failingTrace.isSome then 1 else 0) ∧
      ((explore sc (cfg.stopping false) stack').failingTrace = none →
        explore sc (cfg.stopping true) stack = explore sc (cfg.stopping false) stack') := by
  rw [exploreSearch_visits hv, exploreSearch_visits hv, exploreSearch_ledger hv,
    exploreSearch_ledger hv, explore_eq hv, explore_eq hv]
  refine ⟨stopping_failingTrace hv cfg, ?_⟩
  cases behind_exploreLedger hv cfg with
  | level heq hbugless =>
    rw [heq]
    refine ⟨?_, .refl _, ?_, fun _ => rfl⟩
    · rw [List.findIdx_eq_length_of_false hbugless.visits, List.take_of_length_le (Nat.le_succ _)]
    · show _ + _ = if Option.isSome (exploreLedger sc (cfg.stopping false)).result.failingTrace then 1 else 0
      rw [hbugless.failingTrace]
      show (exploreLedger sc (cfg.stopping false)).result.deadlocks
        + (exploreLedger sc (cfg.stopping false)).result.violations = 0
      rw [hbugless.deadlocks, hbugless.violations]
  | stopped hbug hext =>
    obtain ⟨tr, htr⟩ := Option.isSome_iff_exists.mp hbug.failingTrace
    have hfull := hext.failingTrace tr htr
    refine ⟨hbug.visits_eq hext, hext, ?_, fun hnone => ?_⟩
    · show _ = if Option.isSome (exploreLedger sc (cfg.stopping false)).result.failingTrace then 1 else 0
      rw [hfull]
      exact hbug.bugs
    · have hnone : (exploreLedger sc (cfg.stopping false)).result.failingTrace = none := hnone
      rw [hfull] at hnone
      exact absurd hnone (by simp)

/-- Two threads that take two mutexes in opposite orders: plain search counts four deadlocks, and with
`stop_on_first_bug` it stops at one, on the same trace. -/
theorem stop_cuts_at_first_bug_abba :
    (explore abbaDeadlock (Config.stopping ⟨false, false, 16, none, false⟩ false)
        fun _ => rootNode abbaDeadlock).deadlocks = 4 ∧
      (explore abbaDeadlock (Config.stopping ⟨false, false, 16, none, false⟩ true)
          fun _ => rootNode abbaDeadlock).deadlocks
        + (explore abbaDeadlock (Config.stopping ⟨false, false, 16, none, false⟩ true)
          fun _ => rootNode abbaDeadlock).violations = 1 ∧
      (explore abbaDeadlock (Config.stopping ⟨false, false, 16, none, false⟩ true)
          fun _ => rootNode abbaDeadlock).failingTrace
        = (explore abbaDeadlock (Config.stopping ⟨false, false, 16, none, false⟩ false)
          fun _ => rootNode abbaDeadlock).failingTrace := by
  have hv : abbaDeadlock.Valid := by decide
  obtain ⟨htrace, -, -, hbugs, -⟩ := stop_cuts_at_first_bug hv ⟨false, false, 16, none, false⟩
    (fun _ => rootNode abbaDeadlock) fun _ => rootNode abbaDeadlock
  refine ⟨?_, hbugs.trans (if_pos ?_), htrace⟩
  · rw [explore_eq hv]
    decide +kernel
  · rw [explore_eq hv]
    decide +kernel

/-! ## The limit on interleavings -/

/-- `max_interleavings` set to `n`, or to no limit. -/
def Config.limited (cfg : Config) (n : Option Nat) : Config := { cfg with maxInterleavings := n }

/-- The complete interleavings the search has counted. -/
def Ledger.leaves (l : Ledger) : List Visit := l.visits.filter fun v => v.kind = .interleaving

/-- The counter counts the leaves. -/
def Counted (l : Ledger) : Prop := l.result.interleavings = l.leaves.length

theorem leaves_append {l l' : Ledger} {v : Visit} (h : l'.visits = l.visits ++ [v]) :
    l'.leaves = l.leaves ++ if v.kind = .interleaving then [v] else [] := by
  rw [Ledger.leaves, h, List.filter_append, Ledger.leaves]
  congr 1
  by_cases hk : v.kind = .interleaving <;> simp [hk]

theorem leaves_eq_of_visits {l l' : Ledger} (h : l'.visits = l.visits) : l'.leaves = l.leaves := by
  rw [Ledger.leaves, h, Ledger.leaves]

/-- The counter counts the leaves, and these start with `base`. -/
structure Onward (base : List Visit) (l : Ledger) : Prop where
  counted : Counted l
  leaves : base <+: l.leaves

theorem Onward.visit {base : List Visit} {l l' : Ledger} (hl : Onward base l) (v : Visit)
    (hv : l'.visits = l.visits ++ [v])
    (hi : l'.result.interleavings = l.result.interleavings + if v.kind = .interleaving then 1 else 0) :
    Onward base l' where
  counted := by
    rw [Counted, hi, leaves_append hv, hl.counted, List.length_append]
    split <;> rfl
  leaves := by
    rw [leaves_append hv]
    exact hl.leaves.trans (List.prefix_append _ _)

theorem Onward.same {base : List Visit} {l l' : Ledger} (hl : Onward base l)
    (hv : l'.visits = l.visits) (hi : l'.result.interleavings = l.result.interleavings) :
    Onward base l' where
  counted := by rw [Counted, hi, leaves_eq_of_visits hv]; exact hl.counted
  leaves := by rw [leaves_eq_of_visits hv]; exact hl.leaves

theorem interleavings_congr {l l' : Ledger} (h : l'.result = l.result) :
    l'.result.interleavings = l.result.interleavings := by
  rw [h]

theorem walkInv_onward (sc : Scenario) (cfg : Config) (base : List Visit) :
    WalkInv sc cfg Anywhere (Onward base) where
  child _ _ _ := trivial
  hardGuard {_ n _} _ h := h.visit ⟨.hardGuard, n.schedule, n.world⟩ rfl rfl
  depthLimit {_ _ n _} _ _ h := h.visit ⟨.depthLimit, n.schedule, n.world⟩ rfl rfl
  interleaving {_ _ n _} _ _ h := h.visit ⟨.interleaving, n.schedule, n.world⟩ rfl rfl
  deadlock {_ _ n _} _ _ _ h := h.visit ⟨.deadlock, n.schedule, n.world⟩ rfl rfl
  cached {_ _ n _} _ _ _ h := h.visit ⟨.cached, n.schedule, n.world⟩ rfl rfl
  expanded {_ _ n _} _ _ _ h :=
    (h.same (visits_cacheMark _ _) (interleavings_congr (result_cacheMark _ _))).visit
      ⟨.expanded, n.schedule, n.world⟩ rfl rfl
  violation {_ _ n _ t} _ _ _ h :=
    h.visit ⟨.violation, (n.step sc t).schedule, (n.step sc t).world⟩ rfl rfl
  pruned h := h.same (visits_countPruned _ _ _) (interleavings_countPruned _ _ _)
  sleep h := h.same (visits_sleep _ _ _) (interleavings_congr (result_sleep _ _ _))
  propagate h := h.same (visits_propagate _ _ _) (interleavings_congr (result_propagate _ _ _))

/-- At the limit a call returns at once, … -/
theorem walk_of_enough {l : Ledger} (h : l.enough cfg = true) (room depth : Nat) (n : Saved) :
    walk sc cfg room depth n l = l := by
  cases room with
  | zero => rw [walk, h, Bool.or_true, if_pos rfl]
  | succ room => rw [walk, h, Bool.or_true, if_pos rfl]

/-- The leaves are `base`, and the counter has counted them. -/
structure Sated (base : List Visit) (l : Ledger) : Prop where
  counted : Counted l
  leaves : l.leaves = base

theorem Sated.same {base : List Visit} {l l' : Ledger} (hl : Sated base l)
    (hv : l'.leaves = l.leaves) (hi : l'.result.interleavings = l.result.interleavings) :
    Sated base l' where
  counted := by rw [Counted, hi, hv]; exact hl.counted
  leaves := hv.trans hl.leaves

theorem Sated.enough {n : Nat} {base : List Visit} {l : Ledger} (hl : Sated base l)
    (hn : n ≤ base.length) : l.enough (cfg.limited (some n)) = true := by
  have hcounted : l.result.interleavings = l.leaves.length := hl.counted
  simp only [Ledger.enough, Config.limited, hcounted, hl.leaves, decide_eq_true_eq]
  exact hn

/-- … and the loops of the nodes above go on without a further interleaving. -/
theorem sated_loop {k room depth : Nat} {n : Saved} {base : List Visit} (hk : k ≤ base.length)
    (tried : Finset Int) (rest : List Int) (l : Ledger) (hl : Sated base l) :
    Sated base (walkLoop sc (cfg.limited (some k)) (walk sc (cfg.limited (some k)) room (depth + 1))
      depth n tried rest l) := by
  induction rest generalizing l with
  | nil => exact hl
  | cons t rest ih =>
    rw [walkLoop]
    have hslept : Sated base (l.sleep (cfg.limited (some k)) depth t) :=
      hl.same (leaves_eq_of_visits (visits_sleep _ _ _)) (interleavings_congr (result_sleep _ _ _))
    split
    · exact ih _ (hl.same (leaves_eq_of_visits (visits_countPruned _ _ _))
        (interleavings_countPruned _ _ _))
    by_cases hfail : stepFails sc n.world t = true
    · have hreported : Sated base
          ((l.sleep (cfg.limited (some k)) depth t).reportViolation (n.step sc t)) :=
        hslept.same ((leaves_append (v := ⟨.violation, (n.step sc t).schedule, (n.step sc t).world⟩)
          rfl).trans (List.append_nil _)) rfl
      simp only [if_pos hfail]
      split
      · exact hreported
      · exact ih _ hreported
    · simp only [if_neg hfail, walk_of_enough (hslept.enough hk)]
      have hpassed : Sated base ((l.sleep (cfg.limited (some k)) depth t).propagate
          (cfg.limited (some k)) depth (collectRunnable sc n.world smashMaxThreads)) :=
        hslept.same (leaves_eq_of_visits (visits_propagate _ _ _)) (interleavings_congr (result_propagate _ _ _))
      split
      · exact hpassed
      · exact ih _ hpassed

/-- How far the limited walk is behind the other: not at all, or it has all the interleavings it may
have, and they are the first of the other's. -/
inductive Within (k : Nat) (limited full : Ledger) : Prop where
  | level (heq : limited = full) (hcounted : Counted full) (hlt : full.leaves.length < k)
  | sated (base : List Visit) (hlen : base.length = k) (hsated : Sated base limited)
      (honward : Onward base full)

/-- Level, and one interleaving more: that may have been the last. -/
theorem within_visit {k : Nat} {l l' : Ledger} (hl : Counted l) (hlt : l.leaves.length < k) (v : Visit)
    (hv : l'.visits = l.visits ++ [v])
    (hi : l'.result.interleavings = l.result.interleavings + if v.kind = .interleaving then 1 else 0) :
    Within k l' l' := by
  have hon : Onward l.leaves l' := Onward.visit ⟨hl, List.prefix_refl _⟩ v hv hi
  by_cases hlast : l'.leaves.length < k
  · exact .level rfl hon.counted hlast
  · refine .sated l'.leaves ?_ ⟨hon.counted, rfl⟩ ⟨hon.counted, List.prefix_refl _⟩
    have hlen : l'.leaves.length ≤ l.leaves.length + 1 := by
      rw [leaves_append hv, List.length_append]
      split <;> simp
    omega

theorem within_loop (hv : sc.Valid) (cfg : Config) {k room depth : Nat} {n : Saved}
    (tried : Finset Int)
    (hrec : ∀ m l, Counted l → l.leaves.length < k →
      Within k (walk sc (cfg.limited (some k)) room (depth + 1) m l)
        (walk sc (cfg.limited none) room (depth + 1) m l))
    (rest : List Int) (hrest : ∀ t ∈ rest, sc.Ready n.world t) (l : Ledger) (hl : Counted l)
    (hlt : l.leaves.length < k) :
    Within k
      (walkLoop sc (cfg.limited (some k)) (walk sc (cfg.limited (some k)) room (depth + 1)) depth n tried
        rest l)
      (walkLoop sc (cfg.limited none) (walk sc (cfg.limited none) room (depth + 1)) depth n tried
        rest l) := by
  induction rest generalizing l with
  | nil => exact .level rfl hl hlt
  | cons t rest ih =>
    have hrest' : ∀ u ∈ rest, sc.Ready n.world u := fun u hu => hrest u (List.mem_cons_of_mem _ hu)
    have hon : ∀ {base : List Visit} {l' : Ledger}, Onward base l' → Onward base
        (walkLoop sc (cfg.limited none) (walk sc (cfg.limited none) room (depth + 1)) depth n tried
          rest l') := fun {base l'} h =>
      walkLoop_anywhere (walkInv_onward sc (cfg.limited none) base) hv _ _ _ _ hrest' _ h
    -- A step of the loop that adds no interleaving leaves the two walks level.
    have hlevel : ∀ l' : Ledger, l'.leaves = l.leaves →
        l'.result.interleavings = l.result.interleavings → Within k _ _ := fun l' hv' hi' =>
      ih hrest' l' (by rw [Counted, hv', hi']; exact hl) (by rw [hv']; exact hlt)
    have hsleep : ∀ lim, l.sleep (cfg.limited lim) depth t = l.sleep cfg depth t := fun _ => rfl
    have hslept : (l.sleep cfg depth t).leaves = l.leaves := leaves_eq_of_visits (visits_sleep _ _ _)
    rw [walkLoop, walkLoop, hsleep, hsleep]
    by_cases htried : t ∉ tried
    · rw [if_pos htried, if_pos htried]
      exact hlevel _ (leaves_eq_of_visits (visits_countPruned _ _ _)) (interleavings_countPruned _ _ _)
    rw [if_neg htried, if_neg htried]
    by_cases hfail : stepFails sc n.world t = true
    · simp only [if_pos hfail]
      have hleaves : ((l.sleep cfg depth t).reportViolation (n.step sc t)).leaves = l.leaves := by
        rw [leaves_append (v := ⟨.violation, (n.step sc t).schedule, (n.step sc t).world⟩) rfl, hslept]
        exact List.append_nil _
      have hcount : ((l.sleep cfg depth t).reportViolation (n.step sc t)).result.interleavings
          = l.result.interleavings :=
        show (l.sleep cfg depth t).result.interleavings = _ from interleavings_congr (result_sleep l depth t)
      have hstop : ∀ lim, (cfg.limited lim).stopOnFirstBug = cfg.stopOnFirstBug := fun _ => rfl
      rw [hstop, hstop]
      split
      · exact .level rfl (by rw [Counted, hleaves, hcount]; exact hl) (by rw [hleaves]; exact hlt)
      · exact hlevel _ hleaves hcount
    · simp only [if_neg hfail]
      have hbelow := hrec (n.step sc t) (l.sleep cfg depth t)
        (by rw [Counted, hslept, result_sleep]; exact hl) (by rw [hslept]; exact hlt)
      have hpass : ∀ (b : Ledger) lim, b.propagate (cfg.limited lim) depth
          (collectRunnable sc n.world smashMaxThreads)
          = b.propagate cfg depth (collectRunnable sc n.world smashMaxThreads) := fun _ _ => rfl
      have hstopped : ∀ (b : Ledger) lim, b.stopped (cfg.limited lim) = b.stopped cfg := fun _ _ => rfl
      simp only [hpass, hstopped]
      cases hbelow with
      | level heq hcounted hlt' =>
        rw [heq]
        generalize walk sc (cfg.limited none) room (depth + 1) (n.step sc t) (l.sleep cfg depth t) = back
          at hcounted hlt' ⊢
        have hleaves : (back.propagate cfg depth
            (collectRunnable sc n.world smashMaxThreads)).leaves = back.leaves :=
          leaves_eq_of_visits (visits_propagate _ _ _)
        have hcount : Counted (back.propagate cfg depth (collectRunnable sc n.world smashMaxThreads)) := by
          rw [Counted, hleaves, result_propagate]
          exact hcounted
        split
        · exact .level rfl hcount (by rw [hleaves]; exact hlt')
        · exact ih hrest' _ hcount (by rw [hleaves]; exact hlt')
      | sated base hlen hsated honward =>
        have hsated' : Sated base (Ledger.propagate _ cfg depth
            (collectRunnable sc n.world smashMaxThreads)) :=
          hsated.same (leaves_eq_of_visits (visits_propagate _ _ _)) (interleavings_congr (result_propagate _ _ _))
        have honward' : Onward base (Ledger.propagate _ cfg depth
            (collectRunnable sc n.world smashMaxThreads)) :=
          honward.same (visits_propagate _ _ _) (interleavings_congr (result_propagate _ _ _))
        refine .sated base hlen ?_ ?_
        · split
          · exact hsated'
          · exact sated_loop hlen.ge _ _ _ hsated'
        · split
          · exact honward'
          · exact hon honward'

/-- A call, from where the two walks are level. -/
theorem within_walk (hv : sc.Valid) (cfg : Config) {k : Nat} (room depth : Nat) (n : Saved) (l : Ledger)
    (hl : Counted l) (hlt : l.leaves.length < k) :
    Within k (walk sc (cfg.limited (some k)) room depth n l) (walk sc (cfg.limited none) room depth n l) := by
  have hstopped : ∀ (b : Ledger) lim, b.stopped (cfg.limited lim) = b.stopped cfg := fun _ _ => rfl
  have hmore : ∀ b : Ledger, Counted b → b.leaves.length < k → b.enough (cfg.limited (some k)) = false :=
    fun b hb hlt' => by
      have hcount : b.result.interleavings = b.leaves.length := hb
      simp only [Ledger.enough, Config.limited, hcount, decide_eq_false_iff_not, not_le]
      exact hlt'
  have hnone : ∀ b : Ledger, b.enough (cfg.limited none) = false := fun _ => rfl
  induction room generalizing depth n l with
  | zero =>
    rw [walk, walk, hstopped, hstopped, hmore l hl hlt, hnone, Bool.or_false]
    split
    · exact .level rfl hl hlt
    · exact within_visit hl hlt ⟨.hardGuard, n.schedule, n.world⟩ rfl rfl
  | succ room ih =>
    rw [walk, walk, hstopped, hstopped, hmore l hl hlt, hnone, Bool.or_false]
    split
    · exact .level rfl hl hlt
    have hmax : ∀ lim, (cfg.limited lim).maxDepth = cfg.maxDepth := fun _ => rfl
    rw [hmax, hmax]
    split
    · exact within_visit hl hlt ⟨.depthLimit, n.schedule, n.world⟩ rfl rfl
    unfold walkNode
    have hhit : ∀ lim, l.cacheHit sc (cfg.limited lim) n.world = l.cacheHit sc cfg n.world :=
      fun _ => rfl
    rw [hhit, hhit]
    split
    · exact within_visit hl hlt ⟨.interleaving, n.schedule, n.world⟩ rfl rfl
    split
    · exact within_visit hl hlt ⟨.deadlock, n.schedule, n.world⟩ rfl rfl
    split
    · exact within_visit hl hlt ⟨.cached, n.schedule, n.world⟩ rfl rfl
    · have hleaves : ((l.cacheMark sc cfg n.world).countState n).leaves = l.leaves := by
        rw [leaves_append (v := ⟨.expanded, n.schedule, n.world⟩) rfl,
          leaves_eq_of_visits (visits_cacheMark _ _)]
        exact List.append_nil _
      have hcount : ((l.cacheMark sc cfg n.world).countState n).result.interleavings
          = l.result.interleavings := by
        show (l.cacheMark sc cfg n.world).result.interleavings = _
        rw [result_cacheMark]
      have hcounted : Counted ((l.cacheMark sc cfg n.world).countState n) := by
        rw [Counted, hleaves, hcount]
        exact hl
      exact within_loop hv cfg _ (fun m l' hl' hlt' => ih (depth + 1) m l' hl' hlt') _
        (fun t ht => (mem_collectRunnable hv).mp ht) _ hcounted (hleaves ▸ hlt)

/-- **The limit keeps the first interleavings.** The search with a limit counts those that the search
without it counts first, so many as the limit allows; and below the limit it changes nothing. -/
theorem limit_cuts_interleavings (hv : sc.Valid) (cfg : Config) {k : Nat} (hk : 0 < k)
    (stack stack' : Nat → Saved) :
    (exploreSearch sc (cfg.limited (some k)) stack).visits.filter (fun v => v.kind = .interleaving)
        = ((exploreSearch sc (cfg.limited none) stack').visits.filter
            fun v => v.kind = .interleaving).take k ∧
      (explore sc (cfg.limited (some k)) stack).interleavings
        = min k (explore sc (cfg.limited none) stack').interleavings ∧
      ((explore sc (cfg.limited none) stack').interleavings < k →
        explore sc (cfg.limited (some k)) stack = explore sc (cfg.limited none) stack') := by
  rw [exploreSearch_visits hv, exploreSearch_visits hv, explore_eq hv, explore_eq hv]
  have hclamp : (cfg.limited (some k)).clamp = cfg.clamp.limited (some k) := by
    simp only [Config.clamp, Config.limited, Option.some.injEq, if_neg (Nat.ne_of_gt hk)]
    rfl
  have hwithin : Within k (exploreLedger sc (cfg.limited (some k))) (exploreLedger sc (cfg.limited none)) := by
    have h := within_walk hv cfg.clamp smashMaxDepth 0 (rootNode sc) .init (k := k) rfl hk
    rw [exploreLedger, hclamp]
    exact h
  cases hwithin with
  | level heq hcounted hlt =>
    have hcount : (exploreLedger sc (cfg.limited none)).result.interleavings
      = (exploreLedger sc (cfg.limited none)).leaves.length := hcounted
    rw [heq]
    refine ⟨(List.take_of_length_le hlt.le).symm, ?_, fun _ => rfl⟩
    show (exploreLedger sc (cfg.limited none)).result.interleavings
      = min k (exploreLedger sc (cfg.limited none)).result.interleavings
    omega
  | sated base hlen hsated honward =>
    have hcount : (exploreLedger sc (cfg.limited (some k))).result.interleavings = base.length := by
      rw [← hsated.leaves]
      exact hsated.counted
    have hfull : (exploreLedger sc (cfg.limited none)).result.interleavings
      = (exploreLedger sc (cfg.limited none)).leaves.length := honward.counted
    have hle := honward.leaves.length_le
    refine ⟨?_, ?_, fun hlt => ?_⟩
    · obtain ⟨rest, hrest⟩ := honward.leaves
      show (exploreLedger sc (cfg.limited (some k))).leaves
        = (exploreLedger sc (cfg.limited none)).leaves.take k
      rw [hsated.leaves, ← hrest, List.take_left' hlen]
    · show (exploreLedger sc (cfg.limited (some k))).result.interleavings
        = min k (exploreLedger sc (cfg.limited none)).result.interleavings
      omega
    · have hlt : (exploreLedger sc (cfg.limited none)).result.interleavings < k := hlt
      omega

/-- One thread that signals, one that waits. -/
theorem limit_cuts_interleavings_signalWait :
    (explore signalWait (Config.default.limited (some 1)) fun _ => rootNode signalWait).interleavings
      = min 1 (explore signalWait (Config.default.limited none)
          fun _ => rootNode signalWait).interleavings :=
  (limit_cuts_interleavings (by decide) .default Nat.one_pos _ _).2.1

end Smash
