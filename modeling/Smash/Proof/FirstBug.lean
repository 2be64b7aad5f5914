import Smash.Proof.Cuts
import Smash.Proof.Thinned

/-!
# What plain search finds within its depth

A search with `max_depth` set to `d` looks at schedules up to that length and no further. Here nothing is
assumed of the lengths of runs: `bounded_exhaustive` counts what plain search counts, whatever it cuts
off, and `least_bug_reported` says which bug it reports. A step that fails is seen at depth `d`, a deadlock
only above it, since the depth guard of `explore_dfs` comes before the test for one.
-/

set_option autoImplicit false

namespace Smash

variable {sc : Scenario} {cfg : Config}

/-! ## The nodes above the bound -/

/-- The state a schedule leads to has a READY thread. -/
def GoesOnSchedule (sc : Scenario) (s : List Int) : Prop := ∃ w, CleanRun sc s w ∧ ¬ Stuck sc w

/-- The nodes of a kind, for a claim that tells what that kind is. -/
theorem seen_bounded (hv : sc.Valid) (hp : cfg.Plain) (k : VisitKind) (P : List Int → Prop)
    (h : ∀ s, P s ↔ ∃ v, (searchTree hv).NodeOk cfg.bound (startWorld sc) v ∧
      decide ((treeVisit sc cfg.bound [] v).kind = k) = true ∧ v.path = s) :
    ((exploreLedger sc cfg).seen k : ℕ∞) = Set.encard {s | P s} := by
  rw [seen_plain hv hp]
  exact congrArg Set.encard (Set.ext fun s => (h s).symm)

theorem kind_cut (b : Nat) (k : VisitKind) (hk : k ≠ .hardGuard ∧ k ≠ .depthLimit) :
    decide ((if b = smashMaxDepth then VisitKind.hardGuard else .depthLimit) = k) = false := by
  split
  · exact decide_eq_false hk.1.symm
  · exact decide_eq_false hk.2.symm

/-- The nodes that are neither cut nor a violation: a state reached in fewer steps than the bound. -/
theorem node_above_iff (hv : sc.Valid) (k : VisitKind)
    (hk : k = .interleaving ∨ k = .deadlock ∨ k = .expanded) (s : List Int) :
    (∃ v, (searchTree hv).NodeOk cfg.bound (startWorld sc) v ∧
        decide ((treeVisit sc cfg.bound [] v).kind = k) = true ∧ v.path = s) ↔
      ∃ w, CleanRun sc s w ∧ s.length < cfg.bound ∧
        ((k = .expanded ∧ ¬ Stuck sc w) ∨
          (Stuck sc w ∧ k = if allDone sc w then .interleaving else .deadlock)) := by
  constructor
  · rintro ⟨⟨fate, path, state⟩, hok, hkind, rfl⟩
    cases fate with
    | ended =>
      refine ⟨state, hok.1, hok.2.2, Or.inr ⟨(collectRunnable_eq_nil hv).mp hok.2.1, ?_⟩⟩
      exact (of_decide_eq_true hkind).symm
    | goesOn =>
      refine ⟨state, hok.1, hok.2.2, Or.inl ⟨(of_decide_eq_true hkind).symm, fun hs => ?_⟩⟩
      exact hok.2.1 ((collectRunnable_eq_nil hv).mpr hs)
    | cut =>
      refine absurd hkind ?_
      have hne : k ≠ .hardGuard ∧ k ≠ .depthLimit := by rcases hk with rfl | rfl | rfl <;> simp
      rw [Bool.not_eq_true]
      exact kind_cut cfg.bound k hne
    | broken t =>
      have hviol : VisitKind.violation = k := of_decide_eq_true hkind
      rcases hk with rfl | rfl | rfl <;> exact absurd hviol (by simp)
  · rintro ⟨w, hrun, hlen, ⟨rfl, hgo⟩ | ⟨hstuck, rfl⟩⟩
    · exact ⟨⟨.goesOn, s, w⟩, ⟨hrun, fun hnil => hgo ((collectRunnable_eq_nil hv).mp hnil), hlen⟩,
        rfl, rfl⟩
    · exact ⟨⟨.ended, s, w⟩, ⟨hrun, (collectRunnable_eq_nil hv).mpr hstuck, hlen⟩,
        decide_eq_true rfl, rfl⟩

/-- The violations: a failing step from a state reached in fewer steps than the bound. -/
theorem node_violation_iff (hv : sc.Valid) (s : List Int) :
    (∃ v, (searchTree hv).NodeOk cfg.bound (startWorld sc) v ∧
        decide ((treeVisit sc cfg.bound [] v).kind = .violation) = true ∧ v.path = s) ↔
      ViolationSchedule sc s ∧ s.length ≤ cfg.bound := by
  constructor
  · rintro ⟨⟨fate, path, state⟩, hok, hkind, rfl⟩
    cases fate with
    | ended =>
      refine absurd hkind ?_
      simp only [treeVisit]
      split <;> simp
    | goesOn => exact absurd hkind (by simp [treeVisit])
    | cut =>
      refine absurd hkind ?_
      rw [Bool.not_eq_true]
      exact kind_cut cfg.bound .violation ⟨by simp, by simp⟩
    | broken t =>
      obtain ⟨s', hpath, hrun, hmem, hnone, hlen⟩ := hok
      simp only at hpath
      refine ⟨⟨s', t, state, hpath, hrun, (mem_collectRunnable hv).mp hmem, ?_⟩, ?_⟩
      · by_contra hf
        exact absurd hnone (by simp [searchTree, hf])
      · rw [hpath, List.length_append, List.length_singleton]
        exact hlen
  · rintro ⟨⟨s', t, w, rfl, hrun, hready, hfails⟩, hlen⟩
    rw [List.length_append, List.length_singleton] at hlen
    refine ⟨⟨.broken t, s' ++ [t], w⟩, ⟨s', rfl, hrun, (mem_collectRunnable hv).mpr hready, ?_, hlen⟩,
      rfl, rfl⟩
    simp [searchTree, hfails]

theorem node_deadlock_iff (hv : sc.Valid) (s : List Int) :
    (∃ v, (searchTree hv).NodeOk cfg.bound (startWorld sc) v ∧
        decide ((treeVisit sc cfg.bound [] v).kind = .deadlock) = true ∧ v.path = s) ↔
      DeadlockSchedule sc s ∧ s.length < cfg.bound := by
  rw [node_above_iff hv _ (Or.inr (Or.inl rfl))]
  constructor
  · rintro ⟨w, hrun, hlen, ⟨hne, -⟩ | ⟨hstuck, hdone⟩⟩
    · exact absurd hne (by simp)
    · refine ⟨⟨w, hrun, hstuck, ?_⟩, hlen⟩
      by_contra hnot
      rw [Bool.not_eq_false] at hnot
      rw [if_pos hnot] at hdone
      exact absurd hdone (by simp)
  · rintro ⟨⟨w, hrun, hstuck, hdone⟩, hlen⟩
    exact ⟨w, hrun, hlen, Or.inr ⟨hstuck, by rw [hdone]; rfl⟩⟩

/-- **Plain search is exhaustive within its depth**, whatever lies beyond. -/
theorem bounded_exhaustive (hv : sc.Valid) (hp : cfg.Plain) (stack : Nat → Saved) :
    ((explore sc cfg stack).interleavings : ℕ∞)
        = Set.encard {s | DoneSchedule sc s ∧ s.length < cfg.bound} ∧
      ((explore sc cfg stack).deadlocks : ℕ∞)
        = Set.encard {s | DeadlockSchedule sc s ∧ s.length < cfg.bound} ∧
      ((explore sc cfg stack).violations : ℕ∞)
        = Set.encard {s | ViolationSchedule sc s ∧ s.length ≤ cfg.bound} ∧
      ((explore sc cfg stack).states : ℕ∞)
        = Set.encard {s | GoesOnSchedule sc s ∧ s.length < cfg.bound} := by
  have hb := exploreLedger_booked hv cfg
  rw [explore_eq hv]
  refine ⟨?_, ?_, ?_, ?_⟩
  · rw [hb.interleavings]
    refine seen_bounded hv hp _ _ fun s => ?_
    rw [node_above_iff hv _ (Or.inl rfl)]
    constructor
    · rintro ⟨⟨w, hrun, hdone⟩, hlen⟩
      exact ⟨w, hrun, hlen, Or.inr ⟨stuck_of_allDone hdone, by rw [if_pos hdone]⟩⟩
    · rintro ⟨w, hrun, hlen, ⟨hne, -⟩ | ⟨-, hdone⟩⟩
      · exact absurd hne (by simp)
      · refine ⟨⟨w, hrun, ?_⟩, hlen⟩
        by_contra hnot
        rw [if_neg hnot] at hdone
        exact absurd hdone (by simp)
  · rw [hb.deadlocks]
    exact seen_bounded hv hp _ _ fun s => (node_deadlock_iff hv s).symm
  · rw [hb.violations]
    exact seen_bounded hv hp _ _ fun s => (node_violation_iff hv s).symm
  · rw [hb.states]
    refine seen_bounded hv hp _ _ fun s => ?_
    rw [node_above_iff hv _ (Or.inr (Or.inr rfl))]
    constructor
    · rintro ⟨⟨w, hrun, hgo⟩, hlen⟩
      exact ⟨w, hrun, hlen, Or.inl ⟨rfl, hgo⟩⟩
    · rintro ⟨w, hrun, hlen, ⟨-, hgo⟩ | ⟨-, hne⟩⟩
      · exact ⟨⟨w, hrun, hgo⟩, hlen⟩
      · split at hne <;> exact absurd hne (by simp)

/-- Three threads of 255 steps each, searched to depth 2. -/
theorem bounded_exhaustive_threeIdlers :
    ((explore threeIdlers ⟨false, false, 2, none, false⟩ fun _ => rootNode threeIdlers).states : ℕ∞)
      = Set.encard {s | GoesOnSchedule threeIdlers s ∧
          s.length < Config.bound ⟨false, false, 2, none, false⟩} :=
  (bounded_exhaustive (by decide +kernel) ⟨rfl, rfl, Or.inl rfl, rfl⟩ _).2.2.2

/-! ## The bug that is reported -/

/-- A bug that a search of depth `d` is deep enough for. -/
def BugWithin (sc : Scenario) (d : Nat) (s : List Int) : Prop :=
  (ViolationSchedule sc s ∧ s.length ≤ d) ∨ (DeadlockSchedule sc s ∧ s.length < d)

/-- The visits of plain search are the nodes of its tree. -/
theorem visit_plain_iff (hv : sc.Valid) (hp : cfg.Plain) (k : VisitKind) (s : List Int) :
    (∃ v ∈ (exploreLedger sc cfg).visits, v.kind = k ∧ v.schedule = s) ↔
      ∃ v, (searchTree hv).NodeOk cfg.bound (startWorld sc) v ∧
        decide ((treeVisit sc cfg.bound [] v).kind = k) = true ∧ v.path = s := by
  rw [exploreLedger_visits_plain hv hp]
  constructor
  · rintro ⟨u, hmem, hk, hs⟩
    obtain ⟨v, hv', rfl⟩ := List.mem_map.mp hmem
    exact ⟨v, (Branching.mem_unfold _).mp hv', decide_eq_true hk, by rw [← hs, treeVisit_schedule]⟩
  · rintro ⟨v, hok, hk, hs⟩
    exact ⟨_, List.mem_map_of_mem ((Branching.mem_unfold _).mpr hok), of_decide_eq_true hk, by
      rw [treeVisit_schedule, hs]⟩

/-- Such a bug is a bug that plain search visits. -/
theorem bugWithin_iff (hv : sc.Valid) (hp : cfg.Plain) (s : List Int) :
    BugWithin sc cfg.bound s ↔
      ∃ v ∈ (exploreLedger sc cfg).visits, v.isBug = true ∧ v.schedule = s := by
  rw [BugWithin, ← node_violation_iff hv, ← node_deadlock_iff hv, ← visit_plain_iff hv hp,
    ← visit_plain_iff hv hp]
  constructor
  · rintro (⟨v, hmem, hk, hs⟩ | ⟨v, hmem, hk, hs⟩)
    · exact ⟨v, hmem, by simp [Visit.isBug, hk], hs⟩
    · exact ⟨v, hmem, by simp [Visit.isBug, hk], hs⟩
  · rintro ⟨v, hmem, hbug, hs⟩
    simp only [Visit.isBug, Bool.or_eq_true, decide_eq_true_eq] at hbug
    rcases hbug with hk | hk
    · exact Or.inr ⟨v, hmem, hk, hs⟩
    · exact Or.inl ⟨v, hmem, hk, hs⟩

/-- **The least bug is reported.** With DPOR and caching off and no limit, whether or not the search stops
at the first bug: it reports none exactly when there is none within its depth, and otherwise it reports
the bug that comes first in the dictionary order of the schedules. -/
theorem least_bug_reported (hv : sc.Valid) (cfg : Config) (stop : Bool) (stack : Nat → Saved) :
    ((explore sc (cfg.plain.stopping stop) stack).failingTrace = none ↔
        ∀ s, ¬ BugWithin sc cfg.bound s) ∧
      ∀ tr, (explore sc (cfg.plain.stopping stop) stack).failingTrace = some tr →
        BugWithin sc cfg.bound tr.schedule.toList ∧
          ∀ s, BugWithin sc cfg.bound s → s = tr.schedule.toList ∨ tr.schedule.toList < s := by
  -- Stopping changes nothing of this, so the search goes on.
  have hstop : (explore sc (cfg.plain.stopping stop) stack).failingTrace
      = (exploreLedger sc cfg.plain).result.failingTrace := by
    have heq : (explore sc cfg.plain stack).failingTrace
        = (exploreLedger sc cfg.plain).result.failingTrace := by rw [explore_eq hv]
    cases stop with
    | false => exact heq
    | true => rw [explore_eq hv, stopping_failingTrace hv cfg.plain]; rfl
  have hbug := bugWithin_iff hv cfg.plain_plain
  have hb := (exploreLedger_booked hv cfg.plain).failingTrace
  rw [cfg.plain_bound] at hbug
  rw [hstop]
  cases hfind : (exploreLedger sc cfg.plain).visits.find? Visit.isBug with
  | none =>
    rw [hfind, Option.map_none, Option.map_eq_none_iff] at hb
    rw [hb]
    refine ⟨⟨fun _ s hs => ?_, fun _ => rfl⟩, fun tr htr => absurd htr (by simp)⟩
    obtain ⟨v, hmem, hv', -⟩ := (hbug s).mp hs
    exact absurd hv' (by simpa using List.find?_eq_none.mp hfind v hmem)
  | some u =>
    rw [hfind, Option.map_some, Option.map_eq_some_iff] at hb
    obtain ⟨tr, htr, hsched⟩ := hb
    have hu : BugWithin sc cfg.bound tr.schedule.toList :=
      (hbug _).mpr ⟨u, List.mem_of_find?_eq_some hfind, List.find?_some hfind, hsched.symm⟩
    rw [htr]
    refine ⟨⟨fun h => absurd h (by simp), fun h => absurd hu (h _)⟩, fun tr' htr' => ?_⟩
    cases htr'
    refine ⟨hu, fun s hs => ?_⟩
    obtain ⟨v, hmem, hv', rfl⟩ := (hbug s).mp hs
    exact exploreLedger_least hv cfg.plain htr hmem hv'

/-- Two threads that take two mutexes in opposite orders: the bug that is kept is the deadlock at `[0, 1, 0, 1]`,
and no other one comes before it. -/
theorem least_bug_reported_abba :
    ¬ (∀ s, ¬ BugWithin abbaDeadlock Config.default.bound s) ∧
      BugWithin abbaDeadlock Config.default.bound [0, 1, 0, 1] ∧
      ∀ s, BugWithin abbaDeadlock Config.default.bound s → s = [0, 1, 0, 1] ∨ [0, 1, 0, 1] < s := by
  have hv : abbaDeadlock.Valid := by decide
  have hkept : (explore abbaDeadlock (Config.default.plain.stopping true)
      fun _ => rootNode abbaDeadlock).failingTrace.map (·.schedule.toList) = some [0, 1, 0, 1] := by
    rw [explore_eq hv]
    decide +kernel
  obtain ⟨tr, htr, hsched⟩ := Option.map_eq_some_iff.mp hkept
  obtain ⟨hnone, hleast⟩ := least_bug_reported hv .default true fun _ => rootNode abbaDeadlock
  have hkeeps := hleast tr htr
  rw [hsched] at hkeeps
  exact ⟨fun h => absurd (hnone.mpr h) (by simp [htr]), hkeeps⟩

end Smash
