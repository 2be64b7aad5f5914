import Smash.Proof.Plain

/-!
# Plain search is exhaustive, up to the hard guard

Both results are about a search that neither prunes nor stops early. When every run is shorter than
the bound, the three counters are the numbers of schedules that end in the three ways
(`plain_exhaustive`).

When some run is not, the search is cut, and is supposed to say so through `max_depth_reached`. It
does for a bound below `SMASH_MAX_DEPTH`. At `SMASH_MAX_DEPTH` itself, which is the default, the guard
on the save stack comes first in `explore_dfs` and returns without the mark; `truncation_marked_iff`
is the exact condition for a silent cut to be impossible.
-/

set_option autoImplicit false

namespace Smash

variable {sc : Scenario} {cfg : Config}

/-! ## How a schedule can end -/

/-- All threads DONE. -/
def DoneSchedule (sc : Scenario) (s : List Int) : Prop :=
  ∃ w, CleanRun sc s w ∧ allDone sc w = true

/-- No thread READY and some thread not DONE. -/
def DeadlockSchedule (sc : Scenario) (s : List Int) : Prop :=
  ∃ w, CleanRun sc s w ∧ Stuck sc w ∧ allDone sc w = false

/-- The last step sets `failed` or leaves a state that `smash_check_all` rejects. -/
def ViolationSchedule (sc : Scenario) (s : List Int) : Prop :=
  ∃ s' t w, s = s' ++ [t] ∧ CleanRun sc s' w ∧ sc.Ready w t ∧ stepFails sc w t = true

/-- Every run is shorter than `n`. -/
def RunsShorter (sc : Scenario) (n : Int) : Prop := ∀ s w, CleanRun sc s w → (s.length : Int) < n

/-- Whether every run is shorter than `n` can be read off the listing down to depth `n`. -/
theorem runsShorter_iff (hv : sc.Valid) {n : Nat} : RunsShorter sc n ↔
    ∀ v ∈ (searchTree hv).unfold n (startWorld sc), v.fate.isCut = false := by
  constructor
  · rintro h ⟨fate, path, state⟩ hmem
    cases fate with
    | cut =>
      have hok := (Branching.mem_unfold _).mp hmem
      have := h _ _ hok.1
      exact absurd hok.2 (Nat.ne_of_lt (Int.ofNat_lt.mp this))
    | ended => rfl
    | goesOn => rfl
    | broken t => rfl
  · intro h s w hrun
    by_contra hlong
    -- Stop the long run at the bound: that node is listed as cut.
    obtain ⟨w', hrun'⟩ := TransitionSystem.Run.take hrun n
    have hlen : (s.take n).length = n := by rw [List.length_take]; omega
    have hcut := h ⟨.cut, s.take n, w'⟩ ((Branching.mem_unfold _).mpr ⟨hrun', hlen⟩)
    exact absurd hcut (by simp [Branching.Fate.isCut])

theorem abbaDeadlock_short : RunsShorter abbaDeadlock (16 : Nat) :=
  (runsShorter_iff (show abbaDeadlock.Valid by decide)).mpr (by decide +kernel)

/-! ## The listing, kind by kind -/

/-- A kind is seen as often as there are paths to nodes of that kind. -/
theorem seen_plain (hv : sc.Valid) (hp : cfg.Plain) (k : VisitKind) :
    ((exploreLedger sc cfg).seen k : ℕ∞) = Set.encard {s | ∃ v,
      (searchTree hv).NodeOk cfg.bound (startWorld sc) v ∧
        decide ((treeVisit sc cfg.bound [] v).kind = k) = true ∧ v.path = s} := by
  rw [Branching.encard_unfold, Ledger.seen, exploreLedger_visits_plain hv hp, List.countP_map]
  rfl

section short

variable (hv : sc.Valid) (hshort : RunsShorter sc cfg.bound)
include hshort

/-- No node is at the bound, so the cut never happens. -/
theorem not_cut {v : Branching.Node World Int}
    (h : (searchTree hv).NodeOk cfg.bound (startWorld sc) v) : v.fate ≠ .cut := by
  intro hcut
  simp only [Branching.NodeOk, hcut] at h
  have := hshort _ _ h.1
  omega

theorem doneSchedule_iff {s : List Int} : DoneSchedule sc s ↔
    ∃ v, (searchTree hv).NodeOk cfg.bound (startWorld sc) v ∧
      decide ((treeVisit sc cfg.bound [] v).kind = .interleaving) = true ∧ v.path = s := by
  constructor
  · rintro ⟨w, hrun, hdone⟩
    have := hshort _ _ hrun
    exact ⟨⟨.ended, s, w⟩, ⟨hrun, (collectRunnable_eq_nil hv).mpr (stuck_of_allDone hdone),
      Int.ofNat_lt.mp this⟩,
      by simp [treeVisit, hdone], rfl⟩
  · rintro ⟨⟨fate, path, state⟩, hok, hkind, rfl⟩
    cases fate with
    | ended =>
      by_cases hdone : allDone sc state = true
      · exact ⟨state, hok.1, hdone⟩
      · exact absurd hkind (by simp [treeVisit, hdone])
    | goesOn => exact absurd hkind (by simp [treeVisit])
    | cut => exact absurd rfl (not_cut hv hshort hok)
    | broken t => exact absurd hkind (by simp [treeVisit])

theorem deadlockSchedule_iff {s : List Int} : DeadlockSchedule sc s ↔
    ∃ v, (searchTree hv).NodeOk cfg.bound (startWorld sc) v ∧
      decide ((treeVisit sc cfg.bound [] v).kind = .deadlock) = true ∧ v.path = s := by
  constructor
  · rintro ⟨w, hrun, hstuck, hdone⟩
    have := hshort _ _ hrun
    exact ⟨⟨.ended, s, w⟩, ⟨hrun, (collectRunnable_eq_nil hv).mpr hstuck, Int.ofNat_lt.mp this⟩,
      by simp [treeVisit, hdone], rfl⟩
  · rintro ⟨⟨fate, path, state⟩, hok, hkind, rfl⟩
    cases fate with
    | ended =>
      by_cases hdone : allDone sc state = true
      · exact absurd hkind (by simp [treeVisit, hdone])
      · exact ⟨state, hok.1, (collectRunnable_eq_nil hv).mp hok.2.1, by simpa using hdone⟩
    | goesOn => exact absurd hkind (by simp [treeVisit])
    | cut => exact absurd rfl (not_cut hv hshort hok)
    | broken t => exact absurd hkind (by simp [treeVisit])

theorem violationSchedule_iff {s : List Int} : ViolationSchedule sc s ↔
    ∃ v, (searchTree hv).NodeOk cfg.bound (startWorld sc) v ∧
      decide ((treeVisit sc cfg.bound [] v).kind = .violation) = true ∧ v.path = s := by
  constructor
  · rintro ⟨s', t, w, rfl, hrun, hready, hfails⟩
    have := hshort _ _ hrun
    refine ⟨⟨.broken t, s' ++ [t], w⟩, ⟨s', rfl, hrun, (mem_collectRunnable hv).mpr hready, ?_,
      by omega⟩, by simp [treeVisit], rfl⟩
    simp [searchTree, hfails]
  · rintro ⟨⟨fate, path, state⟩, hok, hkind, rfl⟩
    cases fate with
    | ended =>
      refine absurd hkind ?_
      simp only [treeVisit]
      split <;> simp
    | goesOn => exact absurd hkind (by simp [treeVisit])
    | cut => exact absurd rfl (not_cut hv hshort hok)
    | broken t =>
      obtain ⟨s', hpath, hrun, hmem, hnone, -⟩ := hok
      refine ⟨s', t, state, hpath, hrun, (mem_collectRunnable hv).mp hmem, ?_⟩
      by_contra hf
      exact absurd hnone (by simp [searchTree, hf])

end short

/-- **Plain search is exhaustive.** When every run is shorter than the bound, the three counters are
the numbers of schedules that end with all threads DONE, in a deadlock, and in a violation. -/
theorem plain_exhaustive (hv : sc.Valid) (hp : cfg.Plain) (hlo : 1 ≤ cfg.maxDepth)
    (hhi : cfg.maxDepth ≤ smashMaxDepth) (hshort : RunsShorter sc cfg.maxDepth)
    (stack : Nat → Saved) :
    ((explore sc cfg stack).interleavings : ℕ∞) = Set.encard {s | DoneSchedule sc s} ∧
      ((explore sc cfg stack).deadlocks : ℕ∞) = Set.encard {s | DeadlockSchedule sc s} ∧
      ((explore sc cfg stack).violations : ℕ∞) = Set.encard {s | ViolationSchedule sc s} := by
  have hclamp : cfg.clamp.maxDepth = cfg.maxDepth := by
    simp only [Config.clamp]
    rw [if_neg (by omega)]
  have hshort' : RunsShorter sc cfg.bound := by rw [← cfg.bound_eq, hclamp]; exact hshort
  have hb := exploreLedger_booked hv cfg
  rw [explore_eq hv]
  refine ⟨?_, ?_, ?_⟩
  · rw [hb.interleavings, seen_plain hv hp]
    exact congrArg Set.encard (Set.ext fun s => (doneSchedule_iff hv hshort').symm)
  · rw [hb.deadlocks, seen_plain hv hp]
    exact congrArg Set.encard (Set.ext fun s => (deadlockSchedule_iff hv hshort').symm)
  · rw [hb.violations, seen_plain hv hp]
    exact congrArg Set.encard (Set.ext fun s => (violationSchedule_iff hv hshort').symm)

/-- One thread that signals, one that waits: every run is shorter than 5. -/
theorem plain_exhaustive_signalWait :
    let cfg : Config := ⟨false, false, 8, none, false⟩
    let stack : Nat → Saved := fun _ => rootNode signalWait
    ((explore signalWait cfg stack).interleavings : ℕ∞) = Set.encard {s | DoneSchedule signalWait s} ∧
      ((explore signalWait cfg stack).deadlocks : ℕ∞) = Set.encard {s | DeadlockSchedule signalWait s} ∧
      ((explore signalWait cfg stack).violations : ℕ∞)
        = Set.encard {s | ViolationSchedule signalWait s} := by
  have hshort : RunsShorter signalWait (8 : Nat) :=
    (runsShorter_iff (show signalWait.Valid by decide)).mpr (by decide +kernel)
  exact plain_exhaustive (by decide) ⟨rfl, rfl, Or.inl rfl, rfl⟩ (by decide) (by decide) hshort _

/-! ## Bugs that are counted and bugs that exist -/

/-- A kind is counted when some visit is of that kind. -/
theorem seen_pos {l : Ledger} {k : VisitKind} : 0 < l.seen k ↔ ∃ v ∈ l.visits, v.kind = k := by
  simp [Ledger.seen, List.countP_pos_iff]

theorem explore_deadlocks (hv : sc.Valid) (cfg : Config) (stack : Nat → Saved) :
    (explore sc cfg stack).deadlocks = (exploreLedger sc cfg).result.deadlocks := by
  rw [explore_eq hv]

theorem explore_violations (hv : sc.Valid) (cfg : Config) (stack : Nat → Saved) :
    (explore sc cfg stack).violations = (exploreLedger sc cfg).result.violations := by
  rw [explore_eq hv]

theorem explore_deadlocks_pos (hv : sc.Valid) (cfg : Config) (stack : Nat → Saved) :
    0 < (explore sc cfg stack).deadlocks ↔ ∃ v ∈ (exploreLedger sc cfg).visits, v.kind = .deadlock := by
  rw [← seen_pos, ← (exploreLedger_booked hv cfg).deadlocks, explore_deadlocks hv]

theorem explore_violations_pos (hv : sc.Valid) (cfg : Config) (stack : Nat → Saved) :
    0 < (explore sc cfg stack).violations ↔
      ∃ v ∈ (exploreLedger sc cfg).visits, v.kind = .violation := by
  rw [← seen_pos, ← (exploreLedger_booked hv cfg).violations, explore_violations hv]

/-- Whatever the configuration, a bug that is counted is a bug of the scenario. -/
theorem deadlockSchedule_of_visit (hv : sc.Valid) {v : Visit}
    (hmem : v ∈ (exploreLedger sc cfg).visits) (hk : v.kind = .deadlock) :
    DeadlockSchedule sc v.schedule := by
  have hok := exploreLedger_visitOk hv cfg v hmem
  rw [VisitOk, hk] at hok
  exact ⟨v.world, hok.1, hok.2.2.1, hok.2.1⟩

theorem violationSchedule_of_visit (hv : sc.Valid) {v : Visit}
    (hmem : v ∈ (exploreLedger sc cfg).visits) (hk : v.kind = .violation) :
    ViolationSchedule sc v.schedule := by
  have hok := exploreLedger_visitOk hv cfg v hmem
  rw [VisitOk, hk] at hok
  obtain ⟨s, t, w, hs, hrun, hready, hfails, -⟩ := hok
  exact ⟨s, t, w, hs, hrun, hready, hfails⟩

/-- Plain search counts bugs of a kind exactly when the scenario has one. -/
theorem plain_deadlock_iff (hv : sc.Valid) (hp : cfg.Plain) (hshort : RunsShorter sc cfg.bound) :
    (∃ v ∈ (exploreLedger sc cfg).visits, v.kind = .deadlock) ↔ ∃ s, DeadlockSchedule sc s := by
  constructor
  · rintro ⟨v, hmem, hk⟩
    exact ⟨_, deadlockSchedule_of_visit hv hmem hk⟩
  · rintro ⟨s, hs⟩
    obtain ⟨v, hok, hk, -⟩ := (deadlockSchedule_iff hv hshort).mp hs
    rw [exploreLedger_visits_plain hv hp]
    exact ⟨_, List.mem_map_of_mem ((Branching.mem_unfold _).mpr hok), by simpa using hk⟩

theorem plain_violation_iff (hv : sc.Valid) (hp : cfg.Plain) (hshort : RunsShorter sc cfg.bound) :
    (∃ v ∈ (exploreLedger sc cfg).visits, v.kind = .violation) ↔ ∃ s, ViolationSchedule sc s := by
  constructor
  · rintro ⟨v, hmem, hk⟩
    exact ⟨_, violationSchedule_of_visit hv hmem hk⟩
  · rintro ⟨s, hs⟩
    obtain ⟨v, hok, hk, -⟩ := (violationSchedule_iff hv hshort).mp hs
    rw [exploreLedger_visits_plain hv hp]
    exact ⟨_, List.mem_map_of_mem ((Branching.mem_unfold _).mpr hok), by simpa using hk⟩

/-! ## The cut and its mark -/

/-- The search was cut nowhere, and every clean run was followed: all its threads are DONE, none is
READY, or its end was expanded in turn. -/
structure Untruncated (sc : Scenario) (visits : List Visit) : Prop where
  no_cut : ∀ v ∈ visits, v.kind ≠ .hardGuard ∧ v.kind ≠ .depthLimit
  followed : ∀ s w, CleanRun sc s w → ∃ v ∈ visits, v.schedule = s ∧ v.world = w ∧
    (v.kind = .interleaving ∨ v.kind = .deadlock ∨ v.kind = .expanded)

/-- A run as long as the bound ends in a cut node. -/
theorem cut_of_long_run (hv : sc.Valid) (hp : cfg.Plain) {s : List Int} {w : World}
    (hrun : CleanRun sc s w) (hlen : cfg.bound ≤ s.length) :
    ∃ v ∈ (exploreLedger sc cfg).visits,
      v.kind = if cfg.bound = smashMaxDepth then .hardGuard else .depthLimit := by
  obtain ⟨w', hrun'⟩ := TransitionSystem.Run.take hrun cfg.bound
  have hpath : (s.take cfg.bound).length = cfg.bound := by rw [List.length_take]; omega
  rw [exploreLedger_visits_plain hv hp]
  exact ⟨_, List.mem_map_of_mem ((Branching.mem_unfold _).mpr
    (show (searchTree hv).NodeOk _ _ ⟨.cut, s.take cfg.bound, w'⟩ from ⟨hrun', hpath⟩)), rfl⟩

/-- Without a run that long, nothing is cut and everything is followed. -/
theorem untruncated_of_short (hv : sc.Valid) (hp : cfg.Plain) (hshort : RunsShorter sc cfg.bound) :
    Untruncated sc (exploreLedger sc cfg).visits := by
  rw [exploreLedger_visits_plain hv hp]
  constructor
  · intro u hu
    obtain ⟨v, hmem, rfl⟩ := List.mem_map.mp hu
    have hcut := not_cut hv hshort ((Branching.mem_unfold _).mp hmem)
    obtain ⟨fate, path, state⟩ := v
    cases fate with
    | ended =>
      simp only [treeVisit]
      split <;> simp
    | goesOn => simp [treeVisit]
    | cut => exact absurd rfl hcut
    | broken t => simp [treeVisit]
  · intro s w hrun
    have hlen : s.length < cfg.bound := Int.ofNat_lt.mp (hshort _ _ hrun)
    by_cases hstuck : (searchTree hv).choices w = []
    · refine ⟨_, List.mem_map_of_mem ((Branching.mem_unfold _).mpr
        (show (searchTree hv).NodeOk _ _ ⟨.ended, s, w⟩ from ⟨hrun, hstuck, hlen⟩)), rfl, rfl, ?_⟩
      simp only [treeVisit]
      split
      · exact Or.inl rfl
      · exact Or.inr (Or.inl rfl)
    · exact ⟨_, List.mem_map_of_mem ((Branching.mem_unfold _).mpr
        (show (searchTree hv).NodeOk _ _ ⟨.goesOn, s, w⟩ from ⟨hrun, hstuck, hlen⟩)), rfl, rfl,
        Or.inr (Or.inr rfl)⟩

/-- At the largest bound the guard that leaves a mark is never reached. -/
theorem maxDepthReached_of_bound (hv : sc.Valid) (hp : cfg.Plain)
    (hbound : cfg.bound = smashMaxDepth) : (exploreLedger sc cfg).maxDepthReached = 0 := by
  rw [(exploreLedger_booked hv cfg).maxDepthReached, Ledger.seen, List.countP_eq_zero]
  intro u hu
  rw [exploreLedger_visits_plain hv hp] at hu
  obtain ⟨⟨fate, path, state⟩, -, rfl⟩ := List.mem_map.mp hu
  cases fate with
  | ended =>
    simp only [treeVisit]
    split <;> simp
  | goesOn => simp [treeVisit]
  | cut => simp [treeVisit, hbound]
  | broken t => simp [treeVisit]

/-- **The silent guard**: at the largest bound a run as long as it is cut without a mark. -/
theorem cut_silently (hv : sc.Valid) (hp : cfg.Plain) (hbound : cfg.bound = smashMaxDepth)
    {s : List Int} {w : World} (hrun : CleanRun sc s w) (hlen : smashMaxDepth ≤ s.length)
    (stack : Nat → Saved) : (explore sc cfg stack).maxDepthReached = 0 ∧
      ¬ Untruncated sc (exploreSearch sc cfg stack).visits := by
  rw [explore_maxDepthReached hv, exploreSearch_visits hv]
  refine ⟨maxDepthReached_of_bound hv hp hbound, fun h => ?_⟩
  obtain ⟨v, hmem, hkind⟩ := cut_of_long_run hv hp hrun (by omega)
  rw [if_pos hbound] at hkind
  exact (h.no_cut v hmem).1 hkind

/-- No mark, and no bound at which the mark is missed: no run was cut. -/
theorem short_of_maxDepthReached (hv : sc.Valid) (hp : cfg.Plain)
    (hbound : cfg.bound ≠ smashMaxDepth) (hzero : (exploreLedger sc cfg).maxDepthReached = 0) :
    RunsShorter sc cfg.bound := by
  intro s w hrun
  by_contra hlong
  obtain ⟨v, hmem, hkind⟩ := cut_of_long_run hv hp hrun (by omega)
  rw [(exploreLedger_booked hv cfg).maxDepthReached, Ledger.seen, List.countP_eq_zero] at hzero
  rw [if_neg hbound] at hkind
  exact hzero v hmem (by simp [hkind])

theorem Config.bound_ne_iff (cfg : Config) :
    cfg.bound ≠ smashMaxDepth ↔ 0 < cfg.maxDepth ∧ cfg.maxDepth < smashMaxDepth := by
  have hb := cfg.bound_eq
  simp only [Config.clamp] at hb
  split at hb <;> omega

/-- **When a cut cannot be silent.** A search that returns no `max_depth_reached` has followed every
clean run, if and only if the configured depth is below `SMASH_MAX_DEPTH` or no clean run is that
long. -/
theorem truncation_marked_iff (hv : sc.Valid) (hp : cfg.Plain) (stack : Nat → Saved) :
    ((explore sc cfg stack).maxDepthReached = 0 →
        Untruncated sc (exploreSearch sc cfg stack).visits) ↔
      (0 < cfg.maxDepth ∧ cfg.maxDepth < smashMaxDepth) ∨ RunsShorter sc smashMaxDepth := by
  constructor
  · intro h
    by_cases hbound : cfg.bound = smashMaxDepth
    · refine Or.inr fun s w hrun => ?_
      by_contra hlong
      obtain ⟨hzero, hcut⟩ := cut_silently hv hp hbound hrun (by omega) stack
      exact hcut (h hzero)
    · exact Or.inl (cfg.bound_ne_iff.mp hbound)
  · rw [explore_maxDepthReached hv, exploreSearch_visits hv]
    rintro (hlow | hshort) hzero
    · exact untruncated_of_short hv hp
        (short_of_maxDepthReached hv hp (cfg.bound_ne_iff.mpr hlow) hzero)
    · by_cases hbound : cfg.bound = smashMaxDepth
      · exact untruncated_of_short hv hp (by rw [hbound]; exact hshort)
      · exact untruncated_of_short hv hp (short_of_maxDepthReached hv hp hbound hzero)

theorem truncation_marked_iff_signalWait :
    let cfg : Config := ⟨false, false, 8, none, false⟩
    let stack : Nat → Saved := fun _ => rootNode signalWait
    ((explore signalWait cfg stack).maxDepthReached = 0 →
        Untruncated signalWait (exploreSearch signalWait cfg stack).visits) ↔
      (0 < cfg.maxDepth ∧ cfg.maxDepth < smashMaxDepth) ∨ RunsShorter signalWait smashMaxDepth :=
  truncation_marked_iff (by decide) ⟨rfl, rfl, Or.inl rfl, rfl⟩ _

/-! ### Three threads that do nothing for long -/

/-- Three threads of 255 `ACT_NOP`s each, the most a step list holds. -/
def threeIdlers : Scenario where
  threadCount := 3
  resourceCount := 0
  priorities _ := 10
  steps _ _ := ⟨.nop, -1, 0⟩
  stepCount _ := 255
  resTypes _ := .mutex
  semInit _ := 0
  associatedMutex _ := 0
  mbCapacity _ := 0
  stackSizes _ := 0

/-- The start with the program counters moved to `pc`. -/
def idlersAt (pc : Int → Nat) : World where
  threads t := { (startWorld threeIdlers).threads t with pc := pc t }
  resources := (startWorld threeIdlers).resources

theorem idlersAt_ready (pc : Int → Nat) {t : Int} (ht : threeIdlers.IsThread t) :
    threeIdlers.Ready (idlersAt pc) t := by
  refine ⟨ht, ?_⟩
  simp [idlersAt, startWorld, World.reset, ht, Thread.reset]

theorem checkAll_idlersAt (pc : Int → Nat) : checkAll threeIdlers (idlersAt pc) = none := by
  have hno : threeIdlers.resourceIds = [] := rfl
  have hready := fun t (ht : threeIdlers.IsThread t) => (idlersAt_ready pc ht).2
  have hstack : ∀ t, ((idlersAt pc).threads t).ownedMutexStack.count = 0 := by
    intro t
    by_cases ht : threeIdlers.IsThread t <;>
      simp [idlersAt, startWorld, World.reset, ht, Thread.reset, World.zero, LiveArray.replicate]
  have h1 : checkMutexIntegrity threeIdlers (idlersAt pc) = none := by
    simp [checkMutexIntegrity, hno]
  have h2 : checkSemIntegrity threeIdlers (idlersAt pc) = none := by simp [checkSemIntegrity, hno]
  have h3 : checkOwnedMutexIntegrity threeIdlers (idlersAt pc) = none := by
    simp [checkOwnedMutexIntegrity, hstack]
  have h4 : checkPriorityInversion threeIdlers (idlersAt pc) = none := by
    simp [checkPriorityInversion, hno]
  have h5 : checkContextSafety threeIdlers (idlersAt pc) = none := by
    rw [checkContextSafety, List.findSome?_eq_none_iff]
    intro t ht
    simp [hready t (Scenario.mem_threadIds.mp ht)]
  have h6 : checkStackDepth threeIdlers (idlersAt pc) = none := by
    simp [checkStackDepth, threeIdlers]
  simp [checkAll, h1, h2, h3, h4, h5, h6]

/-- A step moves one program counter and fails in nothing. -/
theorem idlersAt_step (pc : Int → Nat) {t : Int} (ht : threeIdlers.IsThread t) (hpc : pc t < 255) :
    (cleanSystem threeIdlers).step (idlersAt pc) t (idlersAt (Function.update pc t (pc t + 1))) := by
  have htick : ((idlersAt pc).tick threeIdlers).1 = idlersAt pc :=
    tick_eq_self fun u hu =>
      Thread.timed_of_not_blocked (Thread.not_blocked_of_ready (idlersAt_ready pc hu).2)
  have hact : threeIdlers.actionAt t ((idlersAt pc).threads t).pc = some ⟨.nop, -1, 0⟩ := by
    have : ((pc t : Nat) : Int) < 255 := by omega
    simp [Scenario.actionAt, threeIdlers, idlersAt, this]
  have hmove : (idlersAt pc).advance t = idlersAt (Function.update pc t (pc t + 1)) := by
    refine World.ext (funext fun u => ?_) rfl
    by_cases hu : u = t
    · subst hu; simp [World.advance, Thread.advance, idlersAt]
    · simp [World.advance, World.modThread_of_ne _ hu, idlersAt, hu]
  have hexec : (idlersAt pc).executeStep threeIdlers t
      = ((Outcome.ok ((idlersAt pc).advance t) [] true).finish.afterLog
        [⟨.schedule, t, -1, ((idlersAt pc).threads t).priority⟩]).afterLog
          ((idlersAt pc).tick threeIdlers).2 := by
    rw [World.executeStep, htick, World.runThread]
    simp only [(idlersAt_ready pc ht).2, hact, ne_eq, not_true_eq_false, if_false, smashNoResource,
      false_and, World.dispatch]
  refine ⟨idlersAt_ready pc ht, ?_, ?_⟩
  · rw [stepFails, hexec, Outcome.afterLog_world, Outcome.afterLog_world, Outcome.finish_world,
      Outcome.ok_world, hmove, checkAll_idlersAt]
    rfl
  · rw [hexec, Outcome.afterLog_world, Outcome.afterLog_world, Outcome.finish_world,
      Outcome.ok_world, hmove]

/-- A thread can be run on its own through all its steps. -/
theorem idlersAt_run (pc : Int → Nat) {t : Int} (ht : threeIdlers.IsThread t) (k : Nat)
    (hpc : pc t + k ≤ 255) : (cleanSystem threeIdlers).Run (idlersAt pc) (List.replicate k t)
      (idlersAt (Function.update pc t (pc t + k))) := by
  induction k generalizing pc with
  | zero => simpa using TransitionSystem.Run.nil (M := cleanSystem threeIdlers) (idlersAt pc)
  | succ k ih =>
    have hnext := ih (Function.update pc t (pc t + 1)) (by simp; omega)
    rw [Function.update_idem, Function.update_self, show pc t + 1 + k = pc t + (k + 1) by omega]
      at hnext
    exact .cons (idlersAt_step pc ht (by omega)) hnext

/-- Two threads through all their steps and the third through two: 512 steps, and more to come. -/
theorem idlers_long_run : ∃ s w, CleanRun threeIdlers s w ∧ s.length = smashMaxDepth := by
  have h0 := idlersAt_run (fun _ => 0) (t := 0) (by decide) 255 (by simp)
  have h1 := idlersAt_run (Function.update (fun _ => 0) 0 (0 + 255)) (t := 1) (by decide) 255
    (by simp)
  have h2 := idlersAt_run (Function.update (Function.update (fun _ => 0) 0 (0 + 255)) 1 (0 + 255))
    (t := 2) (by decide) 2 (by simp)
  have hstart : idlersAt (fun _ => 0) = startWorld threeIdlers := by
    refine World.ext (funext fun t => ?_) rfl
    by_cases ht : threeIdlers.IsThread t <;>
      simp [idlersAt, startWorld, World.reset, ht, Thread.reset, World.zero]
  rw [hstart] at h0
  exact ⟨_, _, (h0.append h1).append h2, by
    simp only [List.length_append, List.length_replicate, Nat.reduceAdd, smashMaxDepth]⟩

/-- **The default depth cuts silently**: the search of three idle threads is cut, and returns
`max_depth_reached = 0`. -/
theorem threeIdlers_cut_silently :
    let cfg : Config := ⟨false, false, smashMaxDepth, none, false⟩
    let stack : Nat → Saved := fun _ => rootNode threeIdlers
    threeIdlers.Valid ∧ cfg.Plain ∧ (explore threeIdlers cfg stack).maxDepthReached = 0 ∧
      ¬ Untruncated threeIdlers (exploreSearch threeIdlers cfg stack).visits := by
  intro cfg stack
  have hv : threeIdlers.Valid := by decide +kernel
  have hp : cfg.Plain := ⟨rfl, rfl, Or.inl rfl, rfl⟩
  obtain ⟨s, w, hrun, hlen⟩ := idlers_long_run
  exact ⟨hv, hp, cut_silently hv hp (by decide) hrun (le_of_eq hlen.symm) stack⟩

end Smash
