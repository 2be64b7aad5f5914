import Smash.Proof.Step
import Smash.Proof.Walk

/-!
# What the search has seen

`WalkInv.walk` is the rule for the walk: a property of the ledger that every event of the search
keeps holds of the ledger it ends with. The events come with what is known of their node, and that
is a predicate the user chooses (`Ctx`), pushed down the tree by `child`.

Two instances hold for every configuration. `VisitOk`: every recorded node is where its schedule
leads, and its kind is the truth about it. `Booked`: the counters count the recorded nodes, and the
trace kept is that of the first bug.
-/

set_option autoImplicit false

namespace Smash

variable {sc : Scenario} {cfg : Config}

/-! ## The rule -/

/-- A property `I` of the ledger that the search keeps, under what `Ctx room depth` says of its
nodes. -/
structure WalkInv (sc : Scenario) (cfg : Config) (Ctx : Nat → Nat → Saved → Prop)
    (I : Ledger → Prop) : Prop where
  child : ∀ {room depth : Nat} {n : Saved} {t : Int}, Ctx (room + 1) depth n →
    sc.Ready n.world t → stepFails sc n.world t = false → Ctx room (depth + 1) (n.step sc t)
  hardGuard : ∀ {depth : Nat} {n : Saved} {l : Ledger}, Ctx 0 depth n → I l → I (l.visit n .hardGuard)
  depthLimit : ∀ {room depth : Nat} {n : Saved} {l : Ledger}, Ctx (room + 1) depth n →
    cfg.maxDepth ≤ depth → I l → I (l.reportDepth n depth)
  interleaving : ∀ {room depth : Nat} {n : Saved} {l : Ledger}, Ctx (room + 1) depth n →
    allDone sc n.world = true → I l → I (l.countInterleaving n)
  deadlock : ∀ {room depth : Nat} {n : Saved} {l : Ledger}, Ctx (room + 1) depth n →
    allDone sc n.world = false → Stuck sc n.world → I l → I (l.reportDeadlock n)
  cached : ∀ {room depth : Nat} {n : Saved} {l : Ledger}, Ctx (room + 1) depth n →
    ¬ Stuck sc n.world → l.cacheHit sc cfg n.world = true → I l → I (l.countCached n)
  expanded : ∀ {room depth : Nat} {n : Saved} {l : Ledger}, Ctx (room + 1) depth n →
    ¬ Stuck sc n.world → l.cacheHit sc cfg n.world = false → I l →
    I ((l.cacheMark sc cfg n.world).countState n)
  violation : ∀ {room depth : Nat} {n : Saved} {l : Ledger} {t : Int}, Ctx (room + 1) depth n →
    sc.Ready n.world t → stepFails sc n.world t = true → I l → I (l.reportViolation (n.step sc t))
  pruned : ∀ {depth : Nat} {l : Ledger} {t : Int}, I l → I (l.countPruned cfg depth t)
  sleep : ∀ {depth : Nat} {l : Ledger} {t : Int}, I l → I (l.sleep cfg depth t)
  propagate : ∀ {depth : Nat} {l : Ledger} {runnable : List Int}, I l →
    I (l.propagate cfg depth runnable)

section rule

variable {Ctx : Nat → Nat → Saved → Prop} {I : Ledger → Prop}

theorem WalkInv.loop (h : WalkInv sc cfg Ctx I) {recurse : Saved → Ledger → Ledger}
    {room depth : Nat} {n : Saved} (hn : Ctx (room + 1) depth n)
    (hrec : ∀ m l, Ctx room (depth + 1) m → I l → I (recurse m l)) (tried : Finset Int)
    (rest : List Int) (hrest : ∀ t ∈ rest, sc.Ready n.world t) (l : Ledger) (hl : I l) :
    I (walkLoop sc cfg recurse depth n tried rest l) := by
  induction rest generalizing l with
  | nil => exact hl
  | cons t rest ih =>
    have hready := hrest t List.mem_cons_self
    have ih := ih fun u hu => hrest u (List.mem_cons_of_mem _ hu)
    rw [walkLoop]
    by_cases htried : t ∉ tried
    · rw [if_pos htried]
      exact ih _ (h.pruned hl)
    rw [if_neg htried]
    by_cases hfail : stepFails sc n.world t = true
    · have hslept : I (l.sleep cfg depth t) := h.sleep hl
      have hrep := h.violation hn hready hfail hslept
      simp only [if_pos hfail]
      split
      · exact hrep
      · exact ih _ hrep
    · have hslept : I (l.sleep cfg depth t) := h.sleep hl
      have hback : I ((recurse (n.step sc t) (l.sleep cfg depth t)).propagate cfg depth
          (collectRunnable sc n.world smashMaxThreads)) :=
        h.propagate (hrec _ _ (h.child hn hready (by simpa using hfail)) hslept)
      simp only [if_neg hfail]
      split
      · exact hback
      · exact ih _ hback

theorem WalkInv.walk (h : WalkInv sc cfg Ctx I) (hv : sc.Valid) (room depth : Nat) (n : Saved)
    (l : Ledger) (hn : Ctx room depth n) (hl : I l) : I (walk sc cfg room depth n l) := by
  induction room generalizing depth n l with
  | zero =>
    rw [Smash.walk]
    split
    · exact hl
    · exact h.hardGuard hn hl
  | succ room ih =>
    rw [Smash.walk]
    split
    · exact hl
    split
    · exact h.depthLimit hn ‹_› hl
    unfold walkNode
    by_cases hdone : allDone sc n.world = true
    · rw [if_pos hdone]
      exact h.interleaving hn hdone hl
    rw [if_neg hdone]
    by_cases hstuck : collectRunnable sc n.world smashMaxThreads = []
    · rw [if_pos hstuck]
      exact h.deadlock hn (by simpa using hdone) ((collectRunnable_eq_nil hv).mp hstuck) hl
    rw [if_neg hstuck]
    have hgo : ¬ Stuck sc n.world := fun hs => hstuck ((collectRunnable_eq_nil hv).mpr hs)
    by_cases hcached : l.cacheHit sc cfg n.world = true
    · rw [if_pos hcached]
      exact h.cached hn hgo hcached hl
    · rw [if_neg hcached]
      exact h.loop hn (fun m l' hm hl' => ih (depth + 1) m l' hm hl') _ _
        (fun t ht => (mem_collectRunnable hv).mp ht) _
        (h.expanded hn hgo (by simpa using hcached) hl)

end rule

/-! ## Where the nodes are -/

/-- The node at `depth` is where its schedule leads. -/
structure AtRun (sc : Scenario) (room depth : Nat) (n : Saved) : Prop where
  run : CleanRun sc n.schedule n.world
  length : n.schedule.length = depth
  room : room + depth = smashMaxDepth

theorem schedule_step {n : Saved} (t : Int) (h : n.schedule.length < smashMaxDepth) :
    (n.step sc t).schedule = n.schedule ++ [t] := by
  have hcount : n.trace.schedule.count < smashMaxDepth := by
    simpa [Saved.schedule] using h
  simp [Saved.schedule, Saved.step, hcount]

theorem AtRun.schedule_step {room depth : Nat} {n : Saved} (h : AtRun sc (room + 1) depth n)
    (t : Int) : (n.step sc t).schedule = n.schedule ++ [t] :=
  Smash.schedule_step t (by have := h.length; have := h.room; omega)

theorem AtRun.child {room depth : Nat} {n : Saved} {t : Int} (h : AtRun sc (room + 1) depth n)
    (hready : sc.Ready n.world t) (hok : stepFails sc n.world t = false) :
    AtRun sc room (depth + 1) (n.step sc t) := by
  refine ⟨?_, ?_, by have := h.room; omega⟩
  · rw [h.schedule_step t]
    exact h.run.snoc ⟨hready, hok, rfl⟩
  · rw [h.schedule_step t]
    simp [h.length]

theorem atRun_root : AtRun sc smashMaxDepth 0 (rootNode sc) :=
  ⟨cleanRun_nil, rfl, rfl⟩

/-! ## Every visit is what it says -/

/-- The truth a visit of each kind records. -/
def VisitOk (sc : Scenario) (maxDepth : Int) (v : Visit) : Prop :=
  match v.kind with
  | .violation => ∃ s t w, v.schedule = s ++ [t] ∧ CleanRun sc s w ∧ sc.Ready w t ∧
      stepFails sc w t = true ∧ v.world = (w.executeStep sc t).world
  | .interleaving => CleanRun sc v.schedule v.world ∧ allDone sc v.world = true
  | .deadlock => CleanRun sc v.schedule v.world ∧ allDone sc v.world = false ∧ Stuck sc v.world ∧
      v.schedule.length < smashMaxDepth
  | .hardGuard => CleanRun sc v.schedule v.world ∧ v.schedule.length = smashMaxDepth
  | .depthLimit => CleanRun sc v.schedule v.world ∧ maxDepth ≤ v.schedule.length ∧
      v.schedule.length < smashMaxDepth
  | .cached => CleanRun sc v.schedule v.world ∧ ¬ Stuck sc v.world
  | .expanded => CleanRun sc v.schedule v.world ∧ ¬ Stuck sc v.world

/-! ## What the quiet events leave alone -/

/-- A thread that is passed over is counted in one of two counters. What reads neither does not change. -/
theorem countPruned_field {α : Type} (f : Ledger → α)
    (hf : ∀ l d s, f { l with result := { l.result with dporPruned := d, sleepPruned := s } } = f l)
    (l : Ledger) (depth : Nat) (t : Int) : f (l.countPruned cfg depth t) = f l := by
  unfold Ledger.countPruned
  split
  · exact hf l l.result.dporPruned _
  · exact hf l _ l.result.sleepPruned

@[simp] theorem visits_countPruned (l : Ledger) (depth : Nat) (t : Int) :
    (l.countPruned cfg depth t).visits = l.visits :=
  countPruned_field (·.visits) (fun _ _ _ => rfl) l depth t

@[simp] theorem dpor_countPruned (l : Ledger) (depth : Nat) (t : Int) :
    (l.countPruned cfg depth t).dpor = l.dpor :=
  countPruned_field (·.dpor) (fun _ _ _ => rfl) l depth t

@[simp] theorem interleavings_countPruned (l : Ledger) (depth : Nat) (t : Int) :
    (l.countPruned cfg depth t).result.interleavings = l.result.interleavings :=
  countPruned_field (·.result.interleavings) (fun _ _ _ => rfl) l depth t

theorem failingTrace_countPruned (l : Ledger) (depth : Nat) (t : Int) :
    (l.countPruned cfg depth t).result.failingTrace = l.result.failingTrace :=
  countPruned_field (·.result.failingTrace) (fun _ _ _ => rfl) l depth t

@[simp] theorem result_sleep (l : Ledger) (depth : Nat) (t : Int) :
    (l.sleep cfg depth t).result = l.result := by
  unfold Ledger.sleep; split <;> rfl

@[simp] theorem result_propagate (l : Ledger) (depth : Nat) (runnable : List Int) :
    (l.propagate cfg depth runnable).result = l.result := by
  unfold Ledger.propagate; split <;> rfl

@[simp] theorem result_cacheMark (l : Ledger) (w : World) :
    (l.cacheMark sc cfg w).result = l.result := by
  unfold Ledger.cacheMark; split <;> rfl

@[simp] theorem visits_sleep (l : Ledger) (depth : Nat) (t : Int) :
    (l.sleep cfg depth t).visits = l.visits := by
  unfold Ledger.sleep; split <;> rfl

@[simp] theorem visits_propagate (l : Ledger) (depth : Nat) (runnable : List Int) :
    (l.propagate cfg depth runnable).visits = l.visits := by
  unfold Ledger.propagate; split <;> rfl

@[simp] theorem visits_cacheMark (l : Ledger) (w : World) :
    (l.cacheMark sc cfg w).visits = l.visits := by
  unfold Ledger.cacheMark; split <;> rfl

/-- One more visit, whatever else the event changes. -/
theorem forall_visits_append {P : Visit → Prop} {l l' : Ledger} {v : Visit}
    (h : ∀ u ∈ l.visits, P u) (heq : l'.visits = l.visits ++ [v]) (hv : P v) :
    ∀ u ∈ l'.visits, P u := by
  intro u hu
  rw [heq, List.mem_append, List.mem_singleton] at hu
  rcases hu with hu | rfl
  · exact h u hu
  · exact hv

theorem walkInv_visitOk (sc : Scenario) (cfg : Config) :
    WalkInv sc cfg (AtRun sc) fun l => ∀ v ∈ l.visits, VisitOk sc cfg.maxDepth v where
  child := AtRun.child
  hardGuard {_ n _} hn hl := forall_visits_append hl (v := ⟨.hardGuard, n.schedule, n.world⟩) rfl
    ⟨hn.run, by have := hn.length; have := hn.room; show n.schedule.length = _; omega⟩
  depthLimit {_ _ n _} hn hd hl := forall_visits_append hl (v := ⟨.depthLimit, n.schedule, n.world⟩) rfl
    ⟨hn.run, by
      have := hn.length; have := hn.room
      show cfg.maxDepth ≤ n.schedule.length ∧ n.schedule.length < smashMaxDepth
      omega⟩
  interleaving {_ _ n _} hn hd hl :=
    forall_visits_append hl (v := ⟨.interleaving, n.schedule, n.world⟩) rfl ⟨hn.run, hd⟩
  deadlock {_ _ n _} hn hd hs hl :=
    forall_visits_append hl (v := ⟨.deadlock, n.schedule, n.world⟩) rfl
      ⟨hn.run, hd, hs, by
        have := hn.length; have := hn.room
        show n.schedule.length < smashMaxDepth
        omega⟩
  cached {_ _ n _} hn hs _ hl :=
    forall_visits_append hl (v := ⟨.cached, n.schedule, n.world⟩) rfl ⟨hn.run, hs⟩
  expanded {_ _ n l} hn hs _ hl :=
    forall_visits_append hl (v := ⟨.expanded, n.schedule, n.world⟩)
      (show _ ++ _ = _ by rw [visits_cacheMark]) ⟨hn.run, hs⟩
  violation {_ _ n _ t} hn hready hfail hl :=
    forall_visits_append hl
      (v := ⟨.violation, (n.step sc t).schedule, (n.step sc t).world⟩) rfl
      ⟨n.schedule, t, n.world, hn.schedule_step t, hn.run, hready, hfail, rfl⟩
  pruned hl := by simpa using hl
  sleep hl := by simpa using hl
  propagate hl := by simpa using hl

/-- **Every node the search records is where its schedule leads, and of the kind it is recorded
as**, for every configuration. -/
theorem exploreLedger_visitOk (hv : sc.Valid) (cfg : Config) :
    ∀ v ∈ (exploreLedger sc cfg).visits, VisitOk sc cfg.clamp.maxDepth v :=
  (walkInv_visitOk sc cfg.clamp).walk hv _ _ _ _ atRun_root (by simp [Ledger.init])

/-! ## The counters count the visits -/

/-- A deadlock or a violation. -/
def Visit.isBug (v : Visit) : Bool := v.kind = .deadlock || v.kind = .violation

/-- How often the ledger has seen a kind. -/
def Ledger.seen (l : Ledger) (k : VisitKind) : Nat := l.visits.countP fun v => v.kind = k

/-- The result's fields are determined by the visits. -/
structure Booked (l : Ledger) : Prop where
  interleavings : l.result.interleavings = l.seen .interleaving
  deadlocks : l.result.deadlocks = l.seen .deadlock
  violations : l.result.violations = l.seen .violation
  states : l.result.states = l.seen .expanded
  cachePruned : l.result.cachePruned = l.seen .cached
  failingTrace : l.result.failingTrace.map (·.schedule.toList)
    = (l.visits.find? Visit.isBug).map (·.schedule)
  maxDepthReached : l.maxDepthReached = 0 ↔ l.seen .depthLimit = 0

theorem seen_append {l l' : Ledger} {v : Visit} (h : l'.visits = l.visits ++ [v]) (k : VisitKind) :
    l'.seen k = l.seen k + if v.kind = k then 1 else 0 := by
  simp [Ledger.seen, h, List.countP_append, List.countP_singleton]

/-- One more visit, booked under its kind. -/
theorem Booked.visit {l l' : Ledger} {v : Visit} (hl : Booked l) (h : l'.visits = l.visits ++ [v])
    (hi : l'.result.interleavings = l.result.interleavings + if v.kind = .interleaving then 1 else 0)
    (hd : l'.result.deadlocks = l.result.deadlocks + if v.kind = .deadlock then 1 else 0)
    (hv : l'.result.violations = l.result.violations + if v.kind = .violation then 1 else 0)
    (hs : l'.result.states = l.result.states + if v.kind = .expanded then 1 else 0)
    (hc : l'.result.cachePruned = l.result.cachePruned + if v.kind = .cached then 1 else 0)
    (ht : l'.result.failingTrace.map (·.schedule.toList) =
      (l.result.failingTrace.map (·.schedule.toList)).or
        (if v.isBug then some v.schedule else none))
    (hm : l'.maxDepthReached = 0 ↔ l.maxDepthReached = 0 ∧ v.kind ≠ .depthLimit) : Booked l' where
  interleavings := by rw [hi, hl.interleavings, seen_append h]
  deadlocks := by rw [hd, hl.deadlocks, seen_append h]
  violations := by rw [hv, hl.violations, seen_append h]
  states := by rw [hs, hl.states, seen_append h]
  cachePruned := by rw [hc, hl.cachePruned, seen_append h]
  failingTrace := by
    rw [ht, hl.failingTrace, h, List.find?_append, Option.map_or]
    congr 1
    by_cases hb : v.isBug = true <;> simp [hb]
  maxDepthReached := by
    rw [hm, hl.maxDepthReached, seen_append h]
    by_cases hk : v.kind = .depthLimit <;> simp [hk]

/-- An event that adds no visit and moves none of the booked fields. -/
theorem Booked.same {l l' : Ledger} (hl : Booked l) (h : l'.visits = l.visits)
    (hi : l'.result.interleavings = l.result.interleavings)
    (hd : l'.result.deadlocks = l.result.deadlocks)
    (hv : l'.result.violations = l.result.violations) (hs : l'.result.states = l.result.states)
    (hc : l'.result.cachePruned = l.result.cachePruned)
    (ht : l'.result.failingTrace = l.result.failingTrace)
    (hm : l'.maxDepthReached = l.maxDepthReached) : Booked l' where
  interleavings := by rw [hi, hl.interleavings]; simp only [Ledger.seen, h]
  deadlocks := by rw [hd, hl.deadlocks]; simp only [Ledger.seen, h]
  violations := by rw [hv, hl.violations]; simp only [Ledger.seen, h]
  states := by rw [hs, hl.states]; simp only [Ledger.seen, h]
  cachePruned := by rw [hc, hl.cachePruned]; simp only [Ledger.seen, h]
  failingTrace := by rw [ht, hl.failingTrace, h]
  maxDepthReached := by rw [hm, hl.maxDepthReached]; simp only [Ledger.seen, h]

theorem Booked.cacheMark {l : Ledger} (hl : Booked l) (w : World) :
    Booked (l.cacheMark sc cfg w) := by
  unfold Ledger.cacheMark
  split
  · exact hl.same rfl rfl rfl rfl rfl rfl rfl rfl
  · exact hl

/-- `if (!result->failing_trace) …`, seen through the schedules. -/
theorem map_schedule_or (o : Option Trace) (tr : Trace) :
    (o.or (some tr)).map (·.schedule.toList)
      = (o.map (·.schedule.toList)).or (some tr.schedule.toList) := Option.map_or ..

theorem walkInv_booked (hmax : 0 < cfg.maxDepth) :
    WalkInv sc cfg (AtRun sc) Booked where
  child := AtRun.child
  hardGuard {_ n _} _ hl := hl.visit (v := ⟨.hardGuard, n.schedule, n.world⟩) rfl rfl rfl rfl rfl rfl
    (by simp [Visit.isBug, Ledger.visit]) (by simp [Ledger.visit])
  depthLimit {_ depth n l} _ hd hl :=
    hl.visit (v := ⟨.depthLimit, n.schedule, n.world⟩) rfl rfl rfl rfl rfl rfl
      (by simp [Visit.isBug, Ledger.visit, Ledger.reportDepth]) (by
        -- The depth is at least `max_depth`, so the mark it leaves is not zero.
        have hpos : 0 < depth := by omega
        simp only [Ledger.reportDepth, ne_eq, not_true_eq_false, and_false, iff_false]
        split <;> omega)
  interleaving {_ _ n _} _ _ hl :=
    hl.visit (v := ⟨.interleaving, n.schedule, n.world⟩) rfl rfl rfl rfl rfl rfl
      (by simp [Visit.isBug, Ledger.countInterleaving])
      (by simp [Ledger.visit, Ledger.countInterleaving])
  deadlock {_ _ n _} _ _ _ hl := by
    refine hl.visit (v := ⟨.deadlock, n.schedule, n.world⟩) rfl rfl rfl rfl rfl rfl ?_
      (by simp [Ledger.visit, Ledger.reportDeadlock, Ledger.keepTrace])
    refine (map_schedule_or _ _).trans ?_
    simp [Visit.isBug, Saved.schedule]
  cached {_ _ n _} _ _ _ hl := hl.visit (v := ⟨.cached, n.schedule, n.world⟩) rfl rfl rfl rfl rfl rfl
    (by simp [Visit.isBug, Ledger.countCached]) (by simp [Ledger.visit, Ledger.countCached])
  expanded {_ _ n _} _ _ _ hl :=
    (hl.cacheMark n.world).visit (v := ⟨.expanded, n.schedule, n.world⟩) rfl rfl rfl rfl rfl rfl
      (by simp [Visit.isBug, Ledger.countState]) (by simp [Ledger.visit, Ledger.countState])
  violation {_ _ n _ t} _ _ _ hl := by
    refine hl.visit (v := ⟨.violation, (n.step sc t).schedule, (n.step sc t).world⟩)
      rfl rfl rfl rfl rfl rfl ?_ (by simp [Ledger.visit, Ledger.reportViolation, Ledger.keepTrace])
    refine (map_schedule_or _ _).trans ?_
    simp [Visit.isBug, Saved.schedule]
  pruned hl := by
    unfold Ledger.countPruned
    split <;> exact hl.same rfl rfl rfl rfl rfl rfl rfl rfl
  sleep hl := by
    unfold Ledger.sleep
    split
    · exact hl.same rfl rfl rfl rfl rfl rfl rfl rfl
    · exact hl
  propagate hl := by
    unfold Ledger.propagate
    split
    · exact hl.same rfl rfl rfl rfl rfl rfl rfl rfl
    · exact hl

theorem Config.clamp_maxDepth_pos (cfg : Config) : 0 < cfg.clamp.maxDepth := by
  simp only [Config.clamp, smashMaxDepth]
  split <;> omega

theorem Config.clamp_maxDepth_le (cfg : Config) : cfg.clamp.maxDepth ≤ smashMaxDepth := by
  simp only [Config.clamp, smashMaxDepth]
  split <;> omega

/-- **The result is the tally of the visits.** -/
theorem exploreLedger_booked (hv : sc.Valid) (cfg : Config) : Booked (exploreLedger sc cfg) :=
  (walkInv_booked cfg.clamp_maxDepth_pos).walk hv _ _ _ _ atRun_root
    ⟨rfl, rfl, rfl, rfl, rfl, rfl, by simp [Ledger.init, Ledger.seen]⟩

end Smash
