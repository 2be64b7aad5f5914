import Smash.Lib.Scale
import Smash.Proof.History
import Smash.Proof.Relabel

/-!
# The search of a relabeled scenario

What the search looks at in a state does not change under a `Relabeling`: which threads are READY or DONE, whether a
check fails (`checkAll_relabel`), which next actions are dependent. So, with state caching off, the search of the
relabeled scenario goes the same way and reports the same: `relabel_explore`. (The hash of a snapshot does change: it
reads the resources in the order of their ids, and of a priority only the lowest eight bits.)

The two searches start from two memories full of zeros, not from a state and its relabeling. What differs is dead
(`SameWorld`), as for two replays with different pasts.
-/

set_option autoImplicit false

namespace Smash

variable {sc : Scenario} {ν : Relabeling sc}

/-! ## Verdicts without their texts -/

section verdicts

variable {α : Type}

theorem isSome_ite_congr {p q : Prop} [Decidable p] [Decidable q] {a b a' b' : Option α} (h : p ↔ q)
    (ha : p → a.isSome = a'.isSome) (hb : ¬ p → b.isSome = b'.isSome) :
    (if p then a else b).isSome = (if q then a' else b').isSome := by
  by_cases hp : p
  · rw [if_pos hp, if_pos (h.mp hp)]
    exact ha hp
  · rw [if_neg hp, if_neg (mt h.mpr hp)]
    exact hb hp

/-- A check that fails in both, with whatever messages, or goes on in both. -/
theorem isSome_check_congr {p q : Prop} [Decidable p] [Decidable q] {x y : α} {b b' : Option α} (h : p ↔ q)
    (hb : ¬ p → b.isSome = b'.isSome) : (if p then some x else b).isSome = (if q then some y else b').isSome :=
  isSome_ite_congr h (fun _ => rfl) hb

theorem isSome_findSome?_congr {β : Type} {l : List β} {f g : β → Option α}
    (h : ∀ b ∈ l, (f b).isSome = (g b).isSome) : (l.findSome? f).isSome = (l.findSome? g).isSome := by
  rw [Bool.eq_iff_iff, List.findSome?_isSome_iff, List.findSome?_isSome_iff]
  exact exists_congr fun b => and_congr_right fun hb => by rw [h b hb]

/-- A loop over the resources, in whatever order. -/
theorem isSome_resources {f g : Int → Option α} (h : ∀ r, sc.IsResource r → (g (ν.name r)).isSome = (f r).isSome) :
    ((sc.relabel ν).resourceIds.findSome? g).isSome = (sc.resourceIds.findSome? f).isSome := by
  rw [Bool.eq_iff_iff, List.findSome?_isSome_iff, List.findSome?_isSome_iff]
  constructor
  · rintro ⟨s, hs, hsome⟩
    obtain ⟨r, rfl⟩ := ν.name.surjective s
    have hr : sc.IsResource r := ν.isResource_name.mp (Scenario.mem_resourceIds.mp hs)
    exact ⟨r, Scenario.mem_resourceIds.mpr hr, h r hr ▸ hsome⟩
  · rintro ⟨r, hr, hsome⟩
    have hr := Scenario.mem_resourceIds.mp hr
    have hname : (sc.relabel ν).IsResource (ν.name r) := ν.isResource_name.mpr hr
    exact ⟨ν.name r, Scenario.mem_resourceIds.mpr hname, (h r hr).symm ▸ hsome⟩

end verdicts

/-! ## The relabeled scenario -/

/-- `smash_scenario_validate` looks at ranges, which the new names keep. -/
theorem valid_relabel (ν : Relabeling sc) (hv : sc.Valid) : (sc.relabel ν).Valid := by
  have hsame : (scenarioValidate (sc.relabel ν)).isSome = (scenarioValidate sc).isSome := by
    unfold scenarioValidate
    refine isSome_check_congr Iff.rfl fun _ => isSome_check_congr Iff.rfl fun _ => ?_
    refine isSome_findSome?_congr fun t _ => isSome_check_congr Iff.rfl fun _ => ?_
    refine isSome_findSome?_congr fun s _ => ?_
    exact isSome_check_congr (and_congr (not_congr ν.name_eq_none) ν.outside_name) fun _ => rfl
  have hnone : scenarioValidate sc = none := hv
  rw [hnone] at hsame
  exact Option.isNone_iff_eq_none.mp (by rw [← Option.not_isSome, hsame]; rfl)

theorem contained_relabel (ν : Relabeling sc) (hsc : sc.Contained) : (sc.relabel ν).Contained where
  valid := valid_relabel ν hsc.valid
  operand t ht pc a ha type htype := by
    rw [actionAt_relabel, Option.map_eq_some_iff] at ha
    obtain ⟨a, ha, rfl⟩ := ha
    obtain ⟨hr, hres⟩ := hsc.operand t ht pc a ha type htype
    refine ⟨ν.isResource_name.mpr hr, ?_⟩
    show sc.resTypes (ν.name.symm (ν.name a.resourceId)) = type
    rw [ν.name.symm_apply_apply, hres]
  named t ht pc a ha hneeds := by
    rw [actionAt_relabel, Option.map_eq_some_iff] at ha
    obtain ⟨a, ha, rfl⟩ := ha
    exact fun heq => hsc.named t ht pc a ha hneeds (ν.name_eq_none.mp heq)
  capacity r hr htype := hsc.capacity (ν.name.symm r) (ν.isResource_symm.mpr hr) htype

/-- A reset may be done before or after. -/
theorem reset_relabel (w : World) : (w.reset sc).relabel ν = (w.relabel ν).reset (sc.relabel ν) := by
  refine World.ext (funext fun t => ?_) (funext fun r => ?_)
  · show ((if sc.IsThread t then (w.threads t).reset sc t else w.threads t).relabel ν) =
      if sc.IsThread t then ((w.threads t).relabel ν).reset (sc.relabel ν) t else (w.threads t).relabel ν
    split
    · rename_i ht
      have hprio : (sc.relabel ν).priorities t = ν.priority (sc.priorities t) := if_pos ht
      unfold Thread.relabel Thread.reset
      simp only [ν.name_none, hprio]
      rfl
    · rfl
  · obtain ⟨r, rfl⟩ := ν.name.surjective r
    rw [relabel_resource]
    have hreset : ((w.relabel ν).reset (sc.relabel ν)).resources (ν.name r) =
        if sc.IsResource r then ((w.resources r).relabel ν).reset (sc.relabel ν) (ν.name r)
        else (w.resources r).relabel ν := by
      show (if sc.IsResource (ν.name r) then _ else _) = _
      rw [relabel_resource]
      simp only [ν.isResource_name]
    have hreset' : (w.reset sc).resources r =
        if sc.IsResource r then (w.resources r).reset sc r else w.resources r := rfl
    rw [hreset, hreset']
    split
    · unfold Resource.relabel Resource.reset Scenario.relabel
      simp only [ν.name.symm_apply_apply]
    · rfl

/-- A relabeled run is a run of the relabeled scenario. -/
theorem reach_relabel [hν : ν.Increasing] {w : World} (hw : (callSystem sc).Reach w) :
    (callSystem (sc.relabel ν)).Reach (w.relabel ν) := by
  induction hw with
  | init hi =>
    obtain ⟨before, rfl⟩ := hi
    exact .init ⟨before.relabel ν, reset_relabel before⟩
  | @step w _ t _ hst ih =>
    obtain ⟨ht, hok, rfl⟩ := hst
    have hstep := @executeStep_relabel sc ν hν w t
    refine .step ih ⟨ht, ?_, hstep.world.symm⟩
    have hfault := hstep.fault
    rw [hok] at hfault
    exact Option.isNone_iff_eq_none.mp (by rw [← Option.not_isSome, hfault]; rfl)

/-! ## What the search looks at -/

/-- `w'` is a relabeling of `w`, up to dead cells. -/
abbrev Alike (ν : Relabeling sc) (w w' : World) : Prop := SameWorld (sc.relabel ν) (w.relabel ν) w'

namespace Alike

variable {w w' : World} (h : Alike ν w w')
include h

theorem state {t : Int} (ht : sc.IsThread t) : (w'.threads t).state = (w.threads t).state := (h.thread t ht).state

theorem resource {r : Int} (hr : sc.IsResource r) :
    SameResource ((w.resources r).relabel ν) (w'.resources (ν.name r)) := by
  have hsame := SameWorld.resource h (ν.name r) (ν.isResource_name.mpr hr)
  rwa [relabel_resource] at hsame

theorem allDone : allDone (sc.relabel ν) w' = allDone sc w := by
  unfold Smash.allDone
  rw [Bool.eq_iff_iff, List.all_eq_true, List.all_eq_true]
  exact forall₂_congr fun i hi => by rw [h.state (Scenario.mem_threadIds.mp hi)]

theorem collectRunnable (max : Nat) : collectRunnable (sc.relabel ν) w' max = collectRunnable sc w max := by
  unfold Smash.collectRunnable
  refine congrArg (List.take max) (List.filter_congr fun i hi => ?_)
  rw [h.state (Scenario.mem_threadIds.mp hi)]

/-! ### The checks -/

/-- The loop over a queue finds the same waiter at fault, in other words. -/
theorem checkWaiters (kind kind' name name' : String) (blocked : ThreadState) {r : Int} (hr : sc.IsResource r) :
    (checkWaiters (sc.relabel ν) w' (ν.name r) kind' name' blocked).isSome
      = (checkWaiters sc w r kind name blocked).isSome := by
  have hres := h.resource hr
  have hcount : (w'.resources (ν.name r)).waiters.count = (w.resources r).waiters.count := hres.queue
  unfold Smash.checkWaiters
  dsimp only
  rw [hcount]
  refine isSome_findSome?_congr fun k hk => ?_
  have hcell : (w'.resources (ν.name r)).waiters.cell k = (w.resources r).waiters.cell k :=
    hres.waiter (List.mem_range.mp hk)
  rw [hcell]
  refine isSome_check_congr Iff.rfl fun hin => ?_
  -- A waiter that is no thread has been reported.
  have hthread : sc.IsThread ((w.resources r).waiters.cell k) := by
    have hcounts : (sc.relabel ν).threadCount = sc.threadCount := rfl
    unfold Scenario.IsThread
    omega
  rw [h.state hthread]
  exact isSome_check_congr Iff.rfl fun _ => rfl

theorem checkMutexIntegrity (hc : Crew sc w) :
    (checkMutexIntegrity (sc.relabel ν) w').isSome = (checkMutexIntegrity sc w).isSome := by
  refine isSome_resources fun r hr => ?_
  have hres := h.resource hr
  have htype : (w'.resources (ν.name r)).type = (w.resources r).type := hres.type
  have howner : (w'.resources (ν.name r)).owner = (w.resources r).owner := hres.owner
  have hcount : (w'.resources (ν.name r)).waiters.count = (w.resources r).waiters.count := hres.queue
  dsimp only
  rw [htype, howner, hcount]
  refine isSome_ite_congr Iff.rfl (fun _ => rfl) fun _ => isSome_check_congr Iff.rfl fun _ => ?_
  refine isSome_check_congr (and_congr_right fun h0 => ?_) fun _ => ?_
  · rw [h.state (hc.owner r hr h0)]
  refine isSome_check_congr Iff.rfl fun _ => isSome_check_congr Iff.rfl fun _ => ?_
  exact h.checkWaiters _ _ _ _ _ hr

theorem checkSemIntegrity : (checkSemIntegrity (sc.relabel ν) w').isSome = (checkSemIntegrity sc w).isSome := by
  refine isSome_resources fun r hr => ?_
  have hres := h.resource hr
  have htype : (w'.resources (ν.name r)).type = (w.resources r).type := hres.type
  have htokens : (w'.resources (ν.name r)).count = (w.resources r).count := hres.count
  have hcount : (w'.resources (ν.name r)).waiters.count = (w.resources r).waiters.count := hres.queue
  dsimp only
  rw [htype, htokens, hcount]
  refine isSome_ite_congr Iff.rfl (fun _ => rfl) fun _ => isSome_check_congr Iff.rfl fun _ => ?_
  refine isSome_check_congr Iff.rfl fun _ => isSome_check_congr Iff.rfl fun _ => ?_
  exact h.checkWaiters _ _ _ _ _ hr

/-- The check compares the priorities of a waiter and an owner. -/
theorem checkPriorityInversion [hν : ν.Increasing] (hc : Crew sc w) :
    (checkPriorityInversion (sc.relabel ν) w').isSome = (checkPriorityInversion sc w).isSome := by
  have hprio : ∀ t, sc.IsThread t → (w'.threads t).priority = ν.priority (w.threads t).priority :=
    fun t ht => (h.thread t ht).priority
  refine isSome_resources fun r hr => ?_
  have hres := h.resource hr
  have htype : (w'.resources (ν.name r)).type = (w.resources r).type := hres.type
  have howner : (w'.resources (ν.name r)).owner = (w.resources r).owner := hres.owner
  have hcount : (w'.resources (ν.name r)).waiters.count = (w.resources r).waiters.count := hres.queue
  dsimp only
  rw [htype, howner, hcount]
  refine isSome_ite_congr Iff.rfl (fun _ => rfl) fun howned => isSome_findSome?_congr fun k hk => ?_
  have hk := List.mem_range.mp hk
  have hcell : (w'.resources (ν.name r)).waiters.cell k = (w.resources r).waiters.cell k := hres.waiter hk
  have hwaiter : sc.IsThread ((w.resources r).waiters.cell k) := hc.waiter r hr _ (LiveArray.cell_mem hk)
  have hholder : sc.IsThread (w.resources r).owner := hc.owner r hr (not_lt.mp fun hneg => howned (.inr hneg))
  rw [hcell, hprio _ hwaiter, hprio _ hholder]
  exact isSome_check_congr ν.priority_lt fun _ => rfl

/-- The cells of a stack of owned mutexes are renamed one by one. -/
theorem checkOwnedMutexIntegrity :
    (checkOwnedMutexIntegrity (sc.relabel ν) w').isSome = (checkOwnedMutexIntegrity sc w).isSome := by
  refine isSome_findSome?_congr fun t ht => ?_
  have hthread := SameWorld.thread h t (Scenario.mem_threadIds.mp ht)
  have hcount : (w'.threads t).ownedMutexStack.count = (w.threads t).ownedMutexStack.count := hthread.held
  dsimp only
  rw [hcount]
  refine isSome_findSome?_congr fun k hk => ?_
  have hcell : (w'.threads t).ownedMutexStack.cell k = ν.name ((w.threads t).ownedMutexStack.cell k) :=
    LiveArray.cell_eq hthread.stack (List.mem_range.mp hk)
  rw [hcell]
  refine isSome_check_congr ν.outside_name fun hin => ?_
  have hr : sc.IsResource ((w.threads t).ownedMutexStack.cell k) := by
    have houtside := mt ν.outside_name.mpr hin
    unfold Scenario.IsResource
    omega
  have howner : (w'.resources (ν.name ((w.threads t).ownedMutexStack.cell k))).owner
      = (w.resources ((w.threads t).ownedMutexStack.cell k)).owner := (h.resource hr).owner
  rw [howner]
  exact isSome_check_congr Iff.rfl fun _ => rfl

theorem checkContextSafety : (checkContextSafety (sc.relabel ν) w').isSome = (checkContextSafety sc w).isSome := by
  refine isSome_findSome?_congr fun t ht => ?_
  have hthread := SameWorld.thread h t (Scenario.mem_threadIds.mp ht)
  have hlocks : (w'.threads t).sysLockDepth = (w.threads t).sysLockDepth := hthread.sysLockDepth
  have hisrs : (w'.threads t).isrDepth = (w.threads t).isrDepth := hthread.isrDepth
  dsimp only
  rw [h.state (Scenario.mem_threadIds.mp ht), hlocks, hisrs]

theorem checkStackDepth : (checkStackDepth (sc.relabel ν) w').isSome = (checkStackDepth sc w).isSome := by
  refine isSome_findSome?_congr fun t ht => ?_
  have hdepth : (w'.threads t).stackDepth = (w.threads t).stackDepth :=
    (SameWorld.thread h t (Scenario.mem_threadIds.mp ht)).stackDepth
  dsimp only
  rw [hdepth]
  refine isSome_ite_congr Iff.rfl (fun _ => rfl) fun _ => ?_
  exact isSome_check_congr Iff.rfl fun _ => rfl

/-- **The verdict is the same.** -/
theorem checkAll [hν : ν.Increasing] (hc : Crew sc w) :
    (checkAll (sc.relabel ν) w').isSome = (checkAll sc w).isSome := by
  refine isSome_findSome?_congr ?_
  simp only [List.forall_mem_cons, List.not_mem_nil, false_implies, implies_true, and_true]
  exact ⟨h.checkMutexIntegrity hc, h.checkSemIntegrity, h.checkOwnedMutexIntegrity, h.checkPriorityInversion hc,
    h.checkContextSafety, h.checkStackDepth⟩

/-! ### Dependence -/

theorem threadNextAction {t : Int} (ht : sc.IsThread t) :
    threadNextAction (sc.relabel ν) w' t = (threadNextAction sc w t).relabel ν := by
  have hpc : (w'.threads t).pc = (w.threads t).pc := (SameWorld.thread h t ht).pc
  unfold Smash.threadNextAction
  rw [hpc, actionAt_relabel]
  cases sc.actionAt t (w.threads t).pc with
  | none => simp [Action.relabel]
  | some a => rfl

/-- Two actions are dependent if they name one resource, under either names. -/
theorem nextDependent {p q : Int} (hp : sc.IsThread p) (hq : sc.IsThread q) :
    nextDependent (sc.relabel ν) w' p q = nextDependent sc w p q := by
  unfold Smash.nextDependent dependent
  rw [h.threadNextAction hp, h.threadNextAction hq]
  exact if_congr (or_congr (not_congr ν.name_inj) ν.name_neg) rfl rfl

theorem persistentSweep {runnable : List Int} (hrun : ∀ t ∈ runnable, sc.IsThread t) (set : Finset Int) :
    persistentSweep (sc.relabel ν) w' runnable set = persistentSweep sc w runnable set := by
  refine List.foldl_ext _ _ _ fun set q hq => ?_
  have hany : (runnable.any fun p => p ∈ set && Smash.nextDependent (sc.relabel ν) w' p q)
      = runnable.any fun p => p ∈ set && Smash.nextDependent sc w p q := by
    rw [Bool.eq_iff_iff, List.any_eq_true, List.any_eq_true]
    refine exists_congr fun p => and_congr_right fun hp => ?_
    rw [h.nextDependent (hrun p hp) (hrun q hq)]
  rw [hany]

theorem persistentLoop {runnable : List Int} (hrun : ∀ t ∈ runnable, sc.IsThread t) (fuel : Nat) (set : Finset Int) :
    persistentLoop (sc.relabel ν) w' runnable fuel set = persistentLoop sc w runnable fuel set := by
  induction fuel generalizing set with
  | zero => rfl
  | succ fuel ih =>
    rw [Smash.persistentLoop, Smash.persistentLoop, h.persistentSweep hrun]
    simp only [ih]

/-- So the persistent set is the same set of threads. -/
theorem computePersistentSet {runnable : List Int} (hrun : ∀ t ∈ runnable, sc.IsThread t) :
    computePersistentSet (sc.relabel ν) w' runnable = computePersistentSet sc w runnable := by
  cases runnable with
  | nil => rfl
  | cons first rest => exact h.persistentLoop hrun _ _

end Alike

/-! ## What the search carries along -/

def TraceEvent.what (e : TraceEvent) : Nat × EventType × Int × Int := (e.step, e.type, e.tid, e.resourceId)

def TraceEvent.relabeled (ν : Relabeling sc) (e : TraceEvent) : Nat × EventType × Int × Int :=
  (e.step, e.type, e.tid, ν.name e.resourceId)

/-- The same schedule, and the same events of the relabeled resources. -/
structure Trace.Relabeled (ν : Relabeling sc) (trace trace' : Trace) : Prop where
  schedule : trace'.schedule.toList = trace.schedule.toList
  events : trace'.events.toList.map TraceEvent.what = trace.events.toList.map (TraceEvent.relabeled ν)
  truncated : trace'.truncated = trace.truncated

namespace Trace.Relabeled

variable {trace trace' : Trace}

theorem log (h : Trace.Relabeled ν trace trace') (step : Nat) {e e' : LogEntry} (he : e'.what = e.relabeled ν) :
    Trace.Relabeled ν (trace.log step e) (trace'.log step e') := by
  have hcount : trace'.events.count = trace.events.count := by
    have hlen := congrArg List.length h.events
    simpa using hlen
  have hnew : TraceEvent.what ⟨step, e'.type, e'.tid, e'.resourceId, e'.arg⟩
      = TraceEvent.relabeled ν ⟨step, e.type, e.tid, e.resourceId, e.arg⟩ := congrArg (Prod.mk step) he
  unfold Trace.log
  rw [hcount]
  split
  · exact ⟨h.schedule, h.events, rfl⟩
  · refine ⟨h.schedule, ?_, h.truncated⟩
    rw [LiveArray.toList_push, LiveArray.toList_push, List.map_append, List.map_append, h.events, List.map_singleton,
      List.map_singleton, hnew]

theorem logAll (h : Trace.Relabeled ν trace trace') (step : Nat) {es es' : List LogEntry}
    (he : es'.map LogEntry.what = es.map (LogEntry.relabeled ν)) :
    Trace.Relabeled ν (trace.logAll step es) (trace'.logAll step es') := by
  induction es generalizing es' trace trace' with
  | nil =>
    obtain rfl := List.map_eq_nil_iff.mp he
    exact h
  | cons e es ih =>
    cases es' with
    | nil => exact absurd he (by simp)
    | cons e' es' =>
      obtain ⟨hhead, htail⟩ := List.cons.inj he
      exact ih (h.log step hhead) htail

/-- An entry of the schedule is a thread, and keeps its id. -/
theorem push (h : Trace.Relabeled ν trace trace') (t : Int) :
    Trace.Relabeled ν { trace with schedule := trace.schedule.push t }
      { trace' with schedule := trace'.schedule.push t } :=
  ⟨LiveArray.same_push h.schedule t, h.events, h.truncated⟩

end Trace.Relabeled

/-- The same node, relabeled. -/
structure Saved.Relabeled (ν : Relabeling sc) (n n' : Saved) : Prop where
  world : Alike ν n.world n'.world
  trace : Trace.Relabeled ν n.trace n'.trace
  stepCounter : n'.stepCounter = n.stepCounter

section step

variable [hν : ν.Increasing] (hsc : sc.Contained) {w w' : World} (hw : (callSystem sc).Reach w) {t : Int}
  (ht : sc.IsThread t)
include hsc hw ht

/-- A call does the same up to dead cells, and that is the relabeled call. -/
theorem Alike.executeStep (h : Alike ν w w') :
    Alike ν (w.executeStep sc t).world (w'.executeStep (sc.relabel ν) t).world ∧
      (w'.executeStep (sc.relabel ν) t).log.map LogEntry.what
        = (w.executeStep sc t).log.map (LogEntry.relabeled ν) ∧
      (w'.executeStep (sc.relabel ν) t).fault.isSome = (w.executeStep sc t).fault.isSome ∧
      (w'.executeStep (sc.relabel ν) t).counted = (w.executeStep sc t).counted := by
  have hsc' := contained_relabel ν hsc
  have hw' : (callSystem (sc.relabel ν)).Reach (w.relabel ν) := reach_relabel hw
  have hsame := SameWorld.executeStep h (crew_reach hw') (hsc'.fits hw') ht
    (hsc'.callSafe hw' (hsc'.fits hw') ht)
  have hstep := @executeStep_relabel sc ν hν w t
  refine ⟨?_, ?_, ?_, ?_⟩
  · unfold Alike
    rw [← hstep.world]
    exact hsame.world
  · rw [hsame.log]
    exact hstep.log
  · rw [hsame.fault]
    exact hstep.fault
  · rw [hsame.counted]
    exact hstep.counted

theorem Alike.stepFails (h : Alike ν w w') : stepFails (sc.relabel ν) w' t = stepFails sc w t := by
  obtain ⟨hworld, _, hfault, _⟩ := h.executeStep hsc hw ht
  unfold Smash.stepFails
  rw [hfault]
  cases hok : (w.executeStep sc t).fault with
  | some msg => rfl
  | none =>
    -- The state is one that is reached, and its queues hold threads.
    rw [hworld.checkAll (crew_reach (.step hw ⟨ht, hok, rfl⟩))]

theorem Saved.Relabeled.step {n n' : Saved} (h : n.Relabeled ν n') (hn : n.world = w) :
    (n.step sc t).Relabeled ν (n'.step (sc.relabel ν) t) := by
  subst hn
  obtain ⟨hworld, hlog, _, hcounted⟩ := h.world.executeStep hsc hw ht
  have hcount : n'.trace.schedule.count = n.trace.schedule.count := LiveArray.count_eq h.trace.schedule
  unfold Saved.step
  dsimp only
  rw [hcount, hcounted, h.stepCounter]
  refine ⟨hworld, ?_, rfl⟩
  dsimp only
  split
  · exact (h.trace.push t).logAll _ hlog
  · exact h.trace.logAll _ hlog

end step

theorem isSome_of_rel {α β : Type} {r : α → β → Prop} {a : Option α} {b : Option β} (h : Option.Rel r a b) :
    b.isSome = a.isSome := by
  cases h with
  | some _ => rfl
  | none => rfl

/-- The same on the books: the counters, what became of which schedule, and the trace of the first bug. -/
structure Ledger.Relabeled (ν : Relabeling sc) (l l' : Ledger) : Prop where
  fields : l' = { l with
    result := { l.result with failingTrace := l'.result.failingTrace }
    table := l'.table
    visits := l'.visits }
  trace : Option.Rel (Trace.Relabeled ν) l.result.failingTrace l'.result.failingTrace
  visits : (l'.visits.map fun v => (v.kind, v.schedule)) = l.visits.map fun v => (v.kind, v.schedule)

namespace Ledger.Relabeled

variable {l l' : Ledger} {n n' : Saved}

/-- A change to what the two have in common. -/
theorem map (h : l.Relabeled ν l') (f : Ledger → Ledger)
    (hf : ∀ (l : Ledger) tr tb vs, f { l with result := { l.result with failingTrace := tr }, table := tb, visits := vs }
      = { f l with result := { (f l).result with failingTrace := tr }, table := tb, visits := vs }) :
    (f l).Relabeled ν (f l') := by
  have hself : f l = { f l with
      result := { (f l).result with failingTrace := l.result.failingTrace }, table := l.table, visits := l.visits } :=
    hf l l.result.failingTrace l.table l.visits
  have hother : f l' = { f l with
      result := { (f l).result with failingTrace := l'.result.failingTrace }
      table := l'.table
      visits := l'.visits } := (congrArg f h.fields).trans (hf l _ _ _)
  refine ⟨?_, ?_, ?_⟩
  · rw [hother]
  · rw [hself, hother]
    exact h.trace
  · rw [hself, hother]
    exact h.visits

theorem visit (h : l.Relabeled ν l') (hn : n.Relabeled ν n') (kind : VisitKind) :
    (l.visit n kind).Relabeled ν (l'.visit n' kind) := by
  have hschedule : n'.schedule = n.schedule := hn.trace.schedule
  refine ⟨?_, h.trace, ?_⟩
  · unfold Ledger.visit
    rw [h.fields]
  · unfold Ledger.visit
    rw [List.map_append, List.map_append, h.visits, List.map_singleton, List.map_singleton, hschedule]

/-- The first trace is kept in both searches, or in neither. -/
theorem keepTrace (h : l.Relabeled ν l') {trace trace' : Trace} (ht : Trace.Relabeled ν trace trace') :
    (l.keepTrace trace).Relabeled ν (l'.keepTrace trace') := by
  refine ⟨?_, ?_, h.visits⟩
  · unfold Ledger.keepTrace
    rw [h.fields]
  · show Option.Rel _ (l.result.failingTrace.or (some trace)) (l'.result.failingTrace.or (some trace'))
    have hkept := h.trace
    revert hkept
    cases l.result.failingTrace <;> cases l'.result.failingTrace <;> intro hkept
    · exact .some ht
    · cases hkept
    · cases hkept
    · exact hkept

theorem countInterleaving (h : l.Relabeled ν l') (hn : n.Relabeled ν n') :
    (l.countInterleaving n).Relabeled ν (l'.countInterleaving n') :=
  (h.visit hn .interleaving).map
    (fun l => { l with result := { l.result with interleavings := l.result.interleavings + 1 } }) fun _ _ _ _ => rfl

theorem reportDeadlock (h : l.Relabeled ν l') (hn : n.Relabeled ν n') :
    (l.reportDeadlock n).Relabeled ν (l'.reportDeadlock n') := by
  have hcounted := (h.visit hn .deadlock).map
    (fun l => { l with result := { l.result with deadlocks := l.result.deadlocks + 1 } }) fun _ _ _ _ => rfl
  have hlogged := hn.trace.log n.stepCounter (@map_what_none sc ν [⟨.deadlock, -1, -1, 0⟩] (by simp) |> List.cons.inj).1
  unfold Ledger.reportDeadlock
  rw [hn.stepCounter]
  exact hcounted.keepTrace hlogged

theorem reportViolation (h : l.Relabeled ν l') (hn : n.Relabeled ν n') :
    (l.reportViolation n).Relabeled ν (l'.reportViolation n') :=
  ((h.visit hn .violation).map
    (fun l => { l with result := { l.result with violations := l.result.violations + 1 } })
    fun _ _ _ _ => rfl).keepTrace hn.trace

theorem reportDepth (h : l.Relabeled ν l') (hn : n.Relabeled ν n') (depth : Nat) :
    (l.reportDepth n depth).Relabeled ν (l'.reportDepth n' depth) :=
  (h.visit hn .depthLimit).map
    (fun l => { l with maxDepthReached := if l.maxDepthReached < depth then depth else l.maxDepthReached })
    fun _ _ _ _ => rfl

theorem countState (h : l.Relabeled ν l') (hn : n.Relabeled ν n') :
    (l.countState n).Relabeled ν (l'.countState n') :=
  (h.visit hn .expanded).map
    (fun l => { l with result := { l.result with states := l.result.states + 1 } }) fun _ _ _ _ => rfl

theorem countPruned (h : l.Relabeled ν l') (cfg : Config) (depth : Nat) (t : Int) :
    (l.countPruned cfg depth t).Relabeled ν (l'.countPruned cfg depth t) :=
  h.map (fun l => l.countPruned cfg depth t) fun l _ _ _ => by
    unfold Ledger.countPruned
    by_cases hslept : (cfg.enableDpor && l.dpor.sleepContains depth t) = true
    · simp only [if_pos hslept]
    · simp only [if_neg hslept]

theorem sleep (h : l.Relabeled ν l') (cfg : Config) (depth : Nat) (t : Int) :
    (l.sleep cfg depth t).Relabeled ν (l'.sleep cfg depth t) :=
  h.map (fun l => l.sleep cfg depth t) fun _ _ _ _ => by
    unfold Ledger.sleep
    split
    · rfl
    · rfl

theorem propagate (h : l.Relabeled ν l') (cfg : Config) (depth : Nat) (runnable : List Int) :
    (l.propagate cfg depth runnable).Relabeled ν (l'.propagate cfg depth runnable) :=
  h.map (fun l => l.propagate cfg depth runnable) fun _ _ _ _ => by
    unfold Ledger.propagate
    split
    · rfl
    · rfl

theorem stopped (h : l.Relabeled ν l') (cfg : Config) : l'.stopped cfg = l.stopped cfg := by
  unfold Ledger.stopped
  rw [isSome_of_rel h.trace]

theorem enough (h : l.Relabeled ν l') (cfg : Config) : l'.enough cfg = l.enough cfg := by
  have hcount : l'.result.interleavings = l.result.interleavings := by rw [h.fields]
  unfold Ledger.enough
  rw [hcount]

theorem dpor (h : l.Relabeled ν l') : l'.dpor = l.dpor := by rw [h.fields]

end Ledger.Relabeled

/-! ## The walk -/

section walk

variable [hν : ν.Increasing] (hsc : sc.Contained) {cfg : Config}
include hsc

/-- The loop over the threads of a node: it tries, fails and prunes alike. -/
theorem walkLoop_relabel {recurse recurse' : Saved → Ledger → Ledger} {depth : Nat}
    (hrec : ∀ {m m' l l'}, (callSystem sc).Reach m.world → m.Relabeled ν m' → l.Relabeled ν l' →
      (recurse m l).Relabeled ν (recurse' m' l')) {n n' : Saved} (hw : (callSystem sc).Reach n.world)
    (hn : n.Relabeled ν n') (tried : Finset Int) {rest : List Int} (hrest : ∀ t ∈ rest, sc.IsThread t)
    {l l' : Ledger} (hl : l.Relabeled ν l') :
    (walkLoop sc cfg recurse depth n tried rest l).Relabeled ν
      (walkLoop (sc.relabel ν) cfg recurse' depth n' tried rest l') := by
  induction rest generalizing l l' with
  | nil => exact hl
  | cons t rest ih =>
    obtain ⟨ht, hrest⟩ := List.forall_mem_cons.mp hrest
    have hbelow := hn.step hsc hw ht rfl
    have hslept := hl.sleep cfg depth t
    rw [walkLoop, walkLoop, hn.world.stepFails hsc hw ht, hn.world.collectRunnable]
    split
    · exact ih hrest (hl.countPruned cfg depth t)
    dsimp only
    split
    · split
      · exact hslept.reportViolation hbelow
      · exact ih hrest (hslept.reportViolation hbelow)
    · rename_i hpasses
      have hok : (n.world.executeStep sc t).fault = none := by
        rw [stepFails, Bool.or_eq_true, not_or] at hpasses
        simpa using hpasses.1
      have hback := (hrec (.step hw ⟨ht, hok, rfl⟩) hbelow hslept).propagate cfg depth
        (collectRunnable sc n.world smashMaxThreads)
      rw [hback.stopped]
      split
      · exact hback
      · exact ih hrest hback

/-- **The walk of the relabeled scenario keeps the same books**, when no state is looked up in the table. -/
theorem walk_relabel (hcache : cfg.enableStateCaching = false) (room depth : Nat) {n n' : Saved}
    (hw : (callSystem sc).Reach n.world) (hn : n.Relabeled ν n') {l l' : Ledger} (hl : l.Relabeled ν l') :
    (walk sc cfg room depth n l).Relabeled ν (walk (sc.relabel ν) cfg room depth n' l') := by
  induction room generalizing depth n n' l l' with
  | zero =>
    rw [walk, walk, hl.stopped, hl.enough]
    split
    · exact hl
    · exact hl.visit hn .hardGuard
  | succ room ih =>
    have hrun : ∀ t ∈ collectRunnable sc n.world smashMaxThreads, sc.IsThread t :=
      fun t ht => ((mem_collectRunnable hsc.valid).mp ht).1
    have hmiss : ∀ (s : Scenario) (l : Ledger) (w : World), l.cacheHit s cfg w = false := fun s l w => by
      simp [Ledger.cacheHit, hcache]
    have hmark : ∀ (s : Scenario) (l : Ledger) (w : World), l.cacheMark s cfg w = l := fun s l w => by
      simp [Ledger.cacheMark, hcache]
    have hcounted := hl.countState hn
    have htried : (l'.countState n').tried (sc.relabel ν) cfg depth n'.world
        = (l.countState n).tried sc cfg depth n.world := by
      unfold Ledger.tried
      dsimp only
      rw [hn.world.collectRunnable, hn.world.computePersistentSet hrun, hcounted.dpor]
    rw [walk, walk, hl.stopped, hl.enough]
    split
    · exact hl
    split
    · exact hl.reportDepth hn depth
    unfold walkNode
    rw [hn.world.allDone, hn.world.collectRunnable]
    simp only [hmiss, hmark, Bool.false_eq_true, if_false]
    split
    · exact hl.countInterleaving hn
    split
    · exact hl.reportDeadlock hn
    · rw [htried]
      exact walkLoop_relabel hsc (fun hw hm hl => ih (depth + 1) hw hm hl) hw hn _ hrun hcounted

end walk

/-! ## The result -/

/-- The same counters; and both report no bug, or one on the same schedule, with the same events. -/
structure Result.Relabeled (ν : Relabeling sc) (r r' : Result) : Prop where
  counters : r' = { r with failingTrace := r'.failingTrace }
  failingTrace : Option.Rel (Trace.Relabeled ν) r.failingTrace r'.failingTrace

/-- The two searches start from states that differ in dead cells only. -/
theorem rootNode_relabel : (rootNode sc).Relabeled ν (rootNode (sc.relabel ν)) := by
  refine ⟨?_, ⟨rfl, rfl, rfl⟩, rfl⟩
  have hreset := (@reset_same (sc.relabel ν) { Engine.zero with world := World.zero.relabel ν } .zero).world
  have hstart : (startWorld sc).relabel ν = (World.zero.relabel ν).reset (sc.relabel ν) := reset_relabel World.zero
  unfold Alike
  show SameWorld (sc.relabel ν) ((startWorld sc).relabel ν) (startWorld (sc.relabel ν))
  rw [hstart]
  exact hreset

/-- The result, where the change of priorities is increasing on all numbers. -/
theorem relabeled_of_increasing (hsc : sc.Contained) (ν : Relabeling sc) [hν : ν.Increasing] {cfg : Config}
    (hcache : cfg.enableStateCaching = false) (stack stack' : Nat → Saved) :
    (explore sc cfg stack).Relabeled ν (explore (sc.relabel ν) cfg stack') := by
  have hinit : Ledger.init.Relabeled ν Ledger.init := ⟨rfl, .none, rfl⟩
  have hcache' : cfg.clamp.enableStateCaching = false := hcache
  have hwalk : (exploreLedger sc cfg).Relabeled ν (exploreLedger (sc.relabel ν) cfg) :=
    walk_relabel hsc hcache' smashMaxDepth 0 (.init ⟨World.zero, rfl⟩) rootNode_relabel hinit
  rw [explore_eq hsc.valid, explore_eq (valid_relabel ν hsc.valid)]
  refine ⟨?_, hwalk.trace⟩
  have hfields := hwalk.fields
  generalize exploreLedger (sc.relabel ν) cfg = l' at hfields ⊢
  rw [hfields]

/-! ## Priorities that keep their order on the threads -/

/-- A relabeling whose priorities increase on all numbers. -/
def Relabeling.everywhere {name : Equiv.Perm Int} (hname : ∀ r, ¬ sc.IsResource r → name r = r)
    (behind : Int → Int) {priority : Int → Int} (hlt : ∀ {p q : Int}, p < q → priority p < priority q) :
    Relabeling sc where
  name := name
  priority := priority
  behind := behind
  fixes := hname
  increasing _ _ := hlt

instance {name : Equiv.Perm Int} (hname : ∀ r, ¬ sc.IsResource r → name r = r) (behind : Int → Int)
    {priority : Int → Int} (hlt : ∀ {p q : Int}, p < q → priority p < priority q) :
    (Relabeling.everywhere hname behind hlt).Increasing := ⟨hlt⟩

/-- The scenario without new names. -/
theorem refl_fixes (r : Int) (_ : ¬ sc.IsResource r) : Equiv.refl Int r = r := rfl

/-- Where two changes of priorities come to the same on the threads, so do the scenarios. -/
theorem relabel_everywhere {a b : Int → Int} (ha : ∀ {p q : Int}, p < q → a p < a q)
    (hb : ∀ {p q : Int}, p < q → b p < b q)
    (hab : ∀ t, sc.IsThread t → a (sc.priorities t) = b (ν.priority (sc.priorities t))) :
    (sc.relabel ν).relabel (.everywhere refl_fixes ν.behind hb) = sc.relabel (.everywhere ν.fixes ν.behind ha) := by
  have hprio : ((sc.relabel ν).relabel (.everywhere refl_fixes ν.behind hb)).priorities
      = (sc.relabel (.everywhere ν.fixes ν.behind ha)).priorities := by
    funext t
    show (if sc.IsThread t then b (if sc.IsThread t then ν.priority (sc.priorities t) else ν.behind t)
      else ν.behind t) = if sc.IsThread t then a (sc.priorities t) else ν.behind t
    split
    · rename_i ht
      exact (hab t ht).symm
    · rfl
  calc (sc.relabel ν).relabel (.everywhere refl_fixes ν.behind hb)
      = { sc.relabel (.everywhere ν.fixes ν.behind ha) with
          priorities := ((sc.relabel ν).relabel (.everywhere refl_fixes ν.behind hb)).priorities } := rfl
    _ = sc.relabel (.everywhere ν.fixes ν.behind ha) := by rw [hprio]

section common

variable {up : Relabeling sc} {down : Relabeling (sc.relabel ν)} (hup : up.name = ν.name)
  (hdown : down.name = Equiv.refl Int)
include hup hdown

/-- Two traces that are relabeled to one. -/
theorem Trace.Relabeled.of_common {trace trace' common : Trace} (h : trace.Relabeled up common)
    (h' : trace'.Relabeled down common) : trace.Relabeled ν trace' where
  schedule := h'.schedule.symm.trans h.schedule
  truncated := h'.truncated.symm.trans h.truncated
  events := by
    have hsame : ∀ e : TraceEvent, e.relabeled down = e.what := fun e => by
      rw [TraceEvent.relabeled, hdown]
      rfl
    have hnamed : ∀ e : TraceEvent, e.relabeled up = e.relabeled ν := fun e => by
      rw [TraceEvent.relabeled, hup]
      rfl
    calc trace'.events.toList.map TraceEvent.what
        = trace'.events.toList.map (TraceEvent.relabeled down) := List.map_congr_left fun e _ => (hsame e).symm
      _ = trace.events.toList.map (TraceEvent.relabeled up) := h'.events.symm.trans h.events
      _ = trace.events.toList.map (TraceEvent.relabeled ν) := List.map_congr_left fun e _ => hnamed e

theorem Result.Relabeled.of_common {r r' common : Result} (h : r.Relabeled up common)
    (h' : r'.Relabeled down common) : r.Relabeled ν r' where
  counters := by
    have hsame := h'.counters.symm.trans h.counters
    calc r' = { { r' with failingTrace := common.failingTrace } with failingTrace := r'.failingTrace } := rfl
      _ = { { r with failingTrace := common.failingTrace } with failingTrace := r'.failingTrace } := by rw [hsame]
      _ = { r with failingTrace := r'.failingTrace } := rfl
  failingTrace := by
    have htrace := h.failingTrace
    have htrace' := h'.failingTrace
    generalize r.failingTrace = found at htrace ⊢
    generalize common.failingTrace = shared at htrace htrace'
    generalize r'.failingTrace = found' at htrace' ⊢
    cases htrace with
    | none =>
      cases htrace'
      exact .none
    | some hrel =>
      cases htrace' with
      | some hrel' => exact .some (hrel.of_common hup hdown hrel')

end common

/-- **What the resources are called, and how large the priorities are, does not matter.** Give the resources of a
scenario other ids and the threads other base priorities in the same order: without state caching, and whatever the
other options, `smash_explore` returns the same counters, and the trace of a bug has the same schedule and the same
events. -/
theorem relabel_explore (hsc : sc.Contained) (ν : Relabeling sc) {cfg : Config}
    (hcache : cfg.enableStateCaching = false) (stack stack' : Nat → Saved) :
    (explore sc cfg stack).Relabeled ν (explore (sc.relabel ν) cfg stack') := by
  have hlt : ∀ p ∈ sc.threadSet.image sc.priorities, ∀ q ∈ sc.threadSet.image sc.priorities,
      p < q → ν.priority p < ν.priority q := by
    intro p hp q hq
    obtain ⟨t, ht, rfl⟩ := Finset.mem_image.mp hp
    obtain ⟨u, hu, rfl⟩ := Finset.mem_image.mp hq
    exact ν.increasing (Scenario.mem_threadSet.mp ht) (Scenario.mem_threadSet.mp hu)
  -- Pull both scales apart until they agree: then the two scenarios are one.
  obtain ⟨a, b, ha, hb, hab⟩ := Scale.exists_common hlt
  have hcommon := @relabel_everywhere sc ν a b ha hb fun t ht =>
    hab _ (Finset.mem_image_of_mem _ (Scenario.mem_threadSet.mpr ht))
  have hup := relabeled_of_increasing hsc (.everywhere ν.fixes ν.behind ha) hcache stack stack
  have hdown := relabeled_of_increasing (contained_relabel ν hsc) (.everywhere refl_fixes ν.behind hb) hcache
    stack' stack
  rw [hcommon] at hdown
  exact @Result.Relabeled.of_common sc ν (.everywhere ν.fixes ν.behind ha) (.everywhere refl_fixes ν.behind hb)
    rfl rfl _ _ _ hup hdown

/-- The two mutexes of `multihopInheritance` change places, and the priorities 5, 10 and 20 become 1, 2 and 3. -/
def multihopRanked : Relabeling multihopInheritance where
  name := Equiv.swap 0 1
  priority p := if p ≤ 5 then 1 else if p ≤ 10 then 2 else 3
  behind _ := 0
  fixes r hr := Equiv.swap_apply_of_ne_of_ne (by rintro rfl; exact hr (by decide)) (by rintro rfl; exact hr (by decide))
  increasing {t u} ht hu := by
    have hall : ∀ t ∈ multihopInheritance.threadIds, ∀ u ∈ multihopInheritance.threadIds,
        multihopInheritance.priorities t < multihopInheritance.priorities u →
          (if multihopInheritance.priorities t ≤ 5 then (1 : Int) else
              if multihopInheritance.priorities t ≤ 10 then 2 else 3)
            < if multihopInheritance.priorities u ≤ 5 then 1 else
              if multihopInheritance.priorities u ≤ 10 then 2 else 3 := by decide
    exact hall t (Scenario.mem_threadIds.mpr ht) u (Scenario.mem_threadIds.mpr hu)

theorem multihopInheritance_contained : multihopInheritance.Contained where
  toMatching := multihopInheritance_core.toMatching
  named := @forall_actionAt multihopInheritance
    (fun _ a => a.type.needsResource = true → a.resourceId ≠ smashNoResource) (by decide)
  capacity r hr htype := by
    have hmutexes : ∀ r ∈ multihopInheritance.resourceIds, multihopInheritance.resTypes r ≠ .mailbox := by decide
    exact absurd htype (hmutexes r (Scenario.mem_resourceIds.mpr hr))

theorem relabel_explore_multihop :
    (explore multihopInheritance ⟨true, false, 64, none, false⟩ fun _ => rootNode multihopInheritance).Relabeled
      multihopRanked (explore (multihopInheritance.relabel multihopRanked) ⟨true, false, 64, none, false⟩
        fun _ => rootNode multihopInheritance) :=
  relabel_explore multihopInheritance_contained multihopRanked rfl _ _

end Smash
