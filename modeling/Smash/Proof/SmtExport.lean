import Smash.Proof.Completion

/-!
# The SMT export is sound

The steps of a run in the order of their completion meet every constraint that `smash_smt_export` prints
(`smtExport_sound`). A run of the engine is a run of `completionSystem`, whose guards hold because whoever
has locked a mutex owns it and because a count above zero was signalled; the constraints hold of the runs of
that machine.
-/

set_option autoImplicit false

namespace Smash

open OrderConstraints

variable {sc : Scenario}

/-! ## Scenarios of ordered steps -/

/-- Untimed locks and unlocks, semaphore waits and signals, `ACT_NOP` and `ACT_YIELD`. -/
def ActionType.ordered : ActionType → Bool
  | .mutexLock | .mutexUnlock | .semWait | .semSignal | .nop | .yield => true
  | _ => false

/-- A scenario of such actions, each on a resource of its type. -/
structure Scenario.Ordered (sc : Scenario) : Prop where
  only : ∀ t, sc.IsThread t → ∀ pc a, sc.actionAt t pc = some a → a.type.ordered = true
  operand : ∀ t, sc.IsThread t → ∀ pc a, sc.actionAt t pc = some a →
    ∀ type, a.type.operand = some type →
      sc.IsResource a.resourceId ∧ sc.resTypes a.resourceId = type

theorem Scenario.Ordered.core (ho : sc.Ordered) (hv : sc.Valid) : sc.Core where
  valid := hv
  operand := ho.operand
  core t ht pc a hat := by
    have honly := ho.only t ht pc a hat
    cases htype : a.type <;> simp_all [ActionType.ordered, ActionType.core]
  lifecycle t ht pc a hat htype := by
    have honly := ho.only t ht pc a hat
    rcases htype with htype | htype <;> (rw [htype] at honly; exact absurd honly (by decide))

/-! ## The steps of a run -/

/-- The steps that a call for `tid` completes: that of `tid` first, then that of the thread it wakes. -/
def completed (sc : Scenario) (w w' : World) (tid : Int) : List StepVar :=
  (tid :: sc.threadIds.filter (· ≠ tid)).filterMap fun t =>
    if w.pcs t < w'.pcs t then some ⟨t, w.pcs t⟩ else none

/-- The steps that calls for `ts` complete, in the order of their completion. -/
def completions (sc : Scenario) (w : World) : List Int → List StepVar
  | [] => []
  | t :: ts =>
    completed sc w (w.executeStep sc t).world t ++ completions sc (w.executeStep sc t).world ts

theorem filterMap_eq_nil_of_none {α β : Type} {l : List α} {f : α → Option β}
    (h : ∀ x ∈ l, f x = none) : l.filterMap f = [] := List.filterMap_eq_nil_iff.mpr h

/-- Only one element is kept. -/
theorem filterMap_eq_singleton {α β : Type} {l : List α} {f : α → Option β} {u : α} {y : β}
    (hnodup : l.Nodup) (hu : u ∈ l) (hsome : f u = some y) (hnone : ∀ x ∈ l, x ≠ u → f x = none) :
    l.filterMap f = [y] := by
  obtain ⟨front, back, rfl⟩ := List.append_of_mem hu
  obtain ⟨_, hrest, hdisjoint⟩ := List.nodup_append.mp hnodup
  have hfront : ∀ x ∈ front, f x = none := fun x hx =>
    hnone x (by simp [hx]) fun heq => hdisjoint x hx u (by simp) heq
  have hback : ∀ x ∈ back, f x = none := fun x hx =>
    hnone x (by simp [hx]) fun heq => (List.nodup_cons.mp hrest).1 (heq ▸ hx)
  rw [List.filterMap_append, filterMap_eq_nil_of_none hfront, List.nil_append, List.filterMap_cons,
    hsome, filterMap_eq_nil_of_none hback]

theorem completed_still {w w' : World} {tid : Int} (h : w'.pcs = w.pcs) : completed sc w w' tid = [] :=
  filterMap_eq_nil_of_none fun t _ => by rw [h, if_neg (Nat.lt_irrefl _)]

theorem completed_own {w w' : World} {tid : Int} (h : w'.pcs = nextPcs w.pcs tid) :
    completed sc w w' tid = [⟨tid, w.pcs tid⟩] := by
  have hothers : ∀ t ∈ sc.threadIds.filter (· ≠ tid),
      (if w.pcs t < w'.pcs t then some (⟨t, w.pcs t⟩ : StepVar) else none) = none := by
    intro t ht
    have hne : t ≠ tid := by simpa using (List.mem_filter.mp ht).2
    rw [h, nextPcs_of_ne _ hne, if_neg (Nat.lt_irrefl _)]
  unfold completed
  rw [List.filterMap_cons, filterMap_eq_nil_of_none hothers, h, nextPcs_self,
    if_pos (Nat.lt_succ_self _)]

theorem completed_pair {w w' : World} {tid u : Int} (hu : sc.IsThread u) (hne : u ≠ tid)
    (h : w'.pcs = nextPcs (nextPcs w.pcs tid) u) :
    completed sc w w' tid = [⟨tid, w.pcs tid⟩, ⟨u, w.pcs u⟩] := by
  have hothers : (sc.threadIds.filter (· ≠ tid)).filterMap (fun t =>
      if w.pcs t < w'.pcs t then some (⟨t, w.pcs t⟩ : StepVar) else none) = [⟨u, w.pcs u⟩] := by
    refine filterMap_eq_singleton ((nodup_upTo _).filter _)
      (List.mem_filter.mpr ⟨Scenario.mem_threadIds.mpr hu, by simpa using hne⟩) ?_ fun t ht htu => ?_
    · rw [h, nextPcs_self, nextPcs_of_ne _ hne, if_pos (Nat.lt_succ_self _)]
    · have htid : t ≠ tid := by simpa using (List.mem_filter.mp ht).2
      rw [h, nextPcs_of_ne _ htu, nextPcs_of_ne _ htid, if_neg (Nat.lt_irrefl _)]
  unfold completed
  rw [List.filterMap_cons, hothers, h, nextPcs_of_ne _ (Ne.symm hne), nextPcs_self,
    if_pos (Nat.lt_succ_self _)]

/-! ## A call is a few completions -/

/-- One completion. -/
theorem complete_step {p : Int → Nat} {t : Int} (ht : sc.IsThread t) {a : Action}
    (hat : sc.actionAt t (p t) = some a) (hcompletes : Completes sc p ⟨t, p t⟩) :
    (completionSystem sc).step p ⟨t, p t⟩ (nextPcs p t) :=
  ⟨⟨ht, (steps_of_actionAt hat).2⟩, rfl, hcompletes, rfl⟩

/-- A step that is no lock and no wait completes whenever it runs. -/
theorem Completes.of_free {p : Int → Nat} {t : Int} {a : Action} (hat : sc.actionAt t (p t) = some a)
    (hlock : a.type ≠ .mutexLock) (hwait : a.type ≠ .semWait) : Completes sc p ⟨t, p t⟩ where
  lock hk := by
    rw [(steps_of_actionAt hat).1] at hk
    exact absurd hk hlock
  wait r hw := by
    have hk := hw.wait
    rw [(steps_of_actionAt hat).1] at hk
    exact absurd hk hwait

theorem Completes.of_lock {p : Int → Nat} {t : Int} {a : Action} (hat : sc.actionAt t (p t) = some a)
    (hk : a.type = .mutexLock)
    (hfree : ∀ u, sc.IsThread u → u ≠ t → ¬ Holds sc p u a.resourceId) : Completes sc p ⟨t, p t⟩ where
  lock _ u hu hne := by
    rw [(steps_of_actionAt hat).1]
    exact hfree u hu hne
  wait r hw := by
    have hwait := hw.wait
    rw [(steps_of_actionAt hat).1, hk] at hwait
    exact absurd hwait (by decide)

theorem Completes.of_wait {p : Int → Nat} {t : Int} {a : Action} (hat : sc.actionAt t (p t) = some a)
    (hk : a.type = .semWait) (hsignalled : sc.semInit a.resourceId ≤ 0 →
      ∃ sig, SignalStep sc a.resourceId sig ∧ sig.step < p sig.tid) : Completes sc p ⟨t, p t⟩ where
  lock hlock := by
    rw [(steps_of_actionAt hat).1, hk] at hlock
    exact absurd hlock (by decide)
  wait r hw := by
    have hr := hw.resource
    rw [(steps_of_actionAt hat).1] at hr
    subst hr
    exact hsignalled hw.empty

/-- A semaphore that was empty and has a unit has been signalled. -/
theorem exists_signal (hc : sc.Core) {w : World} (hw : (callSystem sc).Reach w) {r : Int}
    (hr : sc.IsResource r) (hunit : 0 < (w.resources r).count) (hempty : sc.semInit r ≤ 0) :
    ∃ sig, SignalStep sc r sig ∧ sig.step < w.pcs sig.tid := by
  have htokens := reach_tokens hc hw hr
  unfold Tokens Scenario.balance at htokens
  have hpassed : 0 < sc.passed .semSignal r w.pcs := by omega
  obtain ⟨t, ht, hcount⟩ := Finset.exists_ne_zero_of_sum_ne_zero (Nat.pos_iff_ne_zero.mp hpassed)
  obtain ⟨s, hs, hruns⟩ := List.countP_pos_iff.mp (Nat.pos_of_ne_zero hcount)
  obtain ⟨a, hat, hruns⟩ := (Option.any_eq_true _ _).mp hruns
  obtain ⟨htype, hres⟩ := of_decide_eq_true hruns
  obtain ⟨hstep, hlt⟩ := steps_of_actionAt hat
  exact ⟨⟨t, s⟩, ⟨⟨Scenario.mem_threadSet.mp ht, hlt⟩, by rw [hstep]; exact htype,
    by rw [hstep]; exact hres⟩, List.mem_range.mp hs⟩

/-- **A call of the engine is a run of the machine.** -/
theorem call_completes (hc : sc.Core) {w w' : World} (hw : (callSystem sc).Reach w) {tid : Int}
    (hst : (callSystem sc).step w tid w') :
    (completionSystem sc).Run w.pcs (completed sc w w' tid) w'.pcs := by
  have htid := hst.1
  have hheld := reach_heldOwned hc hw
  cases step_callEffect hc hw hst with
  | still hpcs =>
    rw [completed_still hpcs, hpcs]
    exact .nil _
  | pass hat hlock _ hwait hpcs =>
    rw [completed_own hpcs, hpcs]
    exact .single (complete_step htid hat (.of_free hat hlock hwait))
  | @take a hat hk hunit hpcs =>
    rw [completed_own hpcs, hpcs]
    have hr := (hc.operand tid htid _ a hat .semaphore (by rw [hk]; rfl)).1
    exact .single (complete_step htid hat (.of_wait hat hk (exists_signal hc hw hr hunit)))
  | @lock a hat hk hfree hpcs =>
    rw [completed_own hpcs, hpcs]
    refine .single (complete_step htid hat (.of_lock hat hk fun u hu _ hholds => ?_))
    have howner := hheld u _ hu hholds
    have := hu.1
    omega
  | unlock hat hk _ hpcs =>
    rw [completed_own hpcs, hpcs]
    exact .single (complete_step htid hat (.of_free hat (by simp [hk]) (by simp [hk])))
  | @hand a b u hat hk hown hu hne hbt hlock hbr hpcs =>
    rw [completed_pair hu hne hpcs, hpcs]
    have hnext : nextPcs w.pcs tid u = w.pcs u := nextPcs_of_ne _ hne
    rw [← hnext] at hbt ⊢
    refine .cons (complete_step htid hat (.of_free hat (by simp [hk]) (by simp [hk])))
      (.single (complete_step hu hbt (.of_lock hbt hlock fun t ht _ hholds => ?_)))
    obtain ⟨_, hother⟩ := hheld.after_unlock hat hk hown ht hholds
    exact hother hbr
  | @grant a b u hat hk hu hne hbt hwait hbr hpcs =>
    rw [completed_pair hu hne hpcs, hpcs]
    have hnext : nextPcs w.pcs tid u = w.pcs u := nextPcs_of_ne _ hne
    rw [← hnext] at hbt ⊢
    refine .cons (complete_step htid hat (.of_free hat (by simp [hk]) (by simp [hk])))
      (.single (complete_step hu hbt (.of_wait hbt hwait fun _ => ?_)))
    obtain ⟨hstep, hlt⟩ := steps_of_actionAt hat
    refine ⟨⟨tid, w.pcs tid⟩, ⟨⟨htid, hlt⟩, by rw [hstep]; exact hk, by rw [hstep]; exact hbr.symm⟩, ?_⟩
    rw [nextPcs_self]
    exact Nat.lt_succ_self _

/-- **So is a run.** -/
theorem run_completes (hc : sc.Core) {w w' : World} (hw : (callSystem sc).Reach w) {ts : List Int}
    (hrun : (callSystem sc).Run w ts w') :
    (completionSystem sc).Run w.pcs (completions sc w ts) w'.pcs := by
  induction hrun with
  | nil => exact .nil _
  | @cons w w₁ w' t ts hst _ ih =>
    have hcall := call_completes hc hw hst
    have hworld : w₁ = (w.executeStep sc t).world := hst.2.2
    have hrest := ih (.step hw hst)
    rw [completions, ← hworld]
    exact hcall.append hrest

/-! ## Soundness -/

/-- The run from `before`, reset, executes every step of every thread. -/
def ExecutesAll (sc : Scenario) (before : World) (ts : List Int) (w : World) : Prop :=
  (callSystem sc).Run (before.reset sc) ts w ∧
    ∀ t, sc.IsThread t → (sc.stepCount t).toNat ≤ (w.threads t).pc

/-- The position of each step is its place in the order in which the steps of the run completed. -/
def completionOrder (sc : Scenario) (before : World) (ts : List Int) (v : StepVar) : Int :=
  (completions sc (before.reset sc) ts).idxOf v

/-- **The export is sound.** The order in which the steps of a complete run were completed, each of them once,
meets every constraint that is printed; so if they cannot be met there is no complete run. -/
theorem smtExport_sound (hv : sc.Valid) (ho : sc.Ordered) (name : String) (trace : Trace) :
    (∀ before ts w, ExecutesAll sc before ts w →
      (∀ v, sc.HasStep v.tid v.step ↔ v ∈ completions sc (before.reset sc) ts) ∧
      (completions sc (before.reset sc) ts).Nodup ∧
      Satisfies (completionOrder sc before ts) (asserted (smtExport sc name trace))) ∧
    (¬ Satisfiable (asserted (smtExport sc name trace)) →
      ∀ before ts w, ¬ ExecutesAll sc before ts w) := by
  have hsat : ∀ before ts w, ExecutesAll sc before ts w →
      (∀ v, sc.HasStep v.tid v.step ↔ v ∈ completions sc (before.reset sc) ts) ∧
      (completions sc (before.reset sc) ts).Nodup ∧
      Satisfies (completionOrder sc before ts) (asserted (smtExport sc name trace)) := by
    intro before ts w hexec
    obtain ⟨hrun, hall⟩ := hexec
    have hreset : (callSystem sc).init (before.reset sc) := ⟨before, rfl⟩
    have hcompletes := run_completes (ho.core hv) (.init hreset) hrun
    have hinit : (completionSystem sc).init (before.reset sc).pcs := fun t ht => by
      simp [World.pcs, World.reset, ht, Thread.reset]
    refine ⟨fun v => ⟨fun hstep => ?_, completions_hasStep hcompletes v⟩,
      nodup_completions hcompletes, ?_⟩
    · rw [mem_completions hcompletes, hinit _ hstep.1]
      exact ⟨Nat.zero_le _, hstep.2.trans_le (hall _ hstep.1)⟩
    · obtain ⟨horder, hdistinct, hexclusive, hsignalled⟩ := completions_satisfy hinit hcompletes hall
      refine (satisfies_smtExport hv.bounds.threadCount_le hv.bounds.stepCount_le name trace).mpr ?_
      exact ⟨fun v _ => Int.natCast_nonneg _, horder, hdistinct, hexclusive, hsignalled⟩
  refine ⟨hsat, fun hunsat before ts w hexec => hunsat ⟨_, (hsat before ts w hexec).2.2⟩⟩

theorem signalWait_ordered : signalWait.Ordered where
  only := forall_actionAt (P := fun _ a => a.type.ordered = true) (by decide)
  operand := signalWait_core.operand

/-- `T0` blocks in its wait and completes it inside the signal of `T1`, after the signal. -/
theorem smtExport_sound_signalWait :
    ExecutesAll signalWait .zero [0, 1] ((startWorld signalWait).calls signalWait [0, 1]) ∧
      completions signalWait (startWorld signalWait) [0, 1] = [⟨1, 0⟩, ⟨0, 0⟩] ∧
      Satisfies (completionOrder signalWait .zero [0, 1])
        (asserted (smtExport signalWait "signal_wait" Engine.zero.trace)) := by
  have hexec : ExecutesAll signalWait .zero [0, 1]
      ((startWorld signalWait).calls signalWait [0, 1]) :=
    ⟨callSystem_run (by decide +kernel), Scenario.forall_isThread (by decide +kernel)⟩
  refine ⟨hexec, by decide +kernel, ?_⟩
  have hsound := smtExport_sound (by decide) signalWait_ordered "signal_wait" Engine.zero.trace
  exact (hsound.1 _ _ _ hexec).2.2

end Smash
