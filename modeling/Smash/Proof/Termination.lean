import Mathlib.Algebra.Order.BigOperators.Group.Finset
import Mathlib.Data.Finset.Card
import Smash.Proof.Progress

/-!
# Runs that come to an end

A step passes an action, or puts the thread that takes it to sleep; what wakes a thread is a step that passes
an action, or a countdown that runs out, which passes the wait. So the actions that are left, each weighed more
than all the threads, and the threads that are READY make up a budget that every step draws on (`budget_step`).

Three action types of the header have no case in the `switch` (`ActionType.unhandled`). A thread that comes to
one of them stays there and READY, and can be scheduled for ever. `runs_bounded_iff` says that this is the only
way not to come to an end.
-/

set_option autoImplicit false

namespace Smash

variable {sc : Scenario}

/-- The action types without a case in the `switch` of `smash_execute_step`. -/
def ActionType.unhandled : ActionType → Bool
  | .condWaitTimeout | .mbPostTimeout | .mbFetchTimeout => true
  | _ => false

theorem ActionType.core_of_bookkeeping {a : ActionType} (hk : a.bookkeeping = true)
    (hh : a.unhandled = false) : a.core = true := by
  cases a <;> first | rfl | exact absurd hk (by decide) | exact absurd hh (by decide)

/-! ## What an action does to the counters -/

theorem pcs_le_modThread {w : World} {t : Int} {f : Thread → Thread}
    (h : (w.threads t).pc ≤ (f (w.threads t)).pc) : w.pcs ≤ (w.modThread t f).pcs := by
  intro u
  rw [World.pcs, World.pcs, World.modThread_threads]
  split
  · subst u
    exact h
  · exact le_rfl

theorem pcs_le_handOver (w : World) (r : Int) : w.pcs ≤ (handOver w r).1.pcs := by
  by_cases hlive : 0 < (w.resources r).waiters.count
  · rw [handOver_of_waiters hlive]
    refine pcs_le_modThread (w := (w.waiterRemove r _).modResource r _) ?_
    rw [pc_ownedPush]
    exact Nat.le_succ _
  · rw [handOver_of_empty hlive]
    exact le_rfl

theorem pcs_le_wakeAll (r : Int) (n : Nat) (w : World) : w.pcs ≤ (wakeAll r n w).1.pcs := by
  induction n generalizing w with
  | zero => exact le_rfl
  | succ n ih =>
    rw [wakeAll]
    refine le_trans ?_ (ih _)
    exact pcs_le_modThread (w := w.waiterRemove r 0) le_rfl

/-- The threads pass actions, and `tid` one at least; or nobody does, `tid` is no longer READY, and the others
are in the state that they were in. -/
def Progress (tid : Int) (w w' : World) : Prop :=
  (w.pcs ≤ w'.pcs ∧ w.pcs tid < w'.pcs tid) ∨
    (w.pcs = w'.pcs ∧ (w'.threads tid).state ≠ .ready ∧
      ∀ u, u ≠ tid → (w'.threads u).state = (w.threads u).state)

theorem progress_advance {tid : Int} {w v : World} (h : w.pcs ≤ v.pcs) : Progress tid w (v.advance tid) := by
  rw [Progress, pcs_advance]
  refine .inl ⟨fun u => ?_, ?_⟩
  · rw [Function.update_apply]
    split
    · subst u
      exact (h _).trans (Nat.le_succ _)
    · exact h u
  · rw [Function.update_self]
    exact Nat.lt_succ_of_le (h tid)

/-- A step that blocks or ends its thread. -/
theorem progress_stop {tid : Int} {w w' : World} (hpcs : w'.pcs = w.pcs)
    (hself : (w'.threads tid).state ≠ .ready)
    (hothers : ∀ u, u ≠ tid → (w'.threads u).state = (w.threads u).state) : Progress tid w w' :=
  .inr ⟨hpcs.symm, hself, hothers⟩

theorem progress_enqueue (w : World) (tid r : Int) (state : ThreadState) (hs : state ≠ .ready) :
    Progress tid w (w.enqueue tid r state) := by
  refine progress_stop (pcs_enqueue w tid r state) ?_ fun u hu => ?_
  · rw [World.enqueue_threads, if_pos rfl]
    exact hs
  · rw [World.enqueue_threads, if_neg hu]

theorem Progress.arm {tid : Int} {w w' : World} (h : Progress tid w w') (c : Option Int) :
    Progress tid w (w'.arm tid c) := by
  cases c with
  | none => exact h
  | some ticks =>
    have hpcs : (w'.arm tid (some ticks)).pcs = w'.pcs :=
      pcs_modThread (f := fun t => { t with timeoutTicks := ticks }) rfl
    have hstate : ∀ u, ((w'.arm tid (some ticks)).threads u).state = (w'.threads u).state :=
      World.modThread_field (f := fun t => { t with timeoutTicks := ticks }) Thread.state rfl
    unfold Progress at h ⊢
    simpa only [hpcs, hstate] using h

theorem Progress.boost {tid p cur : Int} {fuel : Nat} {w w' : World} (h : Progress tid w w') :
    Progress tid w (boost sc p fuel cur w') := by
  have hstate : ∀ u, ((Smash.boost sc p fuel cur w').threads u).state = (w'.threads u).state := fun u =>
    boost_field (·.state) fun _ _ => rfl
  unfold Progress at h ⊢
  simpa only [pcs_boost, hstate] using h

/-- **An action with a case in the `switch` makes progress.** -/
theorem dispatch_progress {w : World} {tid : Int} {a : Action} (hh : a.type.unhandled = false)
    (hok : (w.dispatch sc tid a).fault = none) : Progress tid w (w.dispatch sc tid a).world := by
  by_cases hk : a.type.bookkeeping = true
  · obtain ⟨hpcs, _⟩ := dispatch_bookkeep hk (ActionType.core_of_bookkeeping hk hh) hok
    refine .inl ⟨?_, ?_⟩
    · rw [hpcs]
      exact le_update_self_iff.mpr (Nat.le_succ _)
    · rw [hpcs, Function.update_self]
      exact Nat.lt_succ_self _
  have hact := dispatch_act hok
  generalize (w.dispatch sc tid a).world = w' at hact
  cases hact with
  | bookkeep h => exact absurd h hk
  | exit =>
    refine progress_stop (pcs_modThread rfl) ?_ fun u hu => ?_
    · rw [World.modThread_self]
      simp
    · rw [World.modThread_of_ne _ hu]
  | lifecycle | take | signal | condLost | mail => exact progress_advance le_rfl
  | acquire =>
    refine progress_advance (pcs_le_modThread (w := w.modResource _ _) ?_)
    rw [pc_ownedPush]
  | blockMutex => exact ((progress_enqueue w tid a.resourceId _ (by simp)).boost).arm _
  | unlock =>
    refine progress_advance ?_
    have hlow : (lowered sc w tid a.resourceId).pcs = w.pcs := pcs_lowered w tid a.resourceId
    rw [← hlow]
    exact pcs_le_handOver _ _
  | blockSem => exact (progress_enqueue w tid a.resourceId _ (by simp)).arm _
  | grant =>
    refine progress_advance ?_
    exact pcs_le_modThread (w := w.waiterRemove _ _) (f := fun t => t.resume.advance) (Nat.le_succ _)
  | condWait m =>
    have hstep := progress_enqueue (released w tid m) tid a.resourceId .blockedMutex (by simp)
    have hpcs : (released w tid m).pcs = w.pcs := pcs_modThread (w := w) rfl
    have hstate : ∀ u, ((released w tid m).threads u).state = (w.threads u).state :=
      World.modThread_field (w := w) Thread.state rfl
    unfold Progress at hstep ⊢
    simpa only [hpcs, hstate] using hstep
  | condSignal => exact progress_advance (pcs_le_modThread (w := w.waiterRemove _ _) le_rfl)
  | condBroadcast => exact progress_advance (pcs_le_wakeAll _ _ w)
  | mailBlock => exact progress_enqueue w tid a.resourceId _ (by simp)
  | mailWake =>
    exact progress_advance (pcs_le_modThread (w := (w.modResource _ _).waiterRemove _ _) le_rfl)

/-! ## The budget -/

/-- The actions in front of a thread. -/
def World.left (sc : Scenario) (w : World) (t : Int) : Nat := (sc.stepCount t).toNat - w.pcs t

/-- The READY threads. -/
def World.awake (sc : Scenario) (w : World) : Finset Int :=
  sc.threadIds.toFinset.filter fun t => (w.threads t).state = .ready

/-- The actions that are left, each weighed more than all threads, and the READY threads. -/
def World.budget (sc : Scenario) (w : World) : Nat :=
  (sc.threadIds.toFinset.card + 1) * (∑ t ∈ sc.threadIds.toFinset, w.left sc t) + (w.awake sc).card

theorem mem_awake {w : World} {t : Int} : t ∈ w.awake sc ↔ sc.Ready w t := by
  simp [World.awake, Scenario.Ready]

theorem left_le {w w' : World} (h : w.pcs ≤ w'.pcs) (t : Int) : w'.left sc t ≤ w.left sc t :=
  Nat.sub_le_sub_left (h t) _

/-- Passing an action outweighs whatever wakes up with it. -/
theorem budget_of_passed {w w' : World} (h : w.pcs ≤ w'.pcs) {t : Int} {a : Action} (ht : sc.IsThread t)
    (hat : sc.actionAt t (w.threads t).pc = some a) (hpc : w.pcs t < w'.pcs t) :
    w'.budget sc < w.budget sc := by
  have hin := (steps_of_actionAt hat).2
  have hless : w'.left sc t < w.left sc t := by
    unfold World.left World.pcs at *
    omega
  have hsum : ∑ t ∈ sc.threadIds.toFinset, w'.left sc t < ∑ t ∈ sc.threadIds.toFinset, w.left sc t :=
    Finset.sum_lt_sum (fun u _ => left_le h u)
      ⟨t, List.mem_toFinset.mpr (Scenario.mem_threadIds.mpr ht), hless⟩
  have hawake : (w'.awake sc).card ≤ sc.threadIds.toFinset.card := Finset.card_filter_le _ _
  have hmul := Nat.mul_le_mul_left (sc.threadIds.toFinset.card + 1) (Nat.succ_le_of_lt hsum)
  unfold World.budget
  rw [Nat.mul_succ] at hmul
  omega

/-- A thread that goes to sleep is one READY thread less. -/
theorem budget_of_stopped {w w' : World} (h : w.pcs = w'.pcs) {t : Int} (ht : sc.Ready w t)
    (hself : (w'.threads t).state ≠ .ready)
    (hothers : ∀ u, sc.IsThread u → u ≠ t → (w'.threads u).state = (w.threads u).state) :
    w'.budget sc < w.budget sc := by
  have hleft : ∀ u, w'.left sc u = w.left sc u := fun u => by rw [World.left, World.left, h]
  have hfewer : w'.awake sc ⊂ w.awake sc := by
    refine Finset.ssubset_iff_subset_ne.mpr ⟨fun u hu => ?_, fun heq => ?_⟩
    · obtain ⟨hthread, hready⟩ := mem_awake.mp hu
      have hne : u ≠ t := fun hut => hself (hut ▸ hready)
      exact mem_awake.mpr ⟨hthread, (hothers u hthread hne).symm.trans hready⟩
    · have hstill : t ∈ w'.awake sc := heq ▸ mem_awake.mpr ht
      exact hself (mem_awake.mp hstill).2
  have hcard := Finset.card_lt_card hfewer
  unfold World.budget
  simp only [hleft]
  omega

theorem budget_le (w : World) : w.budget sc ≤
    (sc.threadIds.toFinset.card + 1) * (∑ t ∈ sc.threadIds.toFinset, (sc.stepCount t).toNat)
      + sc.threadIds.toFinset.card :=
  Nat.add_le_add (Nat.mul_le_mul_left _ (Finset.sum_le_sum fun _ _ => Nat.sub_le _ _))
    (Finset.card_filter_le _ _)

/-- The clock moves only the threads whose time is up, and each of them past its wait. -/
theorem tick_pcs {w : World} (t : Int) :
    (w.tick sc).1.pcs t = w.pcs t + if sc.IsThread t ∧ (w.threads t).expires = true then 1 else 0 := by
  rw [World.pcs, World.pcs, tick_threads]
  by_cases ht : sc.IsThread t
  · cases hexp : (w.threads t).expires with
    | true => simp [ht, Thread.tick_of_expires hexp, Thread.advance, Thread.resume]
    | false => simp [ht, (Thread.tick_of_not_expires hexp).2.2.1]
  · simp [ht]

/-- **Every step draws on the budget**, unless it is at an action without a case. -/
theorem budget_step {w w' : World} (hw : (readySystem sc).Reach w) {t : Int}
    (hst : (readySystem sc).step w t w')
    (hh : ∀ a, sc.actionAt t (w.threads t).pc = some a → a.type.unhandled = false) :
    w'.budget sc < w.budget sc := by
  obtain ⟨⟨ht, hok, rfl⟩, hready⟩ := hst
  have htick : (w.tick sc).1.threads t = w.threads t := tick_threads_of_ready hready
  have hle : w.pcs ≤ (w.tick sc).1.pcs := fun u => by
    rw [tick_pcs]
    exact Nat.le_add_right ..
  have hsame : (w.tick sc).1.pcs t = w.pcs t := congrArg Thread.pc htick
  -- The step itself, after the clock.
  have hprogress : Progress t (w.tick sc).1 (w.executeStep sc t).world ∧
      (w.pcs t < (w.executeStep sc t).world.pcs t → ∃ a, sc.actionAt t (w.threads t).pc = some a) := by
    rcases executeStep_cases hok with ⟨hidle, _⟩ | ⟨_, hend, hworld⟩ | ⟨a, _, hat, _, hfault, hworld⟩
    · exact absurd (htick ▸ hready) hidle
    · rw [hworld]
      have hpcs : ((w.tick sc).1.modThread t fun t => { t with state := .done }).pcs = (w.tick sc).1.pcs :=
        pcs_modThread rfl
      refine ⟨progress_stop hpcs ?_ fun u hu => ?_, fun hlt => ?_⟩
      · rw [World.modThread_self]
        simp
      · rw [World.modThread_of_ne _ hu]
      · rw [hpcs, hsame] at hlt
        exact absurd hlt (Nat.lt_irrefl _)
    · rw [hworld]
      rw [htick] at hat
      exact ⟨dispatch_progress (hh a hat) hfault, fun _ => ⟨a, hat⟩⟩
  by_cases hexp : ∃ u, sc.IsThread u ∧ (w.threads u).expires = true
  · -- A countdown runs out, and its thread was inside its step list.
    obtain ⟨u, hu, hexp⟩ := hexp
    have hblocked : (w.threads u).blocked = true := by
      simp only [Thread.expires, Thread.timed, Bool.and_eq_true] at hexp
      exact hexp.1.1
    obtain ⟨a, hat, _⟩ := reach_standsAt (readySystem_reach hw) hu hblocked
    have hmoved : w.pcs u < (w.tick sc).1.pcs u := by
      rw [tick_pcs, if_pos ⟨hu, hexp⟩]
      exact Nat.lt_succ_self _
    have hafter : (w.tick sc).1.pcs ≤ (w.executeStep sc t).world.pcs := by
      rcases hprogress.1 with ⟨hle, _⟩ | ⟨heq, _⟩
      · exact hle
      · exact le_of_eq heq
    exact budget_of_passed (hle.trans hafter) hu hat (lt_of_lt_of_le hmoved (hafter u))
  · have hstill : ∀ u, sc.IsThread u → (w.threads u).expires = false := fun u hu => by
      by_contra hne
      exact hexp ⟨u, hu, by simpa using hne⟩
    have hpcs : (w.tick sc).1.pcs = w.pcs := funext fun u => by
      rw [tick_pcs, if_neg fun h => hexp ⟨u, h⟩, Nat.add_zero]
    have hstate : ∀ u, sc.IsThread u → ((w.tick sc).1.threads u).state = (w.threads u).state := fun u hu => by
      rw [tick_threads, if_pos hu]
      exact (Thread.tick_of_not_expires (hstill u hu)).1
    rcases hprogress.1 with ⟨hafter, hlt⟩ | ⟨heq, hself, hothers⟩
    · rw [hpcs] at hafter hlt
      obtain ⟨a, hat⟩ := hprogress.2 hlt
      exact budget_of_passed hafter ht hat hlt
    · exact budget_of_stopped (hpcs.symm.trans heq) ⟨ht, hready⟩ hself fun u hu hne =>
        (hothers u hne).trans (hstate u hu)

/-! ## Runs without end -/

/-- At an action without a case a thread can be scheduled again and again. -/
theorem repeats_of_unhandled (hv : sc.Valid) {t : Int} {a : Action} (ht : sc.IsThread t)
    (hh : a.type.unhandled = true) (n : Nat) {w : World} (hready : (w.threads t).state = .ready)
    (hat : sc.actionAt t (w.threads t).pc = some a) :
    ∃ w', (readySystem sc).Run w (List.replicate n t) w' := by
  induction n generalizing w with
  | zero => exact ⟨w, .nil w⟩
  | succ n ih =>
    have hidle : (w.tick sc).1.dispatch sc t a = (Outcome.ok (w.tick sc).1 [] true).finish := by
      obtain ⟨type, r, arg⟩ := a
      cases type <;> first | rfl | exact absurd hh (by simp [ActionType.unhandled])
    obtain ⟨hworld, hfault⟩ := executeStep_act hready hat (hv.bounds.resourceId_ok t ht _ a hat)
    rw [hidle] at hworld hfault
    have hkept : ((w.executeStep sc t).world.threads t) = w.threads t := by
      rw [hworld]
      exact tick_threads_of_ready hready
    obtain ⟨w', hrun⟩ := ih (by rw [hkept]; exact hready) (by rw [hkept]; exact hat)
    exact ⟨w', .cons ⟨⟨ht, hfault, rfl⟩, hready⟩ hrun⟩

/-- **Runs are bounded if and only if no READY thread ever stands at an action without a case.** -/
theorem runs_bounded_iff (hv : sc.Valid) :
    (∃ N, ∀ w₀ ts w, (readySystem sc).init w₀ → (readySystem sc).Run w₀ ts w → ts.length ≤ N) ↔
      ∀ w, (readySystem sc).Reach w → ∀ t, sc.Ready w t → ∀ a, sc.actionAt t (w.threads t).pc = some a →
        a.type.unhandled = false := by
  constructor
  · rintro ⟨N, hbound⟩ w hw t ⟨ht, hready⟩ a hat
    by_contra hh
    obtain ⟨w₀, ts, hinit, hrun⟩ := hw.exists_run
    obtain ⟨w', hmore⟩ := repeats_of_unhandled hv ht (by simpa using hh) (N + 1) hready hat
    have hlong := hbound w₀ _ w' hinit (hrun.append hmore)
    rw [List.length_append, List.length_replicate] at hlong
    omega
  · intro hh
    refine ⟨(sc.threadIds.toFinset.card + 1) * (∑ t ∈ sc.threadIds.toFinset, (sc.stepCount t).toNat)
      + sc.threadIds.toFinset.card, fun w₀ ts w hinit hrun => ?_⟩
    have hlength := hrun.length_le (μ := World.budget sc) (fun s t s' hs hst =>
      budget_step hs hst fun a => hh s hs t ⟨hst.1.1, hst.2⟩ a) (.init hinit)
    have hstart := @budget_le sc w₀
    omega

/-- One thread, at a timed wait on a condition variable. -/
def timedCondWait : Scenario := .ofSteps [[⟨.condWaitTimeout, 0, 5⟩]] [.condvar] []

/-- Two threads that lock two mutexes in opposite orders have no such action. -/
theorem runs_bounded_abba : ∃ N, ∀ w₀ ts w, (readySystem abbaDeadlock).init w₀ →
    (readySystem abbaDeadlock).Run w₀ ts w → ts.length ≤ N := by
  refine (runs_bounded_iff (by decide)).mpr fun w _ t ht a hat => ?_
  exact forall_actionAt (P := fun _ a => a.type.unhandled = false) (by decide) t ht.1 _ a hat

theorem timedCondWait_endless : ¬ ∀ sc : Scenario, sc.Matching → ∃ N, ∀ w₀ ts w,
    (readySystem sc).init w₀ → (readySystem sc).Run w₀ ts w → ts.length ≤ N := by
  intro hall
  have hm : timedCondWait.Matching := Scenario.matching_of_steps (by decide) (by decide)
  obtain ⟨N, hbound⟩ := hall timedCondWait hm
  have hinit : (readySystem timedCondWait).init (startWorld timedCondWait) := ⟨World.zero, rfl⟩
  obtain ⟨w', hrun⟩ := repeats_of_unhandled (t := 0) (a := ⟨.condWaitTimeout, 0, 5⟩) hm.valid (by decide)
    (by decide) (N + 1) (w := startWorld timedCondWait) (by decide) (by decide)
  have hlong := hbound _ _ w' hinit hrun
  rw [List.length_replicate] at hlong
  omega

end Smash
