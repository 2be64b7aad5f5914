import Smash.Proof.Runs

/-!
# What a step can do

The facts about `World.executeStep` that every later module starts from: what the clock does to a
thread, and that a READY thread's step which does not fail returns `true`.
-/

set_option autoImplicit false

namespace Smash

variable {sc : Scenario}

/-! ## The clock -/

/-- A turn of the timeout loop. -/
def tickTurn (acc : World × List LogEntry) (i : Int) : World × List LogEntry :=
  let t := acc.1.threads i
  (acc.1.modThread i (·.tick),
    if t.expires then
      acc.2 ++ [⟨if t.tick.state = .blockedMutex then .mutexTimeoutExpired else .semTimeoutExpired,
        i, -1, 0⟩]
    else acc.2)

theorem tick_eq_foldl (w : World) : w.tick sc = sc.threadIds.foldl tickTurn (w, []) := rfl

@[simp] theorem tickTurn_world (acc : World × List LogEntry) (i : Int) :
    (tickTurn acc i).1 = acc.1.modThread i (·.tick) := rfl

/-- The loop of the clock ticks each thread of the list once. -/
theorem foldl_tickTurn_threads (is : List Int) (hnd : is.Nodup) (acc : World × List LogEntry) (j : Int) :
    (is.foldl tickTurn acc).1.threads j = if j ∈ is then (acc.1.threads j).tick else acc.1.threads j := by
  induction is generalizing acc with
  | nil => simp
  | cons i is ih =>
    obtain ⟨hnot, hnd⟩ := List.nodup_cons.mp hnd
    rw [List.foldl_cons, ih hnd, tickTurn_world]
    by_cases hj : j = i
    · subst hj
      simp [hnot]
    · simp [hj, World.modThread_of_ne _ hj]

theorem foldl_tickTurn_resources (is : List Int) (acc : World × List LogEntry) :
    (is.foldl tickTurn acc).1.resources = acc.1.resources := by
  induction is generalizing acc with
  | nil => rfl
  | cons i is ih => rw [List.foldl_cons, ih, tickTurn_world, World.modThread_resources]

theorem tick_threads (w : World) (j : Int) :
    (w.tick sc).1.threads j = if sc.IsThread j then (w.threads j).tick else w.threads j := by
  rw [tick_eq_foldl, foldl_tickTurn_threads sc.threadIds (nodup_upTo _)]
  simp

@[simp] theorem tick_resources (w : World) : (w.tick sc).1.resources = w.resources :=
  foldl_tickTurn_resources sc.threadIds (w, [])

/-- A thread without a running countdown is not touched. -/
theorem Thread.tick_of_not_timed {t : Thread} (h : t.timed = false) : t.tick = t := by
  have hexp : t.expires = false := by simp [Thread.expires, h]
  simp [Thread.tick, hexp, h]

theorem Thread.timed_of_not_blocked {t : Thread} (h : t.blocked = false) : t.timed = false := by
  simp [Thread.timed, h]

/-- Whether a thread is blocked is a matter of its state only. -/
theorem Thread.blocked_congr {t t' : Thread} (h : t.state = t'.state) : t.blocked = t'.blocked := by
  simp only [Thread.blocked, h]

theorem Thread.not_blocked_of_ready {t : Thread} (h : t.state = .ready) : t.blocked = false := by
  simp [Thread.blocked, h]

theorem Thread.not_blocked_of_done {t : Thread} (h : t.state = .done) : t.blocked = false := by
  simp [Thread.blocked, h]

theorem Thread.not_ready_of_blocked {t : Thread} (h : t.blocked = true) : t.state ≠ .ready := by
  intro hready
  simp [Thread.blocked, hready] at h

theorem Thread.not_done_of_blocked {t : Thread} (h : t.blocked = true) : t.state ≠ .done := by
  intro hdone
  simp [Thread.blocked, hdone] at h

theorem tick_threads_of_ready {w : World} {j : Int} (h : (w.threads j).state = .ready) :
    (w.tick sc).1.threads j = w.threads j := by
  rw [tick_threads]
  split
  · exact Thread.tick_of_not_timed (Thread.timed_of_not_blocked (Thread.not_blocked_of_ready h))
  · rfl

/-- Without a running countdown the clock stands still. -/
theorem tick_eq_self {w : World} (h : ∀ t, sc.IsThread t → (w.threads t).timed = false) :
    (w.tick sc).1 = w := by
  refine World.ext (funext fun t => ?_) (tick_resources w)
  rw [tick_threads]
  split
  · exact Thread.tick_of_not_timed (h t ‹_›)
  · rfl

/-! ## The value returned -/

/-- The cases of the `switch` that can return early all set `failed` there. -/
theorem dispatch_ret (w : World) (tid : Int) (act : Action)
    (h : (w.dispatch sc tid act).fault = none) : (w.dispatch sc tid act).ret = true := by
  obtain ⟨type, resId, arg⟩ := act
  cases type <;> try rfl
  case done =>
    show (actDone w tid).ret = true
    simp only [actDone]; split <;> rfl
  case sysUnlock =>
    simp only [World.dispatch, actSysUnlock] at h ⊢
    split
    · rw [if_pos ‹_›] at h; exact absurd h (by simp)
    · rfl
  case isrEnter =>
    simp only [World.dispatch, actIsrEnter] at h ⊢
    split
    · rw [if_pos ‹_›] at h; exact absurd h (by simp)
    · rfl
  case isrExit =>
    simp only [World.dispatch, actIsrExit] at h ⊢
    split
    · rw [if_pos ‹_›] at h; exact absurd h (by simp)
    · rfl
  case objectDestroy =>
    simp only [World.dispatch, actObjectDestroy] at h ⊢
    split
    · rw [if_pos ‹_›] at h; exact absurd h (by simp)
    · rfl
  case call =>
    simp only [World.dispatch, actCall] at h ⊢
    split
    · rw [if_pos ‹_›] at h; exact absurd h (by simp)
    · rfl

/-- A READY thread's step that does not fail returns `true`. -/
theorem executeStep_ret {w : World} {t : Int} (hready : (w.threads t).state = .ready)
    (h : (w.executeStep sc t).fault = none) : (w.executeStep sc t).ret = true := by
  have htick : (w.tick sc).1.threads t = w.threads t := tick_threads_of_ready hready
  unfold World.executeStep World.runThread at h ⊢
  simp only [htick, hready, ne_eq, not_true_eq_false, if_false, Outcome.afterLog_fault,
    Outcome.afterLog_ret] at h ⊢
  cases hact : sc.actionAt t (w.threads t).pc with
  | none => rfl
  | some act =>
    simp only [hact] at h ⊢
    split at h
    · exact absurd h (by simp)
    · rw [if_neg ‹_›]
      exact dispatch_ret _ _ _ h

/-! ## The action that runs -/

/-- The resource id of an accepted action passes the test in `smash_execute_step`. -/
theorem in_range {r : Int} (hr : r = -1 ∨ sc.IsResource r) :
    ¬ (r ≠ smashNoResource ∧ (r < 0 ∨ sc.resourceCount ≤ r)) := by
  unfold Scenario.IsResource at hr
  simp only [smashNoResource]
  omega

/-- **A READY thread inside its step list runs the action there**, in the state the clock leaves. -/
theorem executeStep_act {w : World} {tid : Int} {a : Action}
    (hready : (w.threads tid).state = .ready) (hat : sc.actionAt tid (w.threads tid).pc = some a)
    (hr : a.resourceId = -1 ∨ sc.IsResource a.resourceId) :
    (w.executeStep sc tid).world = ((w.tick sc).1.dispatch sc tid a).world ∧
      (w.executeStep sc tid).fault = ((w.tick sc).1.dispatch sc tid a).fault := by
  have htick : (w.tick sc).1.threads tid = w.threads tid := tick_threads_of_ready hready
  unfold World.executeStep World.runThread
  simp only [htick, hready, ne_eq, not_true_eq_false, if_false, Outcome.afterLog_world,
    Outcome.afterLog_fault, hat]
  rw [if_neg (in_range hr)]
  exact ⟨rfl, rfl⟩

/-- **What a call does**, when it does not fail: nothing after the clock for a thread that is not
READY, the end of the thread, or one action. -/
theorem executeStep_cases {w : World} {tid : Int} (h : (w.executeStep sc tid).fault = none) :
    let v := (w.tick sc).1
    ((v.threads tid).state ≠ .ready ∧ (w.executeStep sc tid).world = v) ∨
    ((v.threads tid).state = .ready ∧ sc.actionAt tid (v.threads tid).pc = none ∧
      (w.executeStep sc tid).world = v.modThread tid fun t => { t with state := .done }) ∨
    ∃ a, (v.threads tid).state = .ready ∧ sc.actionAt tid (v.threads tid).pc = some a ∧
      (a.resourceId = -1 ∨ sc.IsResource a.resourceId) ∧ (v.dispatch sc tid a).fault = none ∧
      (w.executeStep sc tid).world = (v.dispatch sc tid a).world := by
  unfold World.executeStep at h ⊢
  simp only [Outcome.afterLog_fault, Outcome.afterLog_world] at h ⊢
  generalize (w.tick sc).1 = v at h ⊢
  unfold World.runThread at h ⊢
  dsimp only at h ⊢
  by_cases hready : (v.threads tid).state ≠ .ready
  · rw [if_pos hready]
    exact .inl ⟨hready, rfl⟩
  rw [if_neg hready] at h ⊢
  have hready : (v.threads tid).state = .ready := by simpa using hready
  cases hact : sc.actionAt tid (v.threads tid).pc with
  | none => exact .inr (.inl ⟨hready, rfl, rfl⟩)
  | some a =>
    simp only [hact] at h ⊢
    split at h
    · exact absurd h (by simp)
    · rename_i hrange
      rw [if_neg hrange]
      refine .inr (.inr ⟨a, hready, rfl, ?_, h, rfl⟩)
      simp only [smashNoResource] at hrange
      unfold Scenario.IsResource
      omega

/-- The same, while the clock stands still. -/
theorem executeStep_cases_of_tick {w : World} {tid : Int} (htick : (w.tick sc).1 = w)
    (h : (w.executeStep sc tid).fault = none) :
    ((w.threads tid).state ≠ .ready ∧ (w.executeStep sc tid).world = w) ∨
    ((w.threads tid).state = .ready ∧ sc.actionAt tid (w.threads tid).pc = none ∧
      (w.executeStep sc tid).world = w.modThread tid fun t => { t with state := .done }) ∨
    ∃ a, (w.threads tid).state = .ready ∧ sc.actionAt tid (w.threads tid).pc = some a ∧
      (a.resourceId = -1 ∨ sc.IsResource a.resourceId) ∧ (w.dispatch sc tid a).fault = none ∧
      (w.executeStep sc tid).world = (w.dispatch sc tid a).world := by
  have hcases := executeStep_cases h
  rw [htick] at hcases
  exact hcases

end Smash
