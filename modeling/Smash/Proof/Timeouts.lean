import Smash.Proof.Waiting

/-!
# Timeouts

A timed wait that expires is over for its thread and not for the queue: the thread resumes and its entry
stays. `expired_not_cancelled` shows that no expiry is ever cancelled, so a scenario cancels its timeouts
exactly when it has none that expire (`cancelsTimeouts_iff`).

The countdown and the stale entry outlive the wait in a second way. `timeout_ticks` is not cleared when a
timed wait is granted, so the next wait of the thread, timed or not, inherits what is left of it; and an
entry left in another queue can end it too. `FreshWait` excludes both at the moment an untimed wait
begins; then the wait ends by a grant only (`untimed_wait_granted`).
-/

set_option autoImplicit false

namespace Smash

variable {sc : Scenario}

/-! ## What an expired wait leaves behind -/

/-- An entry of `i` in the queue of `r` is used up. -/
def UsesEntry (r i : Int) (v v' : World) : Prop :=
  (v'.resources r).waiters.toList.count i < (v.resources r).waiters.toList.count i

/-- `i` waits for `r`. -/
def WaitsFor (v : World) (i r : Int) : Prop :=
  (v.threads i).blocked = true ∧ (v.threads i).blockedOn = r

/-- The action of `tid` that turned `v` into `v'` gave `i` nothing that it was not waiting for. -/
structure Undisturbed (sc : Scenario) (tid i : Int) (v v' : World) : Prop where
  entry : ∀ r, sc.IsResource r → UsesEntry r i v v' → WaitsFor v i r
  given : ∀ r, sc.IsResource r → tid ≠ i → (v'.resources r).owner = i →
    (v.resources r).owner = i ∨ WaitsFor v i r
  advanced : tid ≠ i → (v'.threads i).pc ≠ (v.threads i).pc → ∃ r, WaitsFor v i r
  done : (v.threads i).state = .done → (v'.threads i).state = .done

/-- The call of `tid` at `w`, in which the wait of `i` expires, cancels that wait: `i` is in no queue
after it, and neither what is left of the call once the clock has ticked nor any later call takes `i` for a
waiter. -/
structure Cancelled (sc : Scenario) (M : TransitionSystem World Int) (w : World) (tid i : Int) :
    Prop where
  gone : ∀ r, sc.IsResource r → i ∉ ((w.executeStep sc tid).world.resources r).waiters.toList
  now : Undisturbed sc tid i (w.tick sc).1 (w.executeStep sc tid).world
  later : ∀ ts v, M.Run (w.executeStep sc tid).world ts v → ∀ u v', M.step v u v' →
    Undisturbed sc u i (v.tick sc).1 v'

/-- Every timeout that expires in a run of calls that meet `C` is cancelled. -/
def CancelsTimeouts (sc : Scenario) (C : World → Int → Prop) : Prop :=
  ∀ w tid w', ((callSystem sc).restrict C).Reach w → ((callSystem sc).restrict C).step w tid w' →
    ∀ i, sc.IsThread i → (w.threads i).expires = true →
      Cancelled sc ((callSystem sc).restrict C) w tid i

theorem Thread.blocked_of_expires {t : Thread} (h : t.expires = true) : t.blocked = true := by
  simp only [Thread.expires, Thread.timed, Bool.and_eq_true] at h
  exact h.1.1

/-- **No expired wait is cancelled**: the entry is still in the queue, or the very call in which the
time ran out spends a grant on it. -/
theorem expired_not_cancelled (hm : sc.Matching) {M : TransitionSystem World Int} {w : World}
    {tid i : Int} (h : (callSystem sc).Reach w) (hi : sc.IsThread i)
    (hexp : (w.threads i).expires = true) : ¬ Cancelled sc M w tid i := by
  intro hc
  have hb := Thread.blocked_of_expires hexp
  -- While it waited, the thread was in the queue.
  have hmem : i ∈ (w.parking sc).members (w.threads i).blockedOn := by
    refine parking_listed hm h _ _ ?_
    simp only [World.parking, if_pos hi]
    exact Thread.place_of_blocked hb
  by_cases hr : sc.IsResource (w.threads i).blockedOn
  · simp only [World.parking, if_pos hr] at hmem
    have hcount : 0 < ((w.tick sc).1.resources (w.threads i).blockedOn).waiters.toList.count i := by
      rw [tick_resources]
      exact List.count_pos_iff.mpr hmem
    have huses : UsesEntry (w.threads i).blockedOn i (w.tick sc).1 (w.executeStep sc tid).world := by
      unfold UsesEntry
      rw [List.count_eq_zero_of_not_mem (hc.gone _ hr)]
      exact hcount
    have hwaits := (hc.now.entry _ hr huses).1
    rw [tick_threads, if_pos hi, Thread.tick_of_expires hexp,
      Thread.not_blocked_of_ready rfl] at hwaits
    exact absurd hwaits (by simp)
  · simp only [World.parking, if_neg hr] at hmem
    exact absurd hmem (List.not_mem_nil)

/-- **A scenario cancels its timeouts exactly when none of them expires**, whatever the discipline `C`
of the calls. -/
theorem cancelsTimeouts_iff (hm : sc.Matching) (C : World → Int → Prop) :
    CancelsTimeouts sc C ↔
      ∀ w tid w', ((callSystem sc).restrict C).Reach w → ((callSystem sc).restrict C).step w tid w' →
        ∀ i, sc.IsThread i → (w.threads i).expires = false := by
  constructor
  · intro h w tid w' hw hst i hi
    by_contra hexp
    have hexp : (w.threads i).expires = true := by simpa using hexp
    exact expired_not_cancelled hm hw.of_restrict hi hexp (h w tid w' hw hst i hi hexp)
  · intro h w tid w' hw hst i hi hexp
    rw [h w tid w' hw hst i hi] at hexp
    exact absurd hexp (by simp)

/-- `timed_lock_prevents_deadlock` of `test_timeout.c`. -/
def timedLockScenario : Scenario :=
  .ofSteps
    [[⟨.mutexLock, 0, 0⟩, ⟨.yield, -1, 0⟩, ⟨.yield, -1, 0⟩, ⟨.yield, -1, 0⟩, ⟨.yield, -1, 0⟩,
        ⟨.mutexUnlock, 0, 0⟩],
      [⟨.mutexTimedLock, 0, 3⟩, ⟨.yield, -1, 0⟩]]
    [.mutex] []

theorem timedLockScenario_matching : timedLockScenario.Matching :=
  Scenario.matching_of_steps (by decide) (by decide)

/-- Here the wait of `T1` can expire, so the timeouts of the scenario are not cancelled. -/
theorem cancelsTimeouts_iff_timedLock :
    CancelsTimeouts timedLockScenario (fun _ _ => True) ↔
      ∀ w tid w', ((callSystem timedLockScenario).restrict fun _ _ => True).Reach w →
        ((callSystem timedLockScenario).restrict fun _ _ => True).step w tid w' →
        ∀ i, timedLockScenario.IsThread i → (w.threads i).expires = false :=
  cancelsTimeouts_iff timedLockScenario_matching fun _ _ => True

/-- The wait of `T1` expires with the third yield of `T0`, and `T1` runs to its end. Then the unlock of `T0`
gives the DONE thread the mutex, moves its `pc` and makes it READY. -/
theorem timedLock_granted_when_done :
    let w := (startWorld timedLockScenario).calls timedLockScenario [0, 1, 0, 0]
    let v := w.calls timedLockScenario [0, 1, 1, 0]
    let v' := v.calls timedLockScenario [0]
    timedLockScenario.Matching ∧ ¬ CancelsTimeouts timedLockScenario (fun _ _ => True) ∧
      (w.threads 1).expires = true ∧ (v.threads 1).state = .done ∧
      1 ∈ (v.resources 0).waiters.toList ∧ (v'.resources 0).owner = 1 ∧
      (v'.threads 1).state = .ready ∧ (v'.threads 1).pc = (v.threads 1).pc + 1 := by
  refine ⟨timedLockScenario_matching, fun h => ?_, by decide +kernel, by decide +kernel,
    by decide +kernel, by decide +kernel, by decide +kernel, by decide +kernel⟩
  have hreach : (callSystem timedLockScenario).Reach
      ((startWorld timedLockScenario).calls timedLockScenario [0, 1, 0, 0]) :=
    reach_calls (by decide +kernel)
  have hexp : (((startWorld timedLockScenario).calls timedLockScenario [0, 1, 0, 0]).threads
      1).expires = true := by decide +kernel
  refine expired_not_cancelled timedLockScenario_matching hreach (by decide) hexp
    (h _ 0 _ hreach.restrict_true ⟨⟨by decide, by decide +kernel, rfl⟩, trivial⟩ 1 (by decide) hexp)

/-! ## Untimed waits -/

/-- `i` is blocked by an untimed lock or semaphore wait. -/
def UntimedWait (sc : Scenario) (w : World) (i : Int) : Prop :=
  sc.IsThread i ∧ (w.threads i).blocked = true ∧
    ∃ a, sc.actionAt i (w.threads i).pc = some a ∧ (a.type = .mutexLock ∨ a.type = .semWait)

/-- The call of `tid` at `w` unlocks or signals what `i` waits for, and the grant goes to `i`. -/
def Grants (sc : Scenario) (w : World) (tid i : Int) : Prop :=
  ∃ a, sc.actionAt tid ((w.tick sc).1.threads tid).pc = some a ∧
    a.resourceId = (w.threads i).blockedOn ∧
    ((w.executeStep sc tid).world.threads i).pc = (w.threads i).pc + 1 ∧
    ((a.type = .mutexUnlock ∧ ((w.executeStep sc tid).world.resources a.resourceId).owner = i) ∨
      a.type = .semSignal)

/-- The untimed wait of `i` does not expire in the call, and if the call ends it, it grants it. -/
def LeavesByGrant (sc : Scenario) (w : World) (tid i : Int) : Prop :=
  (w.threads i).expires = false ∧
    (((w.executeStep sc tid).world.threads i).blocked = false → Grants sc w tid i)

/-- If the call makes `tid` start an untimed wait, then no countdown of an earlier wait is running and no
entry of `tid` is left in another queue. -/
def FreshWait (sc : Scenario) (w : World) (tid : Int) : Prop :=
  ∀ a, ((w.tick sc).1.threads tid).state = .ready →
    sc.actionAt tid ((w.tick sc).1.threads tid).pc = some a →
    (a.type = .mutexLock ∧ (w.resources a.resourceId).owner ≠ -1) ∨
      (a.type = .semWait ∧ (w.resources a.resourceId).count ≤ 0) →
    ((w.tick sc).1.threads tid).timeoutTicks ≤ 0 ∧
      ∀ r, sc.IsResource r → r ≠ a.resourceId → tid ∉ (w.resources r).waiters.toList

/-- Untimed waits end by a grant only, in every run of `M`. -/
def UntimedWaitsGranted (sc : Scenario) (M : TransitionSystem World Int) : Prop :=
  ∀ w tid w', M.Reach w → M.step w tid w' → ∀ i, UntimedWait sc w i → LeavesByGrant sc w tid i

/-- A lock that blocks finds the mutex taken, and a wait that blocks finds no unit. -/
theorem Act.guard {tid : Int} {a : Action} {w w' : World} (h : Act sc tid a w w')
    (hready : (w.threads tid).state = .ready) (hb : (w'.threads tid).blocked = true) :
    (a.type.locks = true → (w.resources a.resourceId).owner ≠ -1) ∧
      (a.type.waits = true → (w.resources a.resourceId).count ≤ 0) := by
  cases h with
  | @bookkeep f _ hstand _ =>
    rw [World.modThread_self] at hb
    exact absurd (hstand.state.trans hready) (Thread.not_ready_of_blocked hb)
  | exit =>
    rw [World.modThread_self] at hb
    exact (Thread.not_done_of_blocked hb rfl).elim
  | lifecycle | take | signal | condLost | mail =>
    rw [World.advance_threads, if_pos rfl] at hb
    exact absurd hready (Thread.not_ready_of_blocked hb)
  | acquire =>
    rw [World.advance_threads, if_pos rfl, World.modThread_self] at hb
    have hstill := (Thread.ownedPush_fields (w.threads tid) a.resourceId).1.trans hready
    exact absurd hstill (Thread.not_ready_of_blocked hb)
  | blockMutex hk hown =>
    refine ⟨fun _ => hown, fun hw => ?_⟩
    cases htype : a.type <;> simp_all [ActionType.locks, ActionType.waits]
  | blockSem hk hunit =>
    refine ⟨fun hl => ?_, fun _ => hunit⟩
    cases htype : a.type <;> simp_all [ActionType.locks, ActionType.waits]
  | unlock hk | grant hk | condSignal hk | condWait _ hk | condBroadcast hk | mailWake hk =>
    rw [hk]
    exact ⟨fun h => absurd h (by decide), fun h => absurd h (by decide)⟩
  | mailBlock hk =>
    cases htype : a.type <;> simp_all [ActionType.locks, ActionType.waits, ActionType.mails]

/-! ### The invariant -/

/-- The thread in an untimed wait has no countdown running and no entry in another queue. -/
def WaitsAlone (sc : Scenario) (w : World) (i : Int) : Prop :=
  (w.threads i).timeoutTicks ≤ 0 ∧
    ∀ r, sc.IsResource r → r ≠ (w.threads i).blockedOn → i ∉ (w.resources r).waiters.toList

theorem WaitsAlone.tick_eq {w : World} {i : Int} (h : WaitsAlone sc w i) :
    (w.tick sc).1.threads i = w.threads i := by
  rw [tick_threads]
  split
  · refine Thread.tick_of_not_timed ?_
    have := h.1
    simp only [Thread.timed, Bool.and_eq_false_iff, decide_eq_false_iff_not]
    exact .inr (by omega)
  · rfl

/-- The clock keeps a lone wait alone, … -/
theorem waitsAlone_tick {w : World} (h : ∀ i, UntimedWait sc w i → WaitsAlone sc w i) {i : Int}
    (hi : UntimedWait sc (w.tick sc).1 i) : WaitsAlone sc (w.tick sc).1 i := by
  obtain ⟨ht, hb, a, hat, ha⟩ := hi
  obtain ⟨hexp, hbw⟩ := tick_blocked ht hb
  rw [tick_threads, if_pos ht, (Thread.tick_of_not_expires hexp).2.2.1] at hat
  have hold := h i ⟨ht, hbw, a, hat, ha⟩
  unfold WaitsAlone
  rw [hold.tick_eq, tick_resources]
  exact hold

/-- … and so does an action, when the waits it begins are fresh. -/
theorem Act.waitsAlone {tid : Int} {a : Action} {v w' : World} (h : Act sc tid a v w')
    (hready : (v.threads tid).state = .ready) (hat : sc.actionAt tid (v.threads tid).pc = some a)
    (hfresh : (a.type = .mutexLock ∧ (v.resources a.resourceId).owner ≠ -1) ∨
      (a.type = .semWait ∧ (v.resources a.resourceId).count ≤ 0) →
      (v.threads tid).timeoutTicks ≤ 0 ∧
        ∀ r, sc.IsResource r → r ≠ a.resourceId → tid ∉ (v.resources r).waiters.toList)
    (hold : ∀ i, UntimedWait sc v i → WaitsAlone sc v i) {i : Int} (hi : UntimedWait sc w' i) :
    WaitsAlone sc w' i := by
  obtain ⟨ht, hb, b, hatb, hb'⟩ := hi
  generalize ht' : w'.threads i = t' at hb hatb
  unfold WaitsAlone
  rw [ht']
  have heff := h.effect hready i
  rw [ht'] at heff
  cases heff with
  | stays hs hon hpc htk =>
    -- It was in the same wait before, and it is not the thread that runs.
    have hbv : (v.threads i).blocked = true := (Thread.blocked_congr hs).symm.trans hb
    have halone := hold i ⟨ht, hbv, b, by rw [← hpc]; exact hatb, hb'⟩
    refine ⟨by rw [htk]; exact halone.1, fun r hr hne hmem => ?_⟩
    rw [hon] at hne
    rcases h.queue_mem hmem with hin | ⟨rfl, _⟩
    · exact halone.2 r hr hne hin
    · exact absurd hready (Thread.not_ready_of_blocked hbv)
  | runs _ hnot _ =>
    rw [hnot] at hb
    exact absurd hb (by simp)
  | woken _ _ _ hs _ =>
    exact absurd hs (Thread.not_ready_of_blocked hb)
  | waits heq hwait hon hpc htk =>
    subst heq
    have hab : a = b := by
      rw [hpc, hat] at hatb
      exact Option.some.inj hatb
    subst hab
    have hcd : a.countdown = none := by
      rcases hb' with hk | hk <;> simp [Action.countdown, hk]
    obtain ⟨hlock, hsem⟩ := h.guard hready (by rw [ht']; exact hb)
    have hguard := hfresh (by
      cases hb' with
      | inl hk =>
        exact .inl ⟨hk, hlock (by rw [hk]; rfl)⟩
      | inr hk =>
        exact .inr ⟨hk, hsem (by rw [hk]; rfl)⟩)
    refine ⟨by rw [htk, hcd]; exact hguard.1, fun r hr hne hmem => ?_⟩
    rw [hon] at hne
    rcases h.queue_mem hmem with hin | ⟨_, heq⟩
    · exact hguard.2 r hr hne hin
    · exact hne heq

/-- **Untimed waits that begin alone stay alone.** -/
theorem waitsAlone_reach {w : World} (h : ((callSystem sc).restrict (FreshWait sc)).Reach w)
    {i : Int} (hi : UntimedWait sc w i) : WaitsAlone sc w i := by
  induction h generalizing i with
  | init hinit =>
    obtain ⟨before, rfl⟩ := hinit
    obtain ⟨ht, hb, _⟩ := hi
    simp only [World.reset, if_pos ht] at hb
    exact (Thread.not_ready_of_blocked hb rfl).elim
  | @step w w' tid hr hst ih =>
    obtain ⟨⟨htid, hok, rfl⟩, hfresh⟩ := hst
    have hmove := executeStep_move hok
    have htick : ∀ i, UntimedWait sc (w.tick sc).1 i → WaitsAlone sc (w.tick sc).1 i :=
      fun i hi => waitsAlone_tick (fun i => ih) hi
    have hres : (w.tick sc).1.resources = w.resources := tick_resources w
    unfold FreshWait at hfresh
    rw [← hres] at hfresh
    generalize (w.tick sc).1 = v at hmove htick hfresh
    generalize (w.executeStep sc tid).world = w' at hmove hi ⊢
    cases hmove with
    | idle => exact htick i hi
    | finish hready =>
      have hne : i ≠ tid := by
        rintro rfl
        have := hi.2.1
        rw [World.modThread_self] at this
        exact (Thread.not_done_of_blocked this rfl).elim
      unfold UntimedWait WaitsAlone at *
      rw [World.modThread_of_ne _ hne] at hi ⊢
      exact htick i hi
    | act hready hat _ hact => exact hact.waitsAlone hready hat (hfresh _ hready hat) htick hi

/-! ### The end of an untimed wait -/

/-- An unlock or a signal that ends the wait of another thread moves that thread past it, and an unlock
makes it the owner. -/
theorem Act.granted {tid : Int} {a : Action} {v w' : World} (h : Act sc tid a v w')
    (hk : a.type = .mutexUnlock ∨ a.type = .semSignal) {i : Int} (hne : i ≠ tid)
    (hb : (v.threads i).blocked = true) (hnot : (w'.threads i).blocked = false) :
    (w'.threads i).pc = (v.threads i).pc + 1 ∧
      (a.type = .mutexUnlock → (w'.resources a.resourceId).owner = i) := by
  have hstill : ∀ {t : Thread}, t.state = (v.threads i).state → t.blocked = false → False := by
    intro t ht htb
    rw [Thread.blocked_congr ht, hb] at htb
    exact absurd htb (by simp)
  rcases hk with hk | hk
  · obtain ⟨_, _, rfl⟩ := h.unlock_cases hk
    obtain ⟨hs, _, hpc, _⟩ := lowered_fields sc v tid a.resourceId i
    by_cases hlive : 0 < ((lowered sc v tid a.resourceId).resources a.resourceId).waiters.count
    · rw [handOver_of_waiters hlive, World.advance_threads, if_neg hne,
        World.modThread_threads] at hnot ⊢
      split at hnot
      · rename_i hi
        rw [if_pos hi, World.advance_resources, World.modThread_resources, World.modResource_self]
        refine ⟨?_, fun _ => hi.symm⟩
        rw [(Thread.ownedPush_fields _ _).2.2.1, ← hi, ← hpc]
        rfl
      · exact (hstill hs hnot).elim
    · rw [handOver_of_empty hlive, World.advance_threads, if_neg hne] at hnot
      exact (hstill hs hnot).elim
  · rcases h.signal_cases hk with ⟨_, rfl⟩ | ⟨_, rfl⟩
    · refine ⟨?_, fun h => absurd (h.symm.trans hk) (by decide)⟩
      rw [World.advance_threads, if_neg hne] at hnot ⊢
      unfold World.grantSem at hnot ⊢
      dsimp only at hnot ⊢
      rw [World.modThread_threads] at hnot ⊢
      split at hnot
      · rename_i hi
        rw [if_pos hi, ← hi]
        rfl
      · exact (hstill rfl hnot).elim
    · rw [World.advance_threads, if_neg hne, World.modResource_threads] at hnot
      exact (hstill rfl hnot).elim

/-- A wait ends under the call of another thread, by an action that wakes, on a resource that the waiting
thread is queued at. -/
theorem Move.unblocks {tid : Int} {v w' : World} (h : Move sc tid v w') {i : Int}
    (hb : (v.threads i).blocked = true) (hnot : (w'.threads i).blocked = false) :
    ∃ a, sc.actionAt tid (v.threads tid).pc = some a ∧ Act sc tid a v w' ∧ i ≠ tid ∧
      a.type.wakes = true ∧ i ∈ (v.resources a.resourceId).waiters.toList := by
  have hne : (v.threads tid).state = .ready → i ≠ tid := by
    rintro hready rfl
    exact absurd hready (Thread.not_ready_of_blocked hb)
  cases h with
  | idle =>
    rw [hb] at hnot
    exact absurd hnot (by simp)
  | finish hready =>
    rw [World.modThread_of_ne _ (hne hready), hb] at hnot
    exact absurd hnot (by simp)
  | @act a _ hready hat _ hact =>
    have heff := hact.effect hready i
    generalize ht' : w'.threads i = t' at heff hnot
    cases heff with
    | stays hs _ _ _ =>
      rw [Thread.blocked_congr hs, hb] at hnot
      exact absurd hnot (by simp)
    | runs heq _ _ | waits heq _ _ _ _ => exact absurd heq (hne hready)
    | woken _ hwakes hmem _ _ => exact ⟨a, hat, hact, hne hready, hwakes, hmem⟩

/-- What wakes at a mutex unlocks it, and what wakes at a semaphore signals it. -/
theorem ActionType.grants_of_wakes {a b : ActionType} (hwakes : a.wakes = true)
    (hop : a.operand = b.operand) (hb : b = .mutexLock ∨ b = .semWait) :
    a = .mutexUnlock ∨ a = .semSignal := by
  rcases hb with rfl | rfl
  · cases a <;> simp_all [ActionType.wakes, ActionType.operand]
  · cases a <;> simp_all [ActionType.wakes, ActionType.operand]

/-- Two actions of a matching scenario that work on one resource work on the same type. -/
theorem Scenario.Matching.operand_eq (hm : sc.Matching) {t u : Int} {pc qc : Nat} {a b : Action}
    (ht : sc.IsThread t) (hu : sc.IsThread u) (hat : sc.actionAt t pc = some a)
    (hbt : sc.actionAt u qc = some b) (hres : a.resourceId = b.resourceId)
    (ha : a.type.operand ≠ none) (hb : b.type.operand ≠ none) : a.type.operand = b.type.operand := by
  obtain ⟨type, htype⟩ := Option.ne_none_iff_exists'.mp ha
  obtain ⟨type', htype'⟩ := Option.ne_none_iff_exists'.mp hb
  rw [htype, htype', ← (hm.operand t ht _ _ hat _ htype).2, ← (hm.operand u hu _ _ hbt _ htype').2, hres]

/-- **An untimed wait ends by a grant only**, in every run in which untimed waits begin fresh: no
countdown ends it, and no unlock or signal of another resource. -/
theorem untimed_wait_granted (hm : sc.Matching) :
    UntimedWaitsGranted sc ((callSystem sc).restrict (FreshWait sc)) := by
  intro w tid w' h hst i hi
  have halone := waitsAlone_reach h hi
  obtain ⟨⟨htid, hok, rfl⟩, _⟩ := hst
  obtain ⟨ht, hb, b, hatb, hb'⟩ := hi
  have hexp : (w.threads i).expires = false := by
    have := halone.1
    simp only [Thread.expires, Thread.timed, Bool.and_eq_false_iff, decide_eq_false_iff_not]
    exact .inl (.inr (by omega))
  refine ⟨hexp, fun hnot => ?_⟩
  have hvi := halone.tick_eq
  obtain ⟨a, hat, hact, hne, hwakes, hmem⟩ :=
    (executeStep_move hok).unblocks (by rw [hvi]; exact hb) hnot
  have hopa : a.type.operand ≠ none := by
    cases htype : a.type <;> simp_all [ActionType.wakes, ActionType.operand]
  have hopb : b.type.operand ≠ none := by
    rcases hb' with hk | hk <;> simp [hk, ActionType.operand]
  -- It is in no other queue, so the resource is the one it waits for.
  have hon : a.resourceId = (w.threads i).blockedOn := by
    obtain ⟨type, hop⟩ := Option.ne_none_iff_exists'.mp hopa
    by_contra hother
    rw [tick_resources] at hmem
    exact halone.2 _ (hm.operand tid htid _ _ hat type hop).1 hother hmem
  obtain ⟨c, hatc, _, honc⟩ := reach_standsAt h.of_restrict ht hb
  rw [hatb] at hatc
  cases hatc
  have hk : a.type = .mutexUnlock ∨ a.type = .semSignal :=
    ActionType.grants_of_wakes hwakes
      (hm.operand_eq htid ht hat hatb (hon.trans honc) hopa hopb) hb'
  obtain ⟨hpc, hown⟩ := hact.granted hk hne (by rw [hvi]; exact hb) hnot
  refine ⟨a, hat, hon, by rw [hpc, hvi], ?_⟩
  cases hk with
  | inl hk =>
    exact .inl ⟨hk, hown hk⟩
  | inr hk =>
    exact .inr hk

/-- A timed wait that is granted leaves its countdown to the untimed wait after it. -/
def leftoverTicks : Scenario :=
  .ofSteps
    [[⟨.semTimedWait, 0, 5⟩, ⟨.semWait, 1, 0⟩],
      [⟨.semSignal, 0, 0⟩, ⟨.yield, -1, 0⟩, ⟨.yield, -1, 0⟩, ⟨.yield, -1, 0⟩, ⟨.yield, -1, 0⟩]]
    [.semaphore, .semaphore] [0, 0]

theorem leftoverTicks_matching : leftoverTicks.Matching :=
  Scenario.matching_of_steps (by decide) (by decide)

/-- In the runs of `leftoverTicks` that begin no wait with ticks of an earlier one left every wait is granted. When
the signal comes first, the second wait is among them. -/
theorem untimed_wait_granted_leftover :
    UntimedWaitsGranted leftoverTicks
      ((callSystem leftoverTicks).restrict (FreshWait leftoverTicks)) :=
  untimed_wait_granted leftoverTicks_matching

/-- `T0` is granted its timed wait with four ticks left, and they run out in its untimed wait. -/
theorem leftoverTicks_expires_untimed :
    leftoverTicks.Matching ∧ ¬ UntimedWaitsGranted leftoverTicks (callSystem leftoverTicks) := by
  refine ⟨leftoverTicks_matching, fun h => ?_⟩
  have hreach : (callSystem leftoverTicks).Reach
      ((startWorld leftoverTicks).calls leftoverTicks [0, 1, 0, 1, 1, 1]) :=
    reach_calls (by decide +kernel)
  have hwait : UntimedWait leftoverTicks
      ((startWorld leftoverTicks).calls leftoverTicks [0, 1, 0, 1, 1, 1]) 0 :=
    ⟨by decide, by decide +kernel, ⟨.semWait, 1, 0⟩, by decide +kernel, .inr rfl⟩
  have hexp : (((startWorld leftoverTicks).calls leftoverTicks [0, 1, 0, 1, 1, 1]).threads
      0).expires = true := by decide +kernel
  have := (h _ 1 _ hreach ⟨by decide, by decide +kernel, rfl⟩ 0 hwait).1
  rw [hexp] at this
  exact absurd this (by simp)

end Smash
