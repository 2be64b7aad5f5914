import Smash.Proof.Waiting

/-!
# Condition variables

`smash_cond_wait` lets the associated mutex go and blocks. A signal or a broadcast makes the sleeper READY
without moving its `pc` and without the mutex, so its next step is the wait again, which insists on the
mutex. A thread that waits never owns the mutex it let go (`reach_offMutex`), so the step after a wakeup
fails, whoever was woken (`woken_wait_fails`); a wait returns as it should exactly where nobody is ever
woken (`waitsReturn_iff`).
-/

set_option autoImplicit false

namespace Smash

variable {sc : Scenario}

/-! ## Wakeups -/

/-- The action `a` takes `t` out of the queue of a condition variable. -/
def Action.WakesFrom (a : Action) (v : World) (t : Int) : Prop :=
  (a.type = .condSignal ∧ 0 < (v.resources a.resourceId).waiters.count ∧
      (v.resources a.resourceId).waiters.cell (v.bestWaiter a.resourceId) = t) ∨
    (a.type = .condBroadcast ∧ t ∈ (v.resources a.resourceId).waiters.toList)

/-- The call for `tid` finds `t` blocked in `ACT_COND_WAIT` on `c` and wakes it by a signal or a
broadcast. -/
structure WokenInWait (sc : Scenario) (w : World) (tid t c : Int) : Prop where
  waiter : sc.IsThread t
  ready : ((w.tick sc).1.threads tid).state = .ready
  blocked : ((w.tick sc).1.threads t).blocked = true
  waits : ∃ b, sc.actionAt t ((w.tick sc).1.threads t).pc = some b ∧ b.type = .condWait ∧
    b.resourceId = c
  wakes : ∃ a, sc.actionAt tid ((w.tick sc).1.threads tid).pc = some a ∧
    a.WakesFrom (w.tick sc).1 t

/-- In every run of `M` on which a signal or a broadcast wakes a thread `t` in its wait on `c`: as long as
`t` is not scheduled its next step would not fail, and its `pc` moves past the wait only into a state where
it owns the associated mutex and has it on its stack. -/
def WaitsReturn (sc : Scenario) (M : TransitionSystem World Int) : Prop :=
  ∀ w, M.Reach w → ∀ tid w', M.step w tid w' → ∀ t c, WokenInWait sc w tid t c →
    (∀ ts u, t ∉ ts → M.Run w' ts u → (u.executeStep sc t).fault = none) ∧
    (∀ ts u l u', M.Run w' ts u → (u.threads t).pc = (w'.threads t).pc → M.step u l u' →
      (u'.threads t).pc ≠ (w'.threads t).pc →
      (u'.resources (sc.associatedMutex c)).owner = t ∧
        sc.associatedMutex c ∈ (u'.threads t).ownedMutexStack.toList)

/-! ## A waiting thread does not own the mutex -/

/-- Where `t` stands at a wait, it does not own the associated mutex. -/
def OffMutex (sc : Scenario) (w : World) (t : Int) : Prop :=
  ∀ b, sc.actionAt t (w.threads t).pc = some b → b.type = .condWait →
    (w.resources (sc.associatedMutex b.resourceId)).owner ≠ t

/-- A thread that an action leaves blocked was blocked, or starts to wait and lets its mutex go. -/
theorem Act.offMutex (hm : sc.Matching) {v w' : World} {tid t : Int} {a : Action}
    (hassoc : ∀ r, sc.IsResource r → (v.resources r).associatedMutex = sc.associatedMutex r)
    (htid : sc.IsThread tid) (hready : (v.threads tid).state = .ready)
    (hat : sc.actionAt tid (v.threads tid).pc = some a) (hact : Act sc tid a v w')
    (ht : sc.IsThread t) (hb : (w'.threads t).blocked = true)
    (hoff : (v.threads t).blocked = true → OffMutex sc v t) : OffMutex sc w' t := by
  have heff := hact.effect hready t
  generalize ht' : w'.threads t = t' at heff hb
  have hcases : (v.threads t).blocked = true ∧ t'.pc = (v.threads t).pc ∨
      t = tid ∧ t'.pc = (v.threads t).pc ∧ a.type.wait ≠ none := by
    cases heff with
    | stays hs _ hpc _ =>
      exact .inl ⟨(Thread.blocked_congr hs).symm.trans hb, hpc⟩
    | runs _ hnot => exact absurd hnot (by simp [hb])
    | woken _ _ _ hs _ => exact absurd hs (Thread.not_ready_of_blocked hb)
    | waits hself hwait _ hpc _ => exact .inr ⟨hself, hpc, by simp [hwait]⟩
  intro b hbt htype
  rw [ht'] at hbt
  rcases hcases with ⟨hblocked, hpc⟩ | ⟨rfl, hpc, _⟩
  · -- The owner is as before, nobody, the thread that ran, or a waiter that is not blocked any more.
    rw [hpc] at hbt
    have hold := hoff hblocked b hbt htype
    rcases hact.owner (sc.associatedMutex b.resourceId) with hsame | ⟨_, hnone | hself | ⟨_, hwoken⟩⟩
    · rwa [hsame]
    · rw [hnone]
      have := ht.1
      omega
    · rw [hself]
      rintro rfl
      exact absurd hready (Thread.not_ready_of_blocked hblocked)
    · intro heq
      rw [heq, ht'] at hwoken
      exact absurd hwoken (Thread.not_ready_of_blocked hb)
  · rw [hpc, hat] at hbt
    obtain rfl := Option.some.inj hbt
    have hc := (hm.operand t ht _ a hat .condvar (by rw [htype]; rfl)).1
    rw [hact.condWait_cases htype, World.enqueue_owner, hassoc _ hc, released, World.modResource_self]
    have h0 := ht.1
    show (-1 : Int) ≠ t
    omega

/-- **A thread that waits on a condition variable does not own its mutex.** -/
theorem reach_offMutex (hm : sc.Matching) {w : World} (h : (callSystem sc).Reach w) {t : Int}
    (ht : sc.IsThread t) (hb : (w.threads t).blocked = true) : OffMutex sc w t := by
  induction h with
  | init hi =>
    obtain ⟨before, rfl⟩ := hi
    simp only [World.reset, if_pos ht] at hb
    exact (Thread.not_ready_of_blocked hb rfl).elim
  | @step w _ tid hw hst ih =>
    obtain ⟨htid, hok, rfl⟩ := hst
    have htick : ((w.tick sc).1.threads t).blocked = true → OffMutex sc (w.tick sc).1 t := by
      intro hbt b hat htype
      obtain ⟨hexp, hbw⟩ := tick_blocked ht hbt
      rw [tick_threads, if_pos ht, (Thread.tick_of_not_expires hexp).2.2.1] at hat
      rw [tick_resources]
      exact ih hbw b hat htype
    have hmove := executeStep_move hok
    generalize hw' : (w.executeStep sc tid).world = w' at hmove hb
    cases hmove with
    | idle => exact htick hb
    | finish _ _ =>
      rw [World.modThread_threads] at hb
      split at hb
      · exact (Thread.not_done_of_blocked hb rfl).elim
      · rename_i hne
        intro b hat
        rw [World.modThread_of_ne _ hne] at hat
        exact htick hb b hat
    | act hready hat _ hact =>
      refine hact.offMutex hm (fun r hr => ?_) htid hready hat ht hb htick
      rw [tick_resources]
      exact reach_associatedMutex hw hr

/-! ## The step after a wakeup -/

/-- A broadcast makes every waiter READY, … -/
theorem wakeAll_ready (r : Int) (n : Nat) (w : World) (hn : (w.resources r).waiters.count = n)
    {u : Int} (hu : u ∈ (w.resources r).waiters.toList) :
    ((wakeAll r n w).1.threads u).state = .ready := by
  induction n generalizing w with
  | zero =>
    rw [LiveArray.toList_eq_nil.mpr hn] at hu
    exact absurd hu (by simp)
  | succ n ih =>
    have hlive : 0 < (w.resources r).waiters.count := by omega
    have hcount : ((w.waiterRemove r 0).resources r).waiters.count = n := by
      simp only [World.waiterRemove, World.modResource_self, LiveArray.count_swapRemove]
      omega
    rw [wakeAll]
    rcases List.mem_cons.mp ((LiveArray.swapRemove_perm hlive).mem_iff.mpr hu) with rfl | hrest
    · -- The first waiter, READY from this turn on.
      rcases wakeAll_thread r n ((w.waiterRemove r 0).modThread _ (·.resume)) hcount.ge
        ((w.resources r).waiters.cell 0) with h | ⟨h, _⟩
      · rw [h, World.modThread_self]
        rfl
      · rw [h]
        rfl
    · refine ih ((w.waiterRemove r 0).modThread _ (·.resume)) hcount ?_
      rw [World.modThread_resources, World.waiterRemove_waiters, if_pos rfl]
      exact hrest

/-- … and moves none. -/
theorem wakeAll_pc (r : Int) (n : Nat) (w : World) (u : Int) :
    ((wakeAll r n w).1.threads u).pc = (w.threads u).pc := by
  induction n generalizing w with
  | zero => rfl
  | succ n ih =>
    exact (ih _).trans (World.modThread_field (f := (·.resume)) Thread.pc rfl u)

/-- What a signal or a broadcast does to a waiter that it wakes. -/
theorem Act.wakesFrom {v w' : World} {tid t : Int} {a : Action} (hact : Act sc tid a v w')
    (hne : t ≠ tid) (hwakes : a.WakesFrom v t) :
    (w'.threads t).state = .ready ∧ (w'.threads t).pc = (v.threads t).pc ∧
      ∀ s, (w'.resources s).owner = (v.resources s).owner := by
  rcases hwakes with ⟨htype, hlive, hcell⟩ | ⟨htype, hmem⟩
  · rcases hact.condSignal_cases htype with ⟨_, rfl⟩ | ⟨hempty, _⟩
    · rw [World.advance_threads, if_neg hne, ← hcell, World.modThread_self]
      exact ⟨rfl, rfl, fun s => World.waiterRemove_owner ..⟩
    · omega
  · rw [hact.condBroadcast_cases htype, World.advance_threads, if_neg hne]
    exact ⟨wakeAll_ready _ _ v rfl hmem, wakeAll_pc .., fun s => wakeAll_owner ..⟩

/-- A thread without its mutex cannot run the wait. -/
theorem condWait_fault {w : World} {tid c : Int}
    (h : (w.resources (w.resources c).associatedMutex).owner ≠ tid) :
    (condWait sc w tid c).fault ≠ none := by
  intro hok
  exact h (condWait_cases hok).2.2.2.1

/-- **The step after a wakeup fails**: whoever is woken in its wait by a signal or a broadcast, its next
step, if it is scheduled right away, is the wait, without the mutex. -/
theorem woken_wait_fails (hm : sc.Matching) {w : World} (hw : (callSystem sc).Reach w) {tid t c : Int}
    (htid : sc.IsThread tid) (hok : (w.executeStep sc tid).fault = none)
    (hwoken : WokenInWait sc w tid t c) :
    ((w.executeStep sc tid).world.executeStep sc t).fault ≠ none := by
  obtain ⟨ht, hready, hb, ⟨b, hbt, htype, _⟩, a, hat, hwakes⟩ := hwoken
  have hne : t ≠ tid := by
    rintro rfl
    exact absurd hready (Thread.not_ready_of_blocked hb)
  -- The mutex is somebody else's, before the wakeup …
  have hoff : (w.resources (sc.associatedMutex b.resourceId)).owner ≠ t := by
    obtain ⟨hexp, hbw⟩ := tick_blocked ht hb
    rw [tick_threads, if_pos ht, (Thread.tick_of_not_expires hexp).2.2.1] at hbt
    exact reach_offMutex hm hw ht hbw b hbt htype
  have hact : Act sc tid a (w.tick sc).1 (w.executeStep sc tid).world := by
    have hmove := executeStep_move hok
    generalize (w.executeStep sc tid).world = w' at hmove ⊢
    cases hmove with
    | idle hidle => exact absurd hready hidle
    | finish _ hnone => rw [hat] at hnone; exact absurd hnone (by simp)
    | act _ hat' _ hact =>
      rw [hat] at hat'
      obtain rfl := Option.some.inj hat'
      exact hact
  obtain ⟨hready', hpc, howner⟩ := hact.wakesFrom hne hwakes
  -- … and after it.
  have hreach : (callSystem sc).Reach (w.executeStep sc tid).world := .step hw ⟨htid, hok, rfl⟩
  generalize (w.executeStep sc tid).world = w' at hready' hpc howner hreach ⊢
  rw [← hpc] at hbt
  have hc := (hm.operand t ht _ b hbt .condvar (by rw [htype]; rfl)).1
  rw [(executeStep_act hready' hbt (.inr hc)).2]
  have hdispatch : ∀ v : World, (v.dispatch sc t b).fault = (condWait sc v t b.resourceId).fault := by
    intro v
    unfold World.dispatch
    rw [htype]
    exact Outcome.advanceIfTrue_fault _ t
  rw [hdispatch]
  refine condWait_fault ?_
  rw [tick_resources, reach_associatedMutex hreach hc, howner, tick_resources]
  exact hoff

/-- **A wait returns with the mutex exactly where nobody is ever woken from one.** -/
theorem waitsReturn_iff (hm : sc.Matching) : WaitsReturn sc (callSystem sc) ↔
    ∀ w, (callSystem sc).Reach w → ∀ tid, sc.IsThread tid → (w.executeStep sc tid).fault = none →
      ∀ t c, ¬ WokenInWait sc w tid t c := by
  constructor
  · intro h w hw tid htid hok t c hwoken
    have hreturns := (h w hw tid _ ⟨htid, hok, rfl⟩ t c hwoken).1 [] _ (by simp) (.nil _)
    exact woken_wait_fails hm hw htid hok hwoken hreturns
  · rintro h w hw tid w' ⟨htid, hok, _⟩ t c hwoken
    exact absurd hwoken (h w hw tid htid hok t c)

/-- `basic_condvar` of `test_chibios_v2.c`. -/
def basicCondvar : Scenario :=
  { Scenario.ofSteps
      [[⟨.mutexLock, 0, 0⟩, ⟨.yield, -1, 0⟩, ⟨.condSignal, 1, 0⟩, ⟨.mutexUnlock, 0, 0⟩],
        [⟨.mutexLock, 0, 0⟩, ⟨.condWait, 1, 0⟩, ⟨.mutexUnlock, 0, 0⟩]]
      [.mutex, .condvar] [] with
    associatedMutex := fun _ => 0 }

theorem basicCondvar_matching : basicCondvar.Matching :=
  Scenario.matching_of_steps (by decide) (by decide)

theorem waitsReturn_iff_basicCondvar : WaitsReturn basicCondvar (callSystem basicCondvar) ↔
    ∀ w, (callSystem basicCondvar).Reach w → ∀ tid, basicCondvar.IsThread tid →
      (w.executeStep basicCondvar tid).fault = none → ∀ t c, ¬ WokenInWait basicCondvar w tid t c :=
  waitsReturn_iff basicCondvar_matching

/-- The consumer that waits before the producer signals fails when it is scheduled again. -/
theorem basicCondvar_fails : ¬ ∀ sc : Scenario, sc.Matching → WaitsReturn sc (callSystem sc) := by
  intro h
  have hreach : (callSystem basicCondvar).Reach
      ((startWorld basicCondvar).calls basicCondvar [1, 1, 0, 0]) := reach_calls (by decide +kernel)
  have hwoken : WokenInWait basicCondvar
      ((startWorld basicCondvar).calls basicCondvar [1, 1, 0, 0]) 0 1 1 := by
    refine ⟨by decide, by decide +kernel, by decide +kernel, ⟨⟨.condWait, 1, 0⟩, ?_, rfl, rfl⟩,
      ⟨.condSignal, 1, 0⟩, ?_, .inl ⟨rfl, ?_, ?_⟩⟩ <;> decide +kernel
  have hreturns := (h _ basicCondvar_matching _ hreach 0 _ ⟨by decide, by decide +kernel, rfl⟩ 1 1
    hwoken).1 [] _ (by simp) (.nil _)
  exact absurd hreturns (by decide +kernel)

end Smash
