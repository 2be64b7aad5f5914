import Smash.Proof.Events
import Smash.Proof.Timeouts

/-!
# A timed wait comes to an end

The clock of `smash_execute_step` runs in every call, whichever thread is scheduled, and nothing but the clock
touches the countdown of a thread that waits. So a wait with `k` ticks left is over after at most `k` calls
(`wait_over`), and a timed lock or wait that blocks is over after as many calls as its timeout says
(`timed_wait_over`), however the scheduler chooses and even if nobody ever unlocks or signals.
-/

set_option autoImplicit false

namespace Smash

variable {sc : Scenario}

/-- A call that leaves a thread waiting leaves it the countdown that the clock left. -/
theorem timeoutTicks_step {w : World} {tid i : Int} (hok : (w.executeStep sc tid).fault = none)
    (hb : ((w.tick sc).1.threads i).blocked = true) :
    ((w.executeStep sc tid).world.threads i).state = .ready ∨
      (((w.executeStep sc tid).world.threads i).blocked = true ∧
        ((w.executeStep sc tid).world.threads i).timeoutTicks = ((w.tick sc).1.threads i).timeoutTicks) := by
  have hne : ∀ {t : Int}, ((w.tick sc).1.threads t).state = .ready → i ≠ t := by
    rintro t hready rfl
    exact Thread.not_ready_of_blocked hb hready
  rcases executeStep_cases hok with ⟨_, hw⟩ | ⟨hready, _, hw⟩ | ⟨a, hready, _, _, hok', hw⟩
  · rw [hw]
    exact .inr ⟨hb, rfl⟩
  · rw [hw, World.modThread_threads, if_neg (hne hready)]
    exact .inr ⟨hb, rfl⟩
  · rw [hw]
    cases (dispatch_act hok').effect hready i with
    | stays hstate _ _ hticks => exact .inr ⟨(Thread.blocked_congr hstate).trans hb, hticks⟩
    | runs hself => exact absurd hself (hne hready)
    | waits hself => exact absurd hself (hne hready)
    | woken _ _ _ hstate => exact .inl hstate

/-- The last tick makes the thread READY. -/
theorem Thread.tick_of_last {t : Thread} (hb : t.blocked = true) (hticks : t.timeoutTicks = 1) :
    t.tick.state = .ready := by
  have hexp : t.expires = true := by simp [Thread.expires, Thread.timed, hb, hticks]
  rw [Thread.tick_of_expires hexp]
  rfl

/-- A tick before the last one. -/
theorem Thread.tick_of_more {t : Thread} {k : Nat} (hb : t.blocked = true)
    (hticks : t.timeoutTicks = k + 2) : t.tick.blocked = true ∧ t.tick.timeoutTicks = k + 1 := by
  have htimed : t.timed = true := by simp [Thread.timed, hb, hticks]; omega
  have hexp : t.expires = false := by simp [Thread.expires, hticks]; omega
  refine ⟨(Thread.blocked_congr (Thread.tick_of_not_expires hexp).1).trans hb, ?_⟩
  rw [Thread.tick, if_neg (by simp [hexp]), if_pos htimed]
  simp only [hticks]
  omega

/-- **A wait with `k` ticks left is over after at most `k` calls.** -/
theorem wait_over {w : World} {i : Int} (hi : sc.IsThread i) (hb : (w.threads i).blocked = true) {k : Nat}
    (hticks : (w.threads i).timeoutTicks = k + 1) {ts : List Int} (hts : callsOk sc w ts = true)
    (hlen : k + 1 ≤ ts.length) :
    ∃ j < k + 1, (((w.calls sc (ts.take j)).tick sc).1.threads i).state = .ready := by
  induction k generalizing w ts with
  | zero =>
    refine ⟨0, Nat.one_pos, ?_⟩
    show ((w.tick sc).1.threads i).state = .ready
    rw [tick_threads, if_pos hi]
    exact Thread.tick_of_last hb (by simpa using hticks)
  | succ k ih =>
    obtain ⟨hb', hticks'⟩ := Thread.tick_of_more (k := k) hb (by rw [hticks]; omega)
    have htick : (w.tick sc).1.threads i = (w.threads i).tick := by rw [tick_threads, if_pos hi]
    rw [← htick] at hb' hticks'
    cases ts with
    | nil => exact absurd hlen (by simp)
    | cons t ts =>
      simp only [callsOk, Bool.and_eq_true, decide_eq_true_eq, Option.isNone_iff_eq_none] at hts
      obtain ⟨⟨_, hok⟩, hts⟩ := hts
      rcases timeoutTicks_step hok hb' with hready | ⟨hstill, hleft⟩
      · refine ⟨1, by omega, ?_⟩
        show (((w.executeStep sc t).world.tick sc).1.threads i).state = .ready
        rwa [tick_threads_of_ready hready]
      · obtain ⟨j, hj, hend⟩ := ih hstill (by rw [hleft, hticks']) hts (by simpa using hlen)
        exact ⟨j + 1, by omega, hend⟩

/-- A timed lock or wait that blocks starts its countdown. -/
theorem timed_wait_armed {w : World} {tid : Int} {a : Action} (hact : w.acting sc tid = some a)
    (htimed : a.type = .mutexTimedLock ∨ a.type = .semTimedWait)
    (hok : (w.executeStep sc tid).fault = none)
    (hb : ((w.executeStep sc tid).world.threads tid).blocked = true) :
    ((w.executeStep sc tid).world.threads tid).timeoutTicks = argOr a.arg 10 := by
  obtain ⟨hready, hat⟩ := acting_eq_some hact
  rcases executeStep_cases hok with ⟨hidle, _⟩ | ⟨_, hend, _⟩ | ⟨b, _, hat', _, hok', hw⟩
  · exact absurd hready hidle
  · exact absurd (hat.symm.trans hend) (by simp)
  obtain rfl : a = b := Option.some.inj (hat.symm.trans hat')
  rw [hw] at hb ⊢
  cases (dispatch_act hok').effect hready tid with
  | stays hstate =>
    exact absurd (hstate.trans hready) (Thread.not_ready_of_blocked hb)
  | runs _ hnot => exact absurd hb (by simp [hnot])
  | waits _ _ _ _ hticks =>
    have hcd : a.countdown = some (argOr a.arg 10) := by
      unfold Action.countdown
      rcases htimed with h | h <;> simp [h]
    rw [hticks, hcd]
    rfl
  | woken hne => exact absurd rfl hne

/-- **A timed wait is over after as many calls as its timeout says**, whoever is scheduled. -/
theorem timed_wait_over {w : World} {tid : Int} {a : Action} (htid : sc.IsThread tid)
    (hact : w.acting sc tid = some a) (htimed : a.type = .mutexTimedLock ∨ a.type = .semTimedWait)
    (hb : ((w.calls sc [tid]).threads tid).blocked = true) {ts : List Int}
    (hts : callsOk sc w (tid :: ts) = true) (hlen : argOr a.arg 10 ≤ ts.length) :
    ∃ j : Nat, j < argOr a.arg 10 ∧
      (((w.calls sc (tid :: ts.take j)).tick sc).1.threads tid).state = .ready := by
  simp only [callsOk, Bool.and_eq_true, decide_eq_true_eq, Option.isNone_iff_eq_none] at hts
  obtain ⟨⟨_, hok⟩, hts⟩ := hts
  have harmed := timed_wait_armed hact htimed hok hb
  have hpos : 0 < argOr a.arg 10 := by
    unfold argOr
    split <;> omega
  obtain ⟨k, hk⟩ : ∃ k : Nat, argOr a.arg 10 = k + 1 := ⟨(argOr a.arg 10 - 1).toNat, by omega⟩
  obtain ⟨j, hj, hready⟩ := wait_over htid hb (harmed.trans hk) hts (by omega)
  exact ⟨j, by omega, hready⟩

/-- The timed lock of `T1` blocks with a timeout of three, and is over while `T0` yields. -/
theorem timed_wait_over_timedLock :
    ∃ j : Nat, (j : Int) < 3 ∧ (((((startWorld timedLockScenario).calls timedLockScenario [0]).calls
      timedLockScenario (1 :: [0, 0, 0].take j)).tick timedLockScenario).1.threads 1).state = .ready :=
  timed_wait_over (a := ⟨.mutexTimedLock, 0, 3⟩) (by decide) (by decide) (.inl rfl) (by decide) (by decide)
    (by decide)

end Smash
