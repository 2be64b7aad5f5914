import Smash.Proof.Owning

/-!
# Progress

Where the `pc`s go: `World.pcs`, with one lemma for each write. In a core scenario an action leaves them
alone (it blocks), moves that of the thread that runs it (it goes through), or moves that of one waiter
as well (it grants the wait, `pcs_grant`).
-/

set_option autoImplicit false

namespace Smash

variable {sc : Scenario}

/-- How far the threads have come. -/
def World.pcs (w : World) (t : Int) : Nat := (w.threads t).pc

/-! ## What the writes do to the counters -/

@[simp] theorem pcs_modResource (w : World) (r : Int) (f : Resource → Resource) :
    (w.modResource r f).pcs = w.pcs := rfl

@[simp] theorem pcs_waiterRemove (w : World) (r : Int) (i : Nat) :
    (w.waiterRemove r i).pcs = w.pcs := rfl

/-- A write to a thread that leaves its `pc` leaves them all, … -/
theorem pcs_modThread {w : World} {t : Int} {f : Thread → Thread}
    (h : (f (w.threads t)).pc = (w.threads t).pc) : (w.modThread t f).pcs = w.pcs :=
  funext (World.modThread_field (·.pc) h)

/-- … and one that moves it on moves that one on. -/
theorem pcs_modThread_next {w : World} {t : Int} {f : Thread → Thread}
    (h : (f (w.threads t)).pc = (w.threads t).pc + 1) :
    (w.modThread t f).pcs = Function.update w.pcs t (w.pcs t + 1) := by
  funext u
  simp only [World.pcs, World.modThread_threads, Function.update_apply]
  split
  · exact h
  · rfl

@[simp] theorem pcs_advance (w : World) (t : Int) :
    (w.advance t).pcs = Function.update w.pcs t (w.pcs t + 1) := pcs_modThread_next rfl

@[simp] theorem pcs_enqueue (w : World) (tid r : Int) (state : ThreadState) :
    (w.enqueue tid r state).pcs = w.pcs :=
  pcs_modThread (w := w.modResource r fun r => { r with waiters := r.waiters.push tid }) rfl

/-- Inheritance writes priorities only. -/
@[simp] theorem pcs_boost (p : Int) (fuel : Nat) (cur : Int) (w : World) :
    (boost sc p fuel cur w).pcs = w.pcs := by
  funext u
  exact boost_field (·.pc) fun _ _ => rfl

@[simp] theorem pcs_lowered (w : World) (tid r : Int) : (lowered sc w tid r).pcs = w.pcs :=
  funext fun u => (lowered_fields sc w tid r u).2.2.1

theorem pc_ownedPush (t : Thread) (r : Int) : (t.ownedPush r).pc = t.pc :=
  (Thread.ownedPush_fields t r).2.2.1

/-- The bookkeeping actions of a core scenario move on and touch no resource. -/
theorem dispatch_bookkeep {w : World} {tid : Int} {a : Action} (hk : a.type.bookkeeping = true)
    (hcore : a.type.core = true) (hok : (w.dispatch sc tid a).fault = none) :
    (w.dispatch sc tid a).world.pcs = Function.update w.pcs tid (w.pcs tid + 1) ∧
      (w.dispatch sc tid a).world.resources = w.resources := by
  obtain ⟨type, r, arg⟩ := a
  change type.bookkeeping = true at hk
  change type.core = true at hcore
  have hmoves : ∀ {f : Thread → Thread}, (f (w.threads tid)).pc = (w.threads tid).pc →
      ((w.modThread tid f).advance tid).pcs = Function.update w.pcs tid (w.pcs tid + 1) := by
    intro f hf
    rw [pcs_advance, pcs_modThread hf]
  cases type with
  | nop | yield => exact ⟨pcs_advance w tid, rfl⟩
  | sysLock | ret => exact ⟨hmoves rfl, rfl⟩
  | sysUnlock | isrEnter | isrExit | call =>
    simp only [World.dispatch, actSysUnlock, actIsrEnter, actIsrExit, actCall] at hok ⊢
    split at hok
    · exact absurd hok (by simp)
    · rw [if_neg ‹_›]
      exact ⟨hmoves rfl, rfl⟩
  | condWaitTimeout | mbPostTimeout | mbFetchTimeout => exact absurd hcore (by decide)
  | _ => exact absurd hk (by decide)

/-- The `pc`s once a waiter is granted what it waits for and the thread that grants it moves on. -/
theorem pcs_grant {v : World} {woken tid : Int} {g : Thread → Thread} (hne : woken ≠ tid)
    (hg : (g (v.threads woken)).pc = (v.threads woken).pc + 1) :
    ((v.modThread woken g).advance tid).pcs
      = Function.update (Function.update v.pcs woken (v.pcs woken + 1)) tid (v.pcs tid + 1) := by
  rw [pcs_advance, pcs_modThread_next hg, Function.update_of_ne (Ne.symm hne)]

end Smash
