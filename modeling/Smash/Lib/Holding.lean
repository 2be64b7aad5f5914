import Mathlib.Data.List.Induction
import Mathlib.Logic.Function.Basic

/-!
# Histories of locks

A history lists who took which lock and who let it go. `LockOp.play` plays it on the state of the locks and
refuses it where a lock that is held is taken, or is let go by anyone but its holder. What it does not refuse
is, for each lock on its own, one *session* after the other, each of one party from taking to letting go, and
at the end the session of the party that still holds the lock (`play_sessions`).
-/

set_option autoImplicit false

/-- What a party of `A` does to a lock of `M`. -/
inductive LockOp (A M : Type)
  | acquire (a : A) (m : M)
  | release (a : A) (m : M)
deriving DecidableEq

namespace LockOp

variable {A M : Type}

def lock : LockOp A M → M
  | acquire _ m => m
  | release _ m => m

/-- From taking to letting go. -/
def session (m : M) (a : A) : List (LockOp A M) := [acquire a m, release a m]

/-- The session that a holder has open. -/
def openSession (m : M) (holder : Option A) : List (LockOp A M) := holder.toList.map (acquire · m)

section play

variable [DecidableEq A] [DecidableEq M]

/-- One operation, or `none` where it is refused. -/
def step (held : M → Option A) : LockOp A M → Option (M → Option A)
  | acquire a m => if held m = none then some (Function.update held m (some a)) else none
  | release a m => if held m = some a then some (Function.update held m none) else none

def play (held : M → Option A) (ops : List (LockOp A M)) : Option (M → Option A) := ops.foldlM step held

@[simp] theorem play_nil (held : M → Option A) : play held [] = some held := rfl

@[simp] theorem play_cons (held : M → Option A) (op : LockOp A M) (ops : List (LockOp A M)) :
    play held (op :: ops) = (step held op).bind (play · ops) := rfl

theorem play_append (held : M → Option A) (ops ops' : List (LockOp A M)) :
    play held (ops ++ ops') = (play held ops).bind (play · ops') := List.foldlM_append

/-- What is not refused is not refused before it ends. -/
theorem play_front {held held' : M → Option A} {ops ops' : List (LockOp A M)} (hpre : ops <+: ops')
    (h : play held ops' = some held') : ∃ mid, play held ops = some mid := by
  obtain ⟨rest, rfl⟩ := hpre
  rw [play_append, Option.bind_eq_some_iff] at h
  exact ⟨h.choose, h.choose_spec.1⟩

/-- What one operation does to one lock. -/
theorem step_sessions {held held' : M → Option A} {op : LockOp A M} (h : step held op = some held') (m : M) :
    (op.lock ≠ m ∧ held' m = held m) ∨
      (∃ a, op = acquire a m ∧ held m = none ∧ held' m = some a) ∨
      (∃ a, op = release a m ∧ held m = some a ∧ held' m = none) := by
  cases op with
  | acquire a m' =>
    simp only [step, Option.ite_none_right_eq_some, Option.some.injEq] at h
    obtain ⟨hfree, rfl⟩ := h
    by_cases hm : m' = m
    · subst hm
      exact .inr (.inl ⟨a, rfl, hfree, Function.update_self ..⟩)
    · exact .inl ⟨hm, Function.update_of_ne (Ne.symm hm) ..⟩
  | release a m' =>
    simp only [step, Option.ite_none_right_eq_some, Option.some.injEq] at h
    obtain ⟨hheld, rfl⟩ := h
    by_cases hm : m' = m
    · subst hm
      exact .inr (.inr ⟨a, rfl, hheld, Function.update_self ..⟩)
    · exact .inl ⟨hm, Function.update_of_ne (Ne.symm hm) ..⟩

/-- **Session after session**: what a history says about one lock, with the session that was open before it. -/
theorem play_sessions {held held' : M → Option A} {ops : List (LockOp A M)} (h : play held ops = some held')
    (m : M) : ∃ as : List A, openSession m (held m) ++ ops.filter (fun op => op.lock = m)
      = as.flatMap (session m) ++ openSession m (held' m) := by
  induction ops using List.reverseRecOn generalizing held' with
  | nil =>
    obtain rfl : held = held' := by simpa using h
    exact ⟨[], by simp⟩
  | append_singleton ops op ih =>
    rw [play_append, Option.bind_eq_some_iff] at h
    obtain ⟨mid, hmid, hstep⟩ := h
    obtain ⟨as, has⟩ := ih hmid
    have hstep : step mid op = some held' := by simpa using hstep
    rw [List.filter_append, ← List.append_assoc, has]
    rcases step_sessions hstep m with ⟨hne, hsame⟩ | ⟨a, rfl, hfree, htaken⟩ | ⟨a, rfl, htaken, hfree⟩
    · exact ⟨as, by simp [hne, hsame]⟩
    · exact ⟨as, by simp [hfree, htaken, openSession, lock]⟩
    · exact ⟨as ++ [a], by simp [hfree, htaken, openSession, lock, session]⟩

end play

end LockOp
