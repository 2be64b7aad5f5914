import Mathlib.Data.List.Nodup
import Mathlib.Data.List.Perm.Subperm
import Mathlib.Logic.Function.Basic
import Mathlib.Logic.Relation

/-!
# A partial function stored twice

Programs often keep a partial function `place : A → Option B` together with its fibres, one list
`members b` for each `b`: every thread records what it waits for and every resource lists its waiters; every
mutex records its owner and every thread lists the mutexes it owns. A `Roster` is the pair. It is
`Sound` when the lists are exactly the fibres, without repetition, and `Listed` when they at least contain
them.

Two moves keep both: an element that is nowhere enters a list (`enter`), and one occurrence leaves a
list while its element gives up its place (`leave`). A third, `quit`, forgets the places of some
elements and leaves the lists alone: it keeps `Listed` and breaks `Sound` as soon as an element with a place
quits.
-/

set_option autoImplicit false

/-- A partial function and, separately, a list for each value. -/
@[ext] structure Roster (A B : Type) where
  place : A → Option B
  members : B → List A

namespace Roster

variable {A B : Type} [DecidableEq A] [DecidableEq B]

/-- The lists are the fibres, each element once. -/
structure Sound (p : Roster A B) : Prop where
  mem_iff : ∀ a b, a ∈ p.members b ↔ p.place a = some b
  nodup : ∀ b, (p.members b).Nodup

/-- Every element is on the list of its place; the lists may hold more. -/
def Listed (p : Roster A B) : Prop := ∀ a b, p.place a = some b → a ∈ p.members b

/-! ## Moves -/

/-- `a` takes its place at `b`, at the end of the list. -/
def enter (p : Roster A B) (a : A) (b : B) : Roster A B where
  place := Function.update p.place a (some b)
  members := Function.update p.members b (p.members b ++ [a])

/-- `a` gives up its place, and the list of `b` becomes `l`. -/
def leave (p : Roster A B) (a : A) (b : B) (l : List A) : Roster A B where
  place := Function.update p.place a none
  members := Function.update p.members b l

/-- The elements of `q` give up their places and stay on the lists. -/
def quit (p : Roster A B) (q : A → Bool) : Roster A B where
  place a := if q a then none else p.place a
  members := p.members

/-- The two moves that keep a sound roster sound. -/
inductive Step (p : Roster A B) : Roster A B → Prop
  | enter (a : A) (b : B) : p.place a = none → Step p (p.enter a b)
  | leave (a : A) (b : B) (l : List A) : (a :: l).Perm (p.members b) → Step p (p.leave a b l)

/-- Any number of them. -/
abbrev Steps : Roster A B → Roster A B → Prop := Relation.ReflTransGen Step

/-! ## What the moves keep -/

theorem Sound.enter {p : Roster A B} (h : p.Sound) {a : A} {b : B} (ha : p.place a = none) :
    (p.enter a b).Sound := by
  have hout : ∀ b', a ∉ p.members b' := fun b' hm => by
    rw [h.mem_iff, ha] at hm
    exact absurd hm (by simp)
  refine ⟨fun x y => ?_, fun y => ?_⟩
  · show x ∈ Function.update p.members b _ y ↔ Function.update p.place a _ x = some y
    by_cases hy : y = b
    · subst hy
      rw [Function.update_self, List.mem_append, List.mem_singleton]
      by_cases hx : x = a
      · subst hx; simp
      · rw [Function.update_of_ne hx, h.mem_iff]
        simp [hx]
    · rw [Function.update_of_ne hy, h.mem_iff]
      by_cases hx : x = a
      · subst hx
        rw [Function.update_self, ha]
        simp [Ne.symm hy]
      · rw [Function.update_of_ne hx]
  · show (Function.update p.members b _ y).Nodup
    by_cases hy : y = b
    · subst hy
      rw [Function.update_self]
      exact List.Nodup.append (h.nodup y) (List.nodup_singleton a)
        (List.disjoint_singleton.mpr (hout y))
    · rw [Function.update_of_ne hy]
      exact h.nodup y

theorem Sound.leave {p : Roster A B} (h : p.Sound) {a : A} {b : B} {l : List A}
    (hl : (a :: l).Perm (p.members b)) : (p.leave a b l).Sound := by
  have hnd : (a :: l).Nodup := hl.nodup_iff.mpr (h.nodup b)
  have ha : p.place a = some b := (h.mem_iff a b).mp (hl.subset List.mem_cons_self)
  refine ⟨fun x y => ?_, fun y => ?_⟩
  · show x ∈ Function.update p.members b l y ↔ Function.update p.place a none x = some y
    by_cases hx : x = a
    · subst hx
      rw [Function.update_self]
      refine iff_of_false (fun hm => ?_) (by simp)
      by_cases hy : y = b
      · subst hy
        rw [Function.update_self] at hm
        exact (List.nodup_cons.mp hnd).1 hm
      · rw [Function.update_of_ne hy, h.mem_iff, ha] at hm
        exact hy (Option.some.inj hm).symm
    · rw [Function.update_of_ne hx]
      by_cases hy : y = b
      · subst hy
        rw [Function.update_self, ← h.mem_iff, ← hl.mem_iff, List.mem_cons]
        simp [hx]
      · rw [Function.update_of_ne hy, h.mem_iff]
  · show (Function.update p.members b l y).Nodup
    by_cases hy : y = b
    · subst hy
      rw [Function.update_self]
      exact (List.nodup_cons.mp hnd).2
    · rw [Function.update_of_ne hy]
      exact h.nodup y

theorem Listed.enter {p : Roster A B} (h : p.Listed) (a : A) (b : B) : (p.enter a b).Listed := by
  intro x y hxy
  show x ∈ Function.update p.members b _ y
  change Function.update p.place a (some b) x = some y at hxy
  by_cases hx : x = a
  · subst hx
    rw [Function.update_self] at hxy
    cases hxy
    simp
  · rw [Function.update_of_ne hx] at hxy
    by_cases hy : y = b
    · subst hy
      rw [Function.update_self]
      exact List.mem_append_left _ (h x y hxy)
    · rw [Function.update_of_ne hy]
      exact h x y hxy

/-- Only the element that leaves loses an occurrence. -/
theorem Listed.leave {p : Roster A B} (h : p.Listed) {a : A} {b : B} {l : List A}
    (hl : (a :: l).Perm (p.members b)) : (p.leave a b l).Listed := by
  intro x y hxy
  show x ∈ Function.update p.members b l y
  change Function.update p.place a none x = some y at hxy
  by_cases hx : x = a
  · subst hx
    rw [Function.update_self] at hxy
    exact absurd hxy (by simp)
  · rw [Function.update_of_ne hx] at hxy
    by_cases hy : y = b
    · subst hy
      rw [Function.update_self]
      exact List.mem_of_ne_of_mem hx (hl.mem_iff.mpr (h x y hxy))
    · rw [Function.update_of_ne hy]
      exact h x y hxy

omit [DecidableEq A] [DecidableEq B] in
theorem Listed.quit {p : Roster A B} (h : p.Listed) (q : A → Bool) : (p.quit q).Listed := by
  intro x y hxy
  simp only [Roster.quit] at hxy
  split at hxy
  · exact absurd hxy (by simp)
  · exact h x y hxy

omit [DecidableEq A] [DecidableEq B] in
/-- When nobody quits, nothing happens. -/
theorem quit_eq_self {p : Roster A B} {q : A → Bool} (h : ∀ a, q a = true → p.place a = none) :
    p.quit q = p := by
  obtain ⟨place, members⟩ := p
  simp only [Roster.quit, Roster.mk.injEq, and_true]
  funext a
  split
  · exact (h a ‹_›).symm
  · rfl

theorem Sound.step {p p' : Roster A B} (h : p.Sound) (hst : p.Step p') : p'.Sound := by
  cases hst with
  | enter a b ha => exact h.enter ha
  | leave a b l hl => exact h.leave hl

theorem Listed.step {p p' : Roster A B} (h : p.Listed) (hst : p.Step p') : p'.Listed := by
  cases hst with
  | enter a b _ => exact h.enter a b
  | leave a b l hl => exact h.leave hl

theorem Sound.steps {p p' : Roster A B} (h : p.Sound) (hst : p.Steps p') : p'.Sound := by
  induction hst with
  | refl => exact h
  | tail _ hst ih => exact ih.step hst

theorem Listed.steps {p p' : Roster A B} (h : p.Listed) (hst : p.Steps p') : p'.Listed := by
  induction hst with
  | refl => exact h
  | tail _ hst ih => exact ih.step hst

/-! ## Room on the lists -/

omit [DecidableEq A] [DecidableEq B] in
/-- An element of a finite universe that is not at `b` leaves room on the list of `b`. -/
theorem Sound.length_lt {p : Roster A B} (h : p.Sound) {b : B} {all : List A} {c : A}
    (hall : ∀ a ∈ p.members b, a ∈ all) (hc : c ∈ all) (hcb : p.place c ≠ some b) :
    (p.members b).length < all.length := by
  have hnd : (c :: p.members b).Nodup :=
    List.nodup_cons.mpr ⟨fun hm => hcb ((h.mem_iff c b).mp hm), h.nodup b⟩
  have hsub : c :: p.members b ⊆ all := by
    intro x hx
    rcases List.mem_cons.mp hx with rfl | hx
    · exact hc
    · exact hall x hx
  exact Nat.lt_of_succ_le ((List.subperm_of_subset hnd hsub).length_le)

end Roster
