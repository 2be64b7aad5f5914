import Mathlib.Data.List.Basic

/-!
# Depth-first work with a state for each level

An item at a level reads and changes that level's state and drops items to the level below. Worked
depth first, the items of a level do not come one after the other: between two of them lies everything
the first one set off below. Still, nothing that happens below a level changes that level's state. So
each level sees its own items, in order, as if they came one after the other, and the whole work can be
described level by level (`Cascade.level`).

`Settled` is that description, with the rules to build it along the recursion of a depth-first search:
`nil`, `append` and `item`. `Settled.mem_seen` reads off which items the search has met.
-/

set_option autoImplicit false

/-- What an item makes of the state of its level, and the items it drops to the next. -/
structure Cascade (σ ι : Type) where
  react : σ → ι → σ × List ι

namespace Cascade

variable {σ ι : Type} (C : Cascade σ ι)

/-- The state of a level after the items `xs`. -/
def after : σ → List ι → σ
  | s, [] => s
  | s, x :: xs => after (C.react s x).1 xs

/-- What the items `xs` drop, in order. -/
def drops : σ → List ι → List ι
  | _, [] => []
  | s, x :: xs => (C.react s x).2 ++ drops (C.react s x).1 xs

/-- The items `k` levels below level `d`, when `xs` are worked at `d` and `st` are the states before. -/
def level (st : Nat → σ) (d : Nat) (xs : List ι) : Nat → List ι
  | 0 => xs
  | k + 1 => C.drops (st (d + k)) (level st d xs k)

variable {C}

theorem after_append (s : σ) (xs ys : List ι) :
    C.after s (xs ++ ys) = C.after (C.after s xs) ys := by
  induction xs generalizing s with
  | nil => rfl
  | cons x xs ih => exact ih _

theorem drops_append (s : σ) (xs ys : List ι) :
    C.drops s (xs ++ ys) = C.drops s xs ++ C.drops (C.after s xs) ys := by
  induction xs generalizing s with
  | nil => rfl
  | cons x xs ih =>
    show (C.react s x).2 ++ C.drops (C.react s x).1 (xs ++ ys) = _
    rw [ih, ← List.append_assoc]
    rfl

theorem level_nil (st : Nat → σ) (d k : Nat) : C.level st d [] k = [] := by
  induction k with
  | zero => rfl
  | succ k ih => rw [level, ih, drops]

/-- The levels below one item are those of what it drops. -/
theorem level_item (st : Nat → σ) (d : Nat) (x : ι) (k : Nat) :
    C.level st d [x] (k + 1) = C.level st (d + 1) (C.react (st d) x).2 k := by
  induction k with
  | zero =>
    show (C.react (st d) x).2 ++ [] = _
    rw [List.append_nil]
    rfl
  | succ k ih => rw [level, ih, level, Nat.add_right_comm, Nat.add_assoc]

/-- The items `xs` at level `d` have been worked: the states went from `st` to `st'`, and `seen` are
the items met at `d` and below. -/
structure Settled (C : Cascade σ ι) (st st' : Nat → σ) (d : Nat) (xs seen : List ι) : Prop where
  state : ∀ k, st' (d + k) = C.after (st (d + k)) (C.level st d xs k)
  mem_seen : ∀ x, x ∈ seen ↔ ∃ k, x ∈ C.level st d xs k

/-- The levels of `xs ++ ys` are those of `xs`, then those of `ys` in the states `xs` leaves. -/
theorem level_append {st st' : Nat → σ} {d : Nat} {xs : List ι} (ys : List ι)
    (h : ∀ k, st' (d + k) = C.after (st (d + k)) (C.level st d xs k)) (k : Nat) :
    C.level st d (xs ++ ys) k = C.level st d xs k ++ C.level st' d ys k := by
  induction k with
  | zero => rfl
  | succ k ih => rw [level, ih, drops_append, ← h k]; rfl

/-- Nothing worked, nothing changed. -/
theorem Settled.nil {st st' : Nat → σ} {d : Nat} (h : ∀ k, st' (d + k) = st (d + k)) :
    C.Settled st st' d [] [] := by
  refine ⟨fun k => ?_, fun x => ?_⟩
  · rw [level_nil, h k]
    rfl
  · simp [level_nil]

theorem Settled.append {st st₁ st' : Nat → σ} {d : Nat} {xs ys seen seen' : List ι}
    (h : C.Settled st st₁ d xs seen) (h' : C.Settled st₁ st' d ys seen') :
    C.Settled st st' d (xs ++ ys) (seen ++ seen') := by
  have hlevel := level_append ys h.state
  refine ⟨fun k => ?_, fun x => ?_⟩
  · rw [hlevel, after_append, ← h.state k, h'.state k]
  · rw [List.mem_append, h.mem_seen, h'.mem_seen, ← exists_or]
    exact exists_congr fun k => by rw [hlevel, List.mem_append]

/-- One item: its level's state has changed as it should, and what it dropped has been worked. -/
theorem Settled.item {st st' : Nat → σ} {d : Nat} {x : ι} {seen : List ι}
    (hstate : st' d = (C.react (st d) x).1) (h : C.Settled st st' (d + 1) (C.react (st d) x).2 seen) :
    C.Settled st st' d [x] (x :: seen) := by
  refine ⟨fun k => ?_, fun y => ?_⟩
  · cases k with
    | zero => exact hstate
    | succ k =>
      rw [level_item, show d + (k + 1) = d + 1 + k by omega]
      exact h.state k
  · rw [List.mem_cons, h.mem_seen]
    constructor
    · rintro (rfl | ⟨k, hk⟩)
      · exact ⟨0, List.mem_singleton_self _⟩
      · exact ⟨k + 1, by rwa [level_item]⟩
    · rintro ⟨k, hk⟩
      cases k with
      | zero => exact Or.inl (List.mem_singleton.mp hk)
      | succ k => exact Or.inr ⟨k, by rwa [level_item] at hk⟩

end Cascade
