import Mathlib.Data.List.Range
import Mathlib.Logic.Function.Basic
import Smash.Lib.Transition

/-!
# Ring buffers and bounded deques

A ring is an array of `cap` cells of which `count`, from `head` on and round the end, hold the content;
`tail` is the cell behind them. What it stands for is a list of at most `cap` elements that grows at both
ends and shrinks at the front: the system `Deque.system`. `RingBuffer.toList` reads the list off the cells, and
the three operations are the three steps of the system (`pushBack_step`, `pushFront_step`,
`popFront_step`), as long as the indices are where they belong (`RingBuffer.Wf`).

The cells are a total function of an integer index: the operations read and write none outside `0 .. cap-1`
(`Wf`).
-/

set_option autoImplicit false

/-! ## The abstract deque -/

namespace Deque

/-- What happens to a deque; `popFront v` is the removal that returns `v`. -/
inductive Op (α : Type) where
  | pushBack (v : α)
  | pushFront (v : α)
  | popFront (v : α)

/-- The content after an operation that is possible. -/
inductive Step {α : Type} (cap : Int) : List α → Op α → List α → Prop
  | pushBack {l : List α} {v : α} : (l.length : Int) < cap → Step cap l (.pushBack v) (l ++ [v])
  | pushFront {l : List α} {v : α} : (l.length : Int) < cap → Step cap l (.pushFront v) (v :: l)
  | popFront {l : List α} {v : α} : Step cap (v :: l) (.popFront v) l

/-- The deque of capacity `cap`, empty at first. -/
def system (α : Type) (cap : Int) : TransitionSystem (List α) (Op α) where
  init l := l = []
  step := Step cap

end Deque

/-! ## The ring -/

structure RingBuffer (α : Type) where
  cell : Int → α
  head : Int
  tail : Int
  count : Int

namespace RingBuffer

variable {α : Type} {cap : Int} {r : RingBuffer α}

/-- The content, from the front. -/
def toList (cap : Int) (r : RingBuffer α) : List α :=
  (List.range r.count.toNat).map fun i : Nat => r.cell ((r.head + i) % cap)

/-- The indices are in range and `tail` is where the content ends. -/
structure Wf (cap : Int) (r : RingBuffer α) : Prop where
  head_nonneg : 0 ≤ r.head
  head_lt : r.head < cap
  count_nonneg : 0 ≤ r.count
  count_le : r.count ≤ cap
  tail_eq : r.tail = (r.head + r.count) % cap

/-- Write at the tail and step it on. -/
def pushBack (cap : Int) (r : RingBuffer α) (v : α) : RingBuffer α :=
  { r with
    cell := Function.update r.cell r.tail v
    tail := (r.tail + 1) % cap
    count := r.count + 1 }

/-- Step the head back and write there. -/
def pushFront (cap : Int) (r : RingBuffer α) (v : α) : RingBuffer α :=
  { r with
    cell := Function.update r.cell ((r.head - 1 + cap) % cap) v
    head := (r.head - 1 + cap) % cap
    count := r.count + 1 }

/-- Step the head on. -/
def popFront (cap : Int) (r : RingBuffer α) : RingBuffer α :=
  { r with head := (r.head + 1) % cap, count := r.count - 1 }

/-! ### Indices -/

/-- An index that has run over the end at most once. -/
theorem wrap_eq {a : Int} (h0 : 0 ≤ a) (h : a < 2 * cap) :
    a % cap = if a < cap then a else a - cap := by
  split
  · exact Int.emod_eq_of_lt h0 ‹_›
  · rw [← Int.sub_emod_right]
    exact Int.emod_eq_of_lt (by omega) (by omega)

/-- Different distances from the head, of less than a turn, are different cells. -/
theorem wrap_ne {a i j : Int} (ha : 0 ≤ a) (hac : a < cap) (hi : 0 ≤ i) (hij : i < j) (hj : j < cap) :
    (a + i) % cap ≠ (a + j) % cap := by
  rw [wrap_eq (by omega) (by omega), wrap_eq (by omega) (by omega)]
  split <;> split <;> omega

theorem Wf.tail_nonneg (h : r.Wf cap) : 0 ≤ r.tail := by
  have := h.head_nonneg
  have := h.head_lt
  rw [h.tail_eq]
  exact Int.emod_nonneg _ (by omega)

@[simp] theorem length_toList (cap : Int) (r : RingBuffer α) :
    (r.toList cap).length = r.count.toNat := by
  simp [toList]

/-- An empty ring, wherever its head is. -/
theorem toList_eq_nil (h : r.count = 0) : r.toList cap = [] := by
  simp [toList, h]

/-! ### The operations keep the ring well formed -/

theorem Wf.pushBack (h : r.Wf cap) (hroom : r.count < cap) (v : α) : (r.pushBack cap v).Wf cap where
  head_nonneg := h.head_nonneg
  head_lt := h.head_lt
  count_nonneg := by have := h.count_nonneg; show 0 ≤ r.count + 1; omega
  count_le := by show r.count + 1 ≤ cap; omega
  tail_eq := by
    show (r.tail + 1) % cap = (r.head + (r.count + 1)) % cap
    rw [h.tail_eq, Int.emod_add_emod, Int.add_assoc]

theorem Wf.pushFront (h : r.Wf cap) (hroom : r.count < cap) (v : α) :
    (r.pushFront cap v).Wf cap where
  head_nonneg := Int.emod_nonneg _ (by have := h.head_nonneg; have := h.head_lt; omega)
  head_lt := Int.emod_lt_of_pos _ (by have := h.head_nonneg; have := h.head_lt; omega)
  count_nonneg := by have := h.count_nonneg; show 0 ≤ r.count + 1; omega
  count_le := by show r.count + 1 ≤ cap; omega
  tail_eq := by
    show r.tail = ((r.head - 1 + cap) % cap + (r.count + 1)) % cap
    rw [h.tail_eq, Int.emod_add_emod,
      show r.head - 1 + cap + (r.count + 1) = r.head + r.count + cap by omega, Int.add_emod_right]

theorem Wf.popFront (h : r.Wf cap) (hlive : 0 < r.count) : (r.popFront cap).Wf cap where
  head_nonneg := Int.emod_nonneg _ (by have := h.head_nonneg; have := h.head_lt; omega)
  head_lt := Int.emod_lt_of_pos _ (by have := h.head_nonneg; have := h.head_lt; omega)
  count_nonneg := by show 0 ≤ r.count - 1; omega
  count_le := by have := h.count_le; show r.count - 1 ≤ cap; omega
  tail_eq := by
    show r.tail = ((r.head + 1) % cap + (r.count - 1)) % cap
    rw [h.tail_eq, Int.emod_add_emod, show r.head + 1 + (r.count - 1) = r.head + r.count by omega]

/-! ### The cells in use -/

/-- The cells in use are below `bound`, which may be less than the capacity. -/
def LiveBelow (cap bound : Int) (r : RingBuffer α) : Prop :=
  ∀ i : Int, 0 ≤ i → i < r.count → (r.head + i) % cap < bound

variable {bound : Int}

theorem LiveBelow.head_lt (h : r.LiveBelow cap bound) (hwf : r.Wf cap) (hlive : 0 < r.count) :
    r.head < bound := by
  have := h 0 (Int.le_refl 0) hlive
  rwa [Int.add_zero, Int.emod_eq_of_lt hwf.head_nonneg hwf.head_lt] at this

theorem LiveBelow.pushBack (h : r.LiveBelow cap bound) (hwf : r.Wf cap) (htail : r.tail < bound)
    (v : α) : (r.pushBack cap v).LiveBelow cap bound := by
  intro i h0 hi
  have hi : i < r.count + 1 := hi
  rcases Int.lt_or_eq_of_le (Int.lt_add_one_iff.mp hi) with hlt | rfl
  · exact h i h0 hlt
  · show (r.head + r.count) % cap < bound
    rwa [← hwf.tail_eq]

theorem LiveBelow.pushFront (h : r.LiveBelow cap bound)
    (hhead : (r.head - 1 + cap) % cap < bound) (v : α) :
    (r.pushFront cap v).LiveBelow cap bound := by
  intro i h0 hi
  have hi : i < r.count + 1 := hi
  show ((r.head - 1 + cap) % cap + i) % cap < bound
  by_cases hfirst : i = 0
  · rwa [hfirst, Int.add_zero, Int.emod_emod]
  · rw [Int.emod_add_emod, show r.head - 1 + cap + i = r.head + (i - 1) + cap by omega,
      Int.add_emod_right]
    exact h (i - 1) (by omega) (by omega)

theorem LiveBelow.popFront (h : r.LiveBelow cap bound) :
    (r.popFront cap).LiveBelow cap bound := by
  intro i h0 hi
  have hi : i < r.count - 1 := hi
  show ((r.head + 1) % cap + i) % cap < bound
  rw [Int.emod_add_emod, show r.head + 1 + i = r.head + (i + 1) by omega]
  exact h (i + 1) (by omega) (by omega)

/-! ### The operations are steps of the deque -/

theorem toList_pushBack (h : r.Wf cap) (hroom : r.count < cap) (v : α) :
    (r.pushBack cap v).toList cap = r.toList cap ++ [v] := by
  have hcount := h.count_nonneg
  have hlast : ((r.count.toNat : Nat) : Int) = r.count := Int.toNat_of_nonneg hcount
  unfold toList
  rw [show (r.pushBack cap v).count.toNat = r.count.toNat + 1 by
    show (r.count + 1).toNat = _; omega, List.range_succ, List.map_append]
  congr 1
  · refine List.map_congr_left fun i hi => ?_
    -- The new message is in none of the cells that were in use.
    have hi := List.mem_range.mp hi
    refine Function.update_of_ne ?_ _ _
    rw [h.tail_eq]
    exact wrap_ne h.head_nonneg h.head_lt (by omega) (by omega) hroom
  · rw [List.map_singleton, hlast]
    show [Function.update r.cell r.tail v ((r.head + r.count) % cap)] = [v]
    rw [← h.tail_eq, Function.update_self]

theorem toList_pushFront (h : r.Wf cap) (hroom : r.count < cap) (v : α) :
    (r.pushFront cap v).toList cap = v :: r.toList cap := by
  have hcount := h.count_nonneg
  have hhead := h.head_nonneg
  have hlt := h.head_lt
  have hfirst : ((r.head - 1 + cap) % cap + 0) % cap = (r.head - 1 + cap) % cap := by
    rw [Int.add_zero, Int.emod_emod]
  have hnext : ∀ i : Nat, ((r.head - 1 + cap) % cap + ((i + 1 : Nat) : Int)) % cap
      = (r.head + i) % cap := by
    intro i
    rw [Int.emod_add_emod, show r.head - 1 + cap + ((i + 1 : Nat) : Int) = r.head + i + cap by omega,
      Int.add_emod_right]
  unfold toList
  rw [show (r.pushFront cap v).count.toNat = r.count.toNat + 1 by
    show (r.count + 1).toNat = _; omega, List.range_succ_eq_map, List.map_cons, List.map_map]
  congr 1
  · show Function.update r.cell _ v (((r.head - 1 + cap) % cap + ((0 : Nat) : Int)) % cap) = v
    rw [Int.natCast_zero, hfirst, Function.update_self]
  · refine List.map_congr_left fun i hi => ?_
    have hi := List.mem_range.mp hi
    show Function.update r.cell ((r.head - 1 + cap) % cap) v
      (((r.head - 1 + cap) % cap + ((i + 1 : Nat) : Int)) % cap) = _
    refine (Function.update_of_ne ?_ _ _).trans (by rw [hnext])
    have hne : ((r.head - 1 + cap) % cap + ((0 : Nat) : Int)) % cap
        ≠ ((r.head - 1 + cap) % cap + ((i + 1 : Nat) : Int)) % cap :=
      wrap_ne (Int.emod_nonneg _ (by omega)) (Int.emod_lt_of_pos _ (by omega)) (by omega) (by omega)
        (by omega)
    rw [Int.natCast_zero, hfirst] at hne
    exact Ne.symm hne

theorem toList_popFront (h : r.Wf cap) (hlive : 0 < r.count) :
    r.toList cap = r.cell r.head :: (r.popFront cap).toList cap := by
  unfold toList
  rw [show r.count.toNat = (r.popFront cap).count.toNat + 1 by
    show _ = (r.count - 1).toNat + 1; omega, List.range_succ_eq_map, List.map_cons, List.map_map]
  congr 1
  · rw [Int.natCast_zero, Int.add_zero, Int.emod_eq_of_lt h.head_nonneg h.head_lt]
  · refine List.map_congr_left fun i _ => ?_
    show r.cell ((r.head + ((i + 1 : Nat) : Int)) % cap) = r.cell (((r.head + 1) % cap + i) % cap)
    rw [Int.emod_add_emod, show r.head + ((i + 1 : Nat) : Int) = r.head + 1 + i by omega]

theorem pushBack_step (h : r.Wf cap) (hroom : r.count < cap) (v : α) :
    (Deque.system α cap).step (r.toList cap) (.pushBack v) ((r.pushBack cap v).toList cap) := by
  have hcount := h.count_nonneg
  rw [toList_pushBack h hroom]
  exact .pushBack (by rw [length_toList]; omega)

theorem pushFront_step (h : r.Wf cap) (hroom : r.count < cap) (v : α) :
    (Deque.system α cap).step (r.toList cap) (.pushFront v) ((r.pushFront cap v).toList cap) := by
  have hcount := h.count_nonneg
  rw [toList_pushFront h hroom]
  exact .pushFront (by rw [length_toList]; omega)

theorem popFront_step (h : r.Wf cap) (hlive : 0 < r.count) :
    (Deque.system α cap).step (r.toList cap) (.popFront (r.cell r.head))
      ((r.popFront cap).toList cap) := by
  rw [toList_popFront h hlive]
  exact .popFront

end RingBuffer
