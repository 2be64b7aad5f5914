import Mathlib.Data.List.Nodup
import Mathlib.Data.List.Perm.Basic
import Mathlib.Data.List.Range
import Mathlib.Logic.Function.Basic

/-!
# Arrays with a live prefix

A C array that grows and shrinks by hand is a block of cells and a counter: `a[0 .. n)` is the
value, everything at `n` and beyond is whatever an earlier use left there. `LiveArray` is that
pair. The cells are a total function, so a dead cell has *some* content and nothing below may
read it; `toList` is the live prefix, and the lemmas say what each operation does to it.

The one operation that is not a list operation read off its name is `swapRemove`, the O(1)
removal that moves the last element into the hole. It does not keep the order, except at the end of
the array (`toList_swapRemove_of_le`): what it keeps is the multiset (`swapRemove_perm`), and that is
all the results about membership and duplicates ever need.

`map` changes what the cells hold, the dead ones with the live ones.

An array that is only filled up to a capacity keeps the beginning of what is pushed
(`toList_foldl_pushWithin`), and one that is emptied from its end gives it back in reverse (`drain_eq`).
-/

set_option autoImplicit false

/-- Cells and a count of the live ones. -/
structure LiveArray (α : Type) where
  /-- The content of every cell, live or dead. -/
  cell : Nat → α
  /-- How many cells, from the first, are live. -/
  count : Nat

namespace LiveArray

open scoped List

variable {α : Type}

/-- The live prefix. -/
def toList (a : LiveArray α) : List α := (List.range a.count).map a.cell

/-- No live cell; every dead cell holds `x`. -/
def replicate (x : α) : LiveArray α := ⟨fun _ => x, 0⟩

/-- `a[n++] = x`. -/
def push (a : LiveArray α) (x : α) : LiveArray α :=
  ⟨Function.update a.cell a.count x, a.count + 1⟩

/-- `--n`: the last live cell dies with its content in place. -/
def dropLast (a : LiveArray α) : LiveArray α := ⟨a.cell, a.count - 1⟩

/-- `a[i] = a[--n]`. -/
def swapRemove (a : LiveArray α) (i : Nat) : LiveArray α :=
  ⟨Function.update a.cell i (a.cell (a.count - 1)), a.count - 1⟩

/-- `n = 0`: every cell dies. -/
def clear (a : LiveArray α) : LiveArray α := ⟨a.cell, 0⟩

/-- `memcpy(a, l, len)` and `n = len`. -/
def overwrite (a : LiveArray α) (l : List α) : LiveArray α := ⟨fun i => l.getD i (a.cell i), l.length⟩

/-! ## Counts -/

@[simp] theorem count_push (a : LiveArray α) (x : α) : (a.push x).count = a.count + 1 := rfl

@[simp] theorem count_dropLast (a : LiveArray α) : a.dropLast.count = a.count - 1 := rfl

@[simp] theorem count_swapRemove (a : LiveArray α) (i : Nat) :
    (a.swapRemove i).count = a.count - 1 := rfl

@[simp] theorem count_clear (a : LiveArray α) : a.clear.count = 0 := rfl

@[simp] theorem count_overwrite (a : LiveArray α) (l : List α) : (a.overwrite l).count = l.length := rfl

@[simp] theorem length_toList (a : LiveArray α) : a.toList.length = a.count := by
  simp [toList]

theorem toList_eq_nil {a : LiveArray α} : a.toList = [] ↔ a.count = 0 := by
  rw [← List.length_eq_zero_iff, length_toList]

/-! ## The live prefix after each operation -/

@[simp] theorem toList_clear (a : LiveArray α) : a.clear.toList = [] := rfl

@[simp] theorem toList_replicate (x : α) : (replicate x).toList = [] := rfl

@[simp] theorem toList_overwrite (a : LiveArray α) (l : List α) : (a.overwrite l).toList = l := by
  refine List.ext_getElem (by simp) fun i h₁ h₂ => ?_
  simp [toList, overwrite, h₂]

theorem mem_toList {a : LiveArray α} {x : α} : x ∈ a.toList ↔ ∃ i < a.count, a.cell i = x := by
  simp [toList]

theorem cell_mem {a : LiveArray α} {i : Nat} (h : i < a.count) : a.cell i ∈ a.toList :=
  mem_toList.mpr ⟨i, h, rfl⟩

theorem count_pos_of_mem {a : LiveArray α} {x : α} (h : x ∈ a.toList) : 0 < a.count := by
  obtain ⟨i, hi, _⟩ := mem_toList.mp h
  omega

theorem cell_inj {a : LiveArray α} (h : a.toList.Nodup) {i j : Nat} (hi : i < a.count)
    (hj : j < a.count) (heq : a.cell i = a.cell j) : i = j :=
  List.inj_on_of_nodup_map h (List.mem_range.mpr hi) (List.mem_range.mpr hj) heq

@[simp] theorem toList_push (a : LiveArray α) (x : α) : (a.push x).toList = a.toList ++ [x] := by
  have hlive : (List.range a.count).map (Function.update a.cell a.count x)
      = (List.range a.count).map a.cell := by
    refine List.map_congr_left fun i hi => ?_
    exact Function.update_of_ne (Nat.ne_of_lt (List.mem_range.mp hi)) ..
  simp [toList, push, List.range_succ, hlive]

theorem toList_dropLast {a : LiveArray α} (h : 0 < a.count) :
    a.toList = a.dropLast.toList ++ [a.cell (a.count - 1)] := by
  obtain ⟨n, hn⟩ : ∃ n, a.count = n + 1 := ⟨a.count - 1, by omega⟩
  simp [toList, dropLast, hn, List.range_succ]

/-- Writing a live cell is `List.set` on the prefix. -/
theorem map_update_range (f : Nat → α) (i n : Nat) (x : α) :
    (List.range n).map (Function.update f i x) = ((List.range n).map f).set i x := by
  refine List.ext_getElem (by simp) fun j h₁ h₂ => ?_
  simp only [List.getElem_map, List.getElem_range, List.getElem_set]
  by_cases hj : i = j
  · subst hj; simp
  · rw [if_neg hj, Function.update_of_ne (Ne.symm hj)]

/-- **Swap-with-last removes one occurrence and nothing else**, up to order. -/
theorem swapRemove_perm {a : LiveArray α} {i : Nat} (h : i < a.count) :
    (a.cell i :: (a.swapRemove i).toList).Perm a.toList := by
  obtain ⟨n, hn⟩ : ∃ n, a.count = n + 1 := ⟨a.count - 1, by omega⟩
  have hsplit : a.toList = (List.range n).map a.cell ++ [a.cell n] := by
    simp [toList, hn, List.range_succ]
  have hset : (a.swapRemove i).toList = ((List.range n).map a.cell).set i (a.cell n) := by
    simp [toList, swapRemove, hn, map_update_range]
  rw [hsplit, hset]
  cases Nat.lt_or_ge i n with
  | inl hi =>
    -- The last element lands in the hole: compare both sides with the hole erased.
    have hlen : i < ((List.range n).map a.cell).length := by simpa using hi
    have hget : ((List.range n).map a.cell)[i] = a.cell i := by simp
    calc a.cell i :: ((List.range n).map a.cell).set i (a.cell n)
        ~ a.cell i :: a.cell n :: ((List.range n).map a.cell).eraseIdx i :=
          (List.set_perm_cons_eraseIdx hlen _).cons _
      _ ~ a.cell n :: a.cell i :: ((List.range n).map a.cell).eraseIdx i := .swap ..
      _ ~ a.cell n :: (List.range n).map a.cell := by
          rw [← hget]; exact (List.getElem_cons_eraseIdx_perm hlen).cons _
      _ ~ (List.range n).map a.cell ++ [a.cell n] := (List.perm_append_singleton ..).symm
  | inr hi =>
    -- The removed element is the last one.
    have hin : i = n := by omega
    subst hin
    rw [List.set_eq_of_length_le (by simp)]
    exact (List.perm_append_singleton ..).symm

/-- … and nothing new appears. -/
theorem mem_of_mem_swapRemove {a : LiveArray α} {i : Nat} (h : i < a.count) {x : α}
    (hx : x ∈ (a.swapRemove i).toList) : x ∈ a.toList :=
  (swapRemove_perm h).mem_iff.mp (List.mem_cons_of_mem _ hx)

/-- Among the last two, it keeps the order. -/
theorem toList_swapRemove_of_le {a : LiveArray α} {i : Nat} (h : i < a.count) (hend : a.count ≤ i + 2) :
    (a.swapRemove i).toList = a.toList.eraseIdx i := by
  have hlen : (a.toList.eraseIdx i).length = a.count - 1 := by
    rw [List.length_eraseIdx, length_toList, if_pos h]
  refine List.ext_getElem (by rw [hlen, length_toList]; rfl) fun j h₁ h₂ => ?_
  have hj : j < a.count - 1 := by rwa [hlen] at h₂
  rw [List.getElem_eraseIdx]
  simp only [toList, swapRemove, List.getElem_map, List.getElem_range]
  split
  · rename_i hlt
    exact Function.update_of_ne (Nat.ne_of_lt hlt) ..
  · -- The hole is the last place but one, and takes the last element.
    have hhole : j = i := by omega
    subst hhole
    rw [Function.update_self]
    congr 1
    omega

/-! ## Two arrays with the same live prefix

What an operation makes of the live prefix depends on the live prefix only, so the operations keep it the
same. -/

section same

variable {a b : LiveArray α}

theorem toList_eq_iff : b.toList = a.toList ↔ b.count = a.count ∧ ∀ i < a.count, b.cell i = a.cell i := by
  constructor
  · intro h
    have hcount : b.count = a.count := by rw [← length_toList, h, length_toList]
    refine ⟨hcount, fun i hi => ?_⟩
    unfold toList at h
    rw [hcount] at h
    exact List.map_inj_left.mp h i (List.mem_range.mpr hi)
  · rintro ⟨hcount, hcell⟩
    unfold toList
    rw [hcount]
    exact List.map_congr_left fun i hi => hcell i (List.mem_range.mp hi)

theorem count_eq (h : b.toList = a.toList) : b.count = a.count := (toList_eq_iff.mp h).1

theorem cell_eq (h : b.toList = a.toList) {i : Nat} (hi : i < a.count) : b.cell i = a.cell i :=
  (toList_eq_iff.mp h).2 i hi

theorem same_push (h : b.toList = a.toList) (x : α) : (b.push x).toList = (a.push x).toList := by
  rw [toList_push, toList_push, h]

theorem same_dropLast (h : b.toList = a.toList) : b.dropLast.toList = a.dropLast.toList := by
  obtain ⟨hcount, hcell⟩ := toList_eq_iff.mp h
  refine toList_eq_iff.mpr ⟨?_, fun i hi => hcell i ?_⟩
  · rw [count_dropLast, count_dropLast, hcount]
  · rw [count_dropLast] at hi
    omega

theorem same_swapRemove (h : b.toList = a.toList) (i : Nat) :
    (b.swapRemove i).toList = (a.swapRemove i).toList := by
  obtain ⟨hcount, hcell⟩ := toList_eq_iff.mp h
  refine toList_eq_iff.mpr ⟨?_, fun j hj => ?_⟩
  · rw [count_swapRemove, count_swapRemove, hcount]
  · rw [count_swapRemove] at hj
    unfold swapRemove
    dsimp only
    rw [hcount, hcell (a.count - 1) (by omega)]
    -- The hole is filled with the same element, the rest was the same before.
    by_cases hhole : j = i
    · rw [hhole, Function.update_self, Function.update_self]
    · rw [Function.update_of_ne hhole, Function.update_of_ne hhole]
      exact hcell j (by omega)

end same

/-! ## Other contents -/

section map

variable {β : Type} (f : α → β) (a : LiveArray α)

/-- `f` of every cell, also of the dead ones. -/
def map : LiveArray β := ⟨fun i => f (a.cell i), a.count⟩

@[simp] theorem count_map : (a.map f).count = a.count := rfl

@[simp] theorem cell_map (i : Nat) : (a.map f).cell i = f (a.cell i) := rfl

theorem map_push (x : α) : (a.push x).map f = (a.map f).push (f x) := by
  unfold map push
  congr 1
  exact funext fun i => Function.apply_update (fun _ => f) a.cell a.count x i

end map

/-! ## Filling up to a capacity, and draining -/

/-- `if (n < cap) a[n++] = x`. -/
def pushWithin (a : LiveArray α) (cap : Nat) (x : α) : LiveArray α := if a.count < cap then a.push x else a

theorem count_pushWithin_le {a : LiveArray α} {cap : Nat} (h : a.count ≤ cap) (x : α) :
    (a.pushWithin cap x).count ≤ cap := by
  unfold pushWithin
  split
  · rw [count_push]
    omega
  · exact h

theorem toList_pushWithin {a : LiveArray α} {cap : Nat} (h : a.count ≤ cap) (x : α) :
    (a.pushWithin cap x).toList = (a.toList ++ [x]).take cap := by
  unfold pushWithin
  split
  · rw [toList_push, List.take_of_length_le (by rw [List.length_append, length_toList]; simpa)]
  · rw [List.take_append_of_le_length (by rw [length_toList]; omega),
      List.take_of_length_le (by rwa [length_toList])]

/-- What does not fit is lost, and it is what came last. -/
theorem toList_foldl_pushWithin {a : LiveArray α} {cap : Nat} (h : a.count ≤ cap) (xs : List α) :
    (xs.foldl (·.pushWithin cap ·) a).toList = (a.toList ++ xs).take cap := by
  induction xs generalizing a with
  | nil => rw [List.append_nil, List.take_of_length_le (by rwa [length_toList]), List.foldl_nil]
  | cons x xs ih =>
    have hcut : cap - min cap (a.toList ++ [x]).length = cap - (a.toList ++ [x]).length := by omega
    rw [List.foldl_cons, ih (count_pushWithin_le h x), toList_pushWithin h, List.append_cons a.toList x xs,
      List.take_append, List.take_take, Nat.min_self, List.length_take, hcut,
      @List.take_append _ (a.toList ++ [x]) xs]

/-- The elements that `n` turns of `x = a[--n]` take, the last first. -/
def drain : Nat → LiveArray α → List α
  | 0, _ => []
  | n + 1, a => if a.count = 0 then [] else a.cell (a.count - 1) :: drain n a.dropLast

theorem drain_eq {n : Nat} {a : LiveArray α} (h : a.count ≤ n) : drain n a = a.toList.reverse := by
  induction n generalizing a with
  | zero => rw [drain, toList_eq_nil.mpr (Nat.le_zero.mp h), List.reverse_nil]
  | succ n ih =>
    rw [drain]
    split
    · rw [toList_eq_nil.mpr ‹_›, List.reverse_nil]
    · rw [ih (by rw [count_dropLast]; omega), toList_dropLast (a := a) (by omega), List.reverse_append]
      rfl

end LiveArray
