import Mathlib.Data.List.Perm.Basic
import Mathlib.Data.List.Sort

/-!
# Exchange sort

Two nested loops over an array: position `i` is compared with each later position `j`, and the two elements
change places when the later one has the smaller key. `exchangePass` is the inner loop, with the element at
`i` held apart from the rest.
-/

set_option autoImplicit false

namespace ExchangeSort

variable {α : Type} (key : α → Int)

/-- The inner loop: the element that ends at `i`, and the later ones. -/
def exchangePass (x : α) : List α → α × List α
  | [] => (x, [])
  | y :: ys =>
    if key y < key x then
      let (least, rest) := exchangePass y ys
      (least, x :: rest)
    else
      let (least, rest) := exchangePass x ys
      (least, y :: rest)

theorem exchangePass_perm (x : α) (ys : List α) :
    ((exchangePass key x ys).1 :: (exchangePass key x ys).2).Perm (x :: ys) := by
  induction ys generalizing x with
  | nil => exact .refl _
  | cons y ys ih =>
    unfold exchangePass
    split
    · exact (List.Perm.swap _ _ _).trans ((ih y).cons x)
    · exact (List.Perm.swap _ _ _).trans (((ih x).cons y).trans (List.Perm.swap _ _ _))

theorem exchangePass_length (x : α) (ys : List α) : (exchangePass key x ys).2.length = ys.length := by
  simpa using (exchangePass_perm key x ys).length_eq

/-- What ends at `i` has the least key. -/
theorem exchangePass_le (x : α) (ys : List α) :
    key (exchangePass key x ys).1 ≤ key x ∧ ∀ y ∈ ys, key (exchangePass key x ys).1 ≤ key y := by
  induction ys generalizing x with
  | nil => simp [exchangePass]
  | cons y ys ih =>
    unfold exchangePass
    split
    · rename_i hlt
      obtain ⟨hy, hrest⟩ := ih y
      exact ⟨hy.trans (Int.le_of_lt hlt), List.forall_mem_cons.mpr ⟨hy, hrest⟩⟩
    · rename_i hge
      obtain ⟨hx, hrest⟩ := ih x
      exact ⟨hx, List.forall_mem_cons.mpr ⟨hx.trans (Int.not_lt.mp hge), hrest⟩⟩

/-- The outer loop. -/
def exchangeSort : List α → List α
  | [] => []
  | x :: xs => (exchangePass key x xs).1 :: exchangeSort (exchangePass key x xs).2
  termination_by l => l.length
  decreasing_by
    rw [exchangePass_length]
    exact Nat.lt_succ_self _

theorem exchangeSort_perm (l : List α) : (exchangeSort key l).Perm l := by
  induction l using exchangeSort.induct key with
  | case1 => simp [exchangeSort]
  | case2 x xs ih =>
    rw [exchangeSort]
    exact (ih.cons _).trans (exchangePass_perm key x xs)

theorem exchangeSort_sorted (l : List α) : (exchangeSort key l).Pairwise fun a b => key a ≤ key b := by
  induction l using exchangeSort.induct key with
  | case1 => simp [exchangeSort]
  | case2 x xs ih =>
    rw [exchangeSort]
    refine List.pairwise_cons.mpr ⟨fun y hy => ?_, ih⟩
    have hrest := (exchangeSort_perm key _).mem_iff.mp hy
    have hmem := (exchangePass_perm key x xs).mem_iff.mp (List.mem_cons_of_mem _ hrest)
    obtain ⟨hx, hxs⟩ := exchangePass_le key x xs
    rcases List.mem_cons.mp hmem with rfl | hlater
    · exact hx
    · exact hxs y hlater

end ExchangeSort
