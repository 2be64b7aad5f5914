import Mathlib.Order.Bounds.Basic
import Mathlib.Order.Lattice
import Mathlib.Order.Monotone.Basic
import Mathlib.Data.List.Basic

/-!
# Two scans a C program writes by hand

*The index of the best element.* `best = 0; for (i = 1; i < n; i++) if (f(i) > f(best)) best = i;`
is `bestIdx f n`. It is a maximum (`le_bestIdx`), and because the comparison is strict it is the
**first** maximum (`lt_bestIdx_of_lt`). Only the order of the values matters (`bestIdx_comp`).

*The running maximum.* `for (...) if (x > p) p = x;` is `foldMax p xs`, and its result is the
greatest element of the starting value and everything scanned (`foldMax_isGreatest`).
-/

set_option autoImplicit false

/-- The index a strict-comparison scan over `f 0 .. f (n-1)` ends at; `0` when there is nothing
to scan. -/
def bestIdx {β : Type} [LT β] [DecidableLT β] (f : Nat → β) : Nat → Nat
  | 0 => 0
  | n + 1 => if f (bestIdx f n) < f n then n else bestIdx f n

section bestIdx

variable {β : Type} [LinearOrder β] (f : Nat → β)

theorem bestIdx_lt {n : Nat} (h : 0 < n) : bestIdx f n < n := by
  induction n with
  | zero => exact absurd h (Nat.lt_irrefl 0)
  | succ n ih =>
    rw [bestIdx]
    split
    · exact Nat.lt_succ_self n
    · rcases Nat.eq_zero_or_pos n with rfl | hn
      · exact Nat.zero_lt_one
      · exact Nat.lt_succ_of_lt (ih hn)

theorem le_bestIdx {n i : Nat} (h : i < n) : f i ≤ f (bestIdx f n) := by
  induction n with
  | zero => exact absurd h (Nat.not_lt_zero i)
  | succ n ih =>
    rw [bestIdx]
    rcases Nat.lt_succ_iff_lt_or_eq.mp h with hlt | rfl
    · split
      · exact le_trans (ih hlt) (le_of_lt ‹_›)
      · exact ih hlt
    · split
      · exact le_refl _
      · exact le_of_not_gt ‹_›

/-- Everything scanned before the best element is strictly worse: ties go to the earliest. -/
theorem lt_bestIdx_of_lt {n i : Nat} (h : i < bestIdx f n) : f i < f (bestIdx f n) := by
  induction n with
  | zero => exact absurd h (Nat.not_lt_zero i)
  | succ n ih =>
    rw [bestIdx] at h ⊢
    split at h
    · rename_i hbest
      rw [if_pos hbest]
      exact lt_of_le_of_lt (le_bestIdx f h) hbest
    · rename_i hbest
      rw [if_neg hbest]
      exact ih h

/-- Nothing else is the first maximum. -/
theorem bestIdx_unique {n b : Nat} (hb : b < n) (hmax : ∀ i < n, f i ≤ f b)
    (hfirst : ∀ i < b, f i < f b) : bestIdx f n = b := by
  have hn : 0 < n := Nat.lt_of_le_of_lt (Nat.zero_le b) hb
  rcases Nat.lt_trichotomy (bestIdx f n) b with hlt | heq | hgt
  · exact absurd (hfirst _ hlt) (not_lt_of_ge (le_bestIdx f hb))
  · exact heq
  · exact absurd (lt_bestIdx_of_lt f hgt) (not_lt_of_ge (hmax _ (bestIdx_lt f hn)))

theorem bestIdx_congr {f g : Nat → β} {n : Nat} (h : ∀ i < n, f i = g i) :
    bestIdx f n = bestIdx g n := by
  rcases Nat.eq_zero_or_pos n with rfl | hn
  · rfl
  have hb := bestIdx_lt g hn
  refine bestIdx_unique f hb (fun i hi => ?_) fun i hi => ?_
  · rw [h i hi, h _ hb]
    exact le_bestIdx g hi
  · rw [h i (Nat.lt_trans hi hb), h _ hb]
    exact lt_bestIdx_of_lt g hi

/-- Elements that get better, and none of them better than the best, change nothing. -/
theorem bestIdx_keep {f g : Nat → β} {n : Nat} (hle : ∀ i < n, f i ≤ g i)
    (hworse : ∀ i < n, i ≠ bestIdx f n → g i = f i ∨
      g i ≤ f (bestIdx f n) ∧ (g i = f (bestIdx f n) → bestIdx f n < i)) :
    bestIdx g n = bestIdx f n := by
  rcases Nat.eq_zero_or_pos n with rfl | hn
  · rfl
  have hb := bestIdx_lt f hn
  have hbest := hle _ hb
  refine bestIdx_unique g hb (fun i hi => ?_) fun i hi => ?_
  · by_cases hib : i = bestIdx f n
    · rw [hib]
    rcases hworse i hi hib with hsame | ⟨hbelow, _⟩
    · rw [hsame]
      exact (le_bestIdx f hi).trans hbest
    · exact hbelow.trans hbest
  · rcases hworse i (Nat.lt_trans hi hb) (Nat.ne_of_lt hi) with hsame | ⟨hbelow, hties⟩
    · rw [hsame]
      exact lt_of_lt_of_le (lt_bestIdx_of_lt f hi) hbest
    · refine lt_of_lt_of_le (lt_of_le_of_ne hbelow fun htie => ?_) hbest
      exact absurd (hties htie) (Nat.not_lt_of_gt hi)

/-- An element that gets better than the best takes its place. -/
theorem bestIdx_ne {f g : Nat → β} {n i : Nat} (hi : i < n) (hbest : g (bestIdx f n) = f (bestIdx f n))
    (hbetter : f (bestIdx f n) < g i ∨ f (bestIdx f n) = g i ∧ i < bestIdx f n) :
    bestIdx g n ≠ bestIdx f n := by
  intro hsame
  rcases hbetter with hlt | ⟨htie, hearly⟩
  · have hmax := le_bestIdx g hi
    rw [hsame, hbest] at hmax
    exact absurd hlt (not_lt_of_ge hmax)
  · have hfirst := lt_bestIdx_of_lt g (show i < bestIdx g n by rw [hsame]; exact hearly)
    rw [hsame, hbest, htie] at hfirst
    exact lt_irrefl _ hfirst

/-- Where the best element stands is a matter of order. -/
theorem bestIdx_comp {γ : Type} [LinearOrder γ] {g : β → γ} (hg : StrictMono g) (n : Nat) :
    bestIdx (fun i => g (f i)) n = bestIdx f n := by
  induction n with
  | zero => rfl
  | succ n ih =>
    rw [bestIdx, bestIdx, ih]
    simp only [hg.lt_iff_lt]

end bestIdx

/-- The value a running-maximum scan over `xs` ends with, started from `p`. -/
def foldMax {β : Type} [LT β] [DecidableLT β] (p : β) (xs : List β) : β :=
  xs.foldl (fun p x => if p < x then x else p) p

section foldMax

variable {β : Type} [LinearOrder β]

theorem foldMax_isGreatest (p : β) (xs : List β) :
    IsGreatest {x | x = p ∨ x ∈ xs} (foldMax p xs) := by
  induction xs generalizing p with
  | nil => exact ⟨Or.inl rfl, fun x hx => by simpa [foldMax] using le_of_eq (by simpa using hx)⟩
  | cons y ys ih =>
    obtain ⟨hmem, hub⟩ := ih (if p < y then y else p)
    have hfold : foldMax p (y :: ys) = foldMax (if p < y then y else p) ys := rfl
    rw [hfold]
    refine ⟨?_, fun x hx => ?_⟩
    · cases hmem with
      | inl heq =>
        rw [heq]
        split
        · exact Or.inr List.mem_cons_self
        · exact Or.inl rfl
      | inr hm =>
        exact Or.inr (List.mem_cons_of_mem _ hm)
    · -- The new starting value bounds both the old one and the element just scanned.
      have hstart : (if p < y then y else p) ≤ foldMax (if p < y then y else p) ys :=
        hub (Or.inl rfl)
      rcases hx with rfl | hx
      · refine le_trans ?_ hstart
        split
        · exact le_of_lt ‹_›
        · exact le_refl _
      · rcases List.mem_cons.mp hx with rfl | hx
        · refine le_trans ?_ hstart
          split
          · exact le_refl _
          · exact le_of_not_gt ‹_›
        · exact hub (Or.inr hx)

omit [LinearOrder β] in
/-- Scanning one list after another is scanning their concatenation. -/
theorem foldl_foldMax [LT β] [DecidableLT β] {α : Type} (f : α → List β) (p : β) (xs : List α) :
    xs.foldl (fun p x => foldMax p (f x)) p = foldMax p (xs.flatMap f) := by
  induction xs generalizing p with
  | nil => rfl
  | cons x xs ih =>
    rw [List.foldl_cons, ih, List.flatMap_cons]
    unfold foldMax
    rw [List.foldl_append]

end foldMax
