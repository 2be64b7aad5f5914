import Mathlib.Data.Finset.Image
import Mathlib.Data.Int.ConditionallyCompleteOrder
import Mathlib.Data.Set.Finite.Lattice
import Mathlib.Order.Monotone.Extension

/-!
# Two scales in step

A function that keeps the order of finitely many numbers need not go on to an increasing function on all of
them: there is no room between the values. But both scales can be pulled apart until they agree
(`exists_common`). So what does not move under an increasing change of all numbers does not move under a change
that is increasing on those that occur.
-/

set_option autoImplicit false

namespace Scale

variable {s : Finset Int} {f : Int → Int} (hf : ∀ p ∈ s, ∀ q ∈ s, p < q → f p < f q)
include hf

/-- Equal values only go with equal numbers. -/
theorem injective {p q : Int} (hp : p ∈ s) (hq : q ∈ s) (heq : f p = f q) : p = q := by
  rcases lt_trichotomy p q with hlt | hsame | hlt
  · exact absurd heq (hf p hp q hq hlt).ne
  · exact hsame
  · exact absurd heq.symm (hf q hq p hp hlt).ne

theorem lt_of_lt {p q : Int} (hp : p ∈ s) (hq : q ∈ s) (hlt : f p < f q) : p < q := by
  rcases lt_trichotomy p q with h | rfl | hgt
  · exact h
  · exact absurd hlt (lt_irrefl _)
  · exact absurd hlt (lt_asymm (hf q hq p hp hgt))

/-- It goes on to a monotone function. -/
theorem exists_monotone : ∃ g : Int → Int, (∀ {p q : Int}, p ≤ q → g p ≤ g q) ∧ ∀ p ∈ s, g p = f p := by
  have hmono : MonotoneOn f (s : Set Int) := by
    intro p hp q hq hle
    rcases Int.lt_or_eq_of_le hle with hlt | rfl
    · exact (hf p hp q hq hlt).le
    · exact le_rfl
  have hfinite : (f '' (s : Set Int)).Finite := s.finite_toSet.image f
  obtain ⟨g, hg, heq⟩ := hmono.exists_monotone_extension hfinite.bddBelow hfinite.bddAbove
  exact ⟨g, fun hle => hg hle, fun p hp => (heq hp).symm⟩

/-- **Both scales can be pulled apart to a common one**, by functions that increase everywhere. -/
theorem exists_common : ∃ a b : Int → Int, (∀ {p q : Int}, p < q → a p < a q) ∧
    (∀ {p q : Int}, p < q → b p < b q) ∧ ∀ p ∈ s, a p = b (f p) := by
  obtain ⟨g, hg, hgf⟩ := exists_monotone hf
  -- The other way round: from the values back to the numbers.
  obtain ⟨back, hback⟩ : ∃ back : Int → Int, ∀ p ∈ s, back (f p) = p :=
    ⟨Function.invFunOn f s, fun p hp => Set.InjOn.leftInvOn_invFunOn (fun p hp q hq => injective hf hp hq) hp⟩
  have hinverse : ∀ x ∈ s.image f, ∀ y ∈ s.image f, x < y → back x < back y := by
    intro x hx y hy hlt
    obtain ⟨p, hp, rfl⟩ := Finset.mem_image.mp hx
    obtain ⟨q, hq, rfl⟩ := Finset.mem_image.mp hy
    rw [hback p hp, hback q hq]
    exact lt_of_lt hf hp hq hlt
  obtain ⟨h, hh, hhback⟩ := exists_monotone hinverse
  refine ⟨fun p => p + g p, fun x => x + h x, fun hlt => ?_, fun hlt => ?_, fun p hp => ?_⟩
  · exact Int.add_lt_add_of_lt_of_le hlt (hg (Int.le_of_lt hlt))
  · exact Int.add_lt_add_of_lt_of_le hlt (hh (Int.le_of_lt hlt))
  · show p + g p = f p + h (f p)
    rw [hgf p hp, hhback _ (Finset.mem_image_of_mem f hp), hback p hp, Int.add_comm]

end Scale
