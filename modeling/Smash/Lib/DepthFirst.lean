import Mathlib.Data.List.Lex
import Mathlib.Data.List.Sort
import Mathlib.Data.Set.Basic
import Mathlib.Order.RelClasses

/-!
# How far a depth-first search has come

A search that takes the choices of every node in increasing order meets the paths of its tree in dictionary
order, a path before its extensions. While it is at the path `s` and has the choices `rest` there still before
it, the paths behind it are those before `s`, `s` itself, and what lies below its other choices
(`DepthFirst.sofar`). As the choices are taken one by one, these sets run through what lies before the first
child, before the second, and so on, to all that is behind once `s` is done.
-/

set_option autoImplicit false

namespace DepthFirst

variable {α : Type} [LinearOrder α] {s rest xs x : List α} {t : α}

theorem lt_append_cons (s : List α) (t : α) (r : List α) : s < s ++ t :: r := by
  have h : s ++ [] < s ++ t :: r := List.append_left_lt (List.nil_lt_cons t r)
  rwa [List.append_nil] at h

theorem lt_of_lt_of_prefix (h : x < s) (hs : s <+: xs) : x < xs := by
  obtain ⟨r, rfl⟩ := hs
  cases r with
  | nil => rwa [List.append_nil]
  | cons t r => exact h.trans (lt_append_cons s t r)

/-- Before the child `t` of `s` come the paths before `s`, `s`, and what lies below a smaller child. -/
theorem lt_snoc_iff : x < s ++ [t] ↔ x < s ∨ x = s ∨ ∃ u r, u < t ∧ x = s ++ u :: r := by
  induction s generalizing x with
  | nil =>
    cases x with
    | nil => simp
    | cons a x => simp [List.cons_lt_cons_iff, List.not_lt_nil]
  | cons b s ih =>
    cases x with
    | nil => simp
    | cons a x =>
      rw [List.cons_append, List.cons_lt_cons_iff, List.cons_lt_cons_iff, ih]
      simp only [List.cons.injEq, List.cons_append]
      constructor
      · rintro (h | ⟨rfl, h | h | ⟨u, r, hu, h⟩⟩)
        · exact .inl (.inl h)
        · exact .inl (.inr ⟨rfl, h⟩)
        · exact .inr (.inl ⟨rfl, h⟩)
        · exact .inr (.inr ⟨u, r, hu, rfl, h⟩)
      · rintro ((h | ⟨rfl, h⟩) | ⟨rfl, h⟩ | ⟨u, r, hu, rfl, h⟩)
        · exact .inl h
        · exact .inr ⟨rfl, .inl h⟩
        · exact .inr ⟨rfl, .inr (.inl h)⟩
        · exact .inr ⟨rfl, .inr (.inr ⟨u, r, hu, h⟩)⟩

/-- Dictionary order of two paths of one length is that of their extensions. -/
theorem append_lt_append {s' : List α} (h : s < s') (hlen : s.length = s'.length) (r r' : List α) :
    s ++ r < s' ++ r' := by
  induction s generalizing s' with
  | nil =>
    rw [List.eq_nil_of_length_eq_zero hlen.symm] at h
    exact absurd h (lt_irrefl _)
  | cons a s ih =>
    cases s' with
    | nil => exact absurd hlen (by simp)
    | cons b s' =>
      rw [List.cons_append, List.cons_append, List.cons_lt_cons_iff]
      exact (List.cons_lt_cons_iff.mp h).imp_right fun ⟨hab, hlt⟩ => ⟨hab, ih hlt (by simpa using hlen)⟩

/-- The paths behind the search while it is at `s`, with the choices `rest` still to be taken. -/
def sofar (s rest : List α) : Set (List α) := {x | (x < s ∨ s <+: x) ∧ ∀ t ∈ rest, ¬ s ++ [t] <+: x}

/-- One more choice is taken. -/
theorem mem_sofar_of_cons (ht : t ∉ rest) :
    x ∈ sofar s rest ↔ x ∈ sofar s (t :: rest) ∨ s ++ [t] <+: x := by
  simp only [sofar, Set.mem_ofPred_eq, List.forall_mem_cons]
  constructor
  · rintro ⟨hx, hrest⟩
    by_cases hbelow : s ++ [t] <+: x
    · exact .inr hbelow
    · exact .inl ⟨hx, hbelow, hrest⟩
  · rintro (⟨hx, -, hrest⟩ | hbelow)
    · exact ⟨hx, hrest⟩
    · refine ⟨.inr ((List.prefix_append s [t]).trans hbelow), fun u hu hu' => ht ?_⟩
      obtain ⟨r, rfl⟩ := hbelow
      obtain ⟨r', hr'⟩ := hu'
      rw [List.append_assoc, List.append_assoc, List.append_cancel_left_eq] at hr'
      exact (List.cons.inj hr').1 ▸ hu

theorem not_prefix_of_lt (h : x < s) : ¬ s <+: x := by
  rintro ⟨r, rfl⟩
  cases r with
  | nil => exact absurd h (by simp)
  | cons a r => exact absurd (h.trans (lt_append_cons s a r)) (lt_irrefl _)

/-- Before any of its choices is taken, what lies behind is what comes before `s`, and `s`. -/
theorem mem_sofar_all (hx : ∀ u r, x = s ++ u :: r → u ∈ xs) : x ∈ sofar s xs ↔ x < s ∨ x = s := by
  constructor
  · rintro ⟨h | ⟨r, rfl⟩, hxs⟩
    · exact .inl h
    · cases r with
      | nil => exact .inr (List.append_nil s)
      | cons u r => exact absurd ⟨r, by simp⟩ (hxs u (hx u r rfl))
  · rintro (h | rfl)
    · exact ⟨.inl h, fun t _ ht => not_prefix_of_lt h ((List.prefix_append s [t]).trans ht)⟩
    · exact ⟨.inr (List.prefix_refl x), fun t _ ht => absurd ht.length_le (by simp)⟩

section child

variable {done : List α} (hsorted : (done ++ t :: rest).Pairwise (· < ·))
  (hx : ∀ u r, x = s ++ u :: r → u ∈ done ++ t :: rest)
include hsorted hx

/-- When the child `t` is next, what lies behind is what comes before it, … -/
theorem mem_sofar_cons : x ∈ sofar s (t :: rest) ↔ x < s ++ [t] := by
  obtain ⟨-, hlater, hearlier⟩ := List.pairwise_append.mp hsorted
  rw [lt_snoc_iff]
  constructor
  · rintro ⟨h | ⟨r, rfl⟩, hrest⟩
    · exact .inl h
    · cases r with
      | nil => exact .inr (.inl (List.append_nil s))
      | cons u r =>
        rcases List.mem_append.mp (hx u r rfl) with hdone | hmem
        · exact .inr (.inr ⟨u, r, hearlier u hdone t List.mem_cons_self, rfl⟩)
        · exact absurd ⟨r, by simp⟩ (hrest u hmem)
  · rintro (h | rfl | ⟨u, r, hu, rfl⟩)
    · exact ⟨.inl h, fun v _ hv => not_prefix_of_lt h ((List.prefix_append s [v]).trans hv)⟩
    · exact ⟨.inr (List.prefix_refl x), fun v _ hv => absurd hv.length_le (by simp)⟩
    · refine ⟨.inr (List.prefix_append s _), fun v hv hpre => ?_⟩
      obtain ⟨r', hr'⟩ := hpre
      rw [List.append_assoc, List.append_cancel_left_eq] at hr'
      obtain rfl := (List.cons.inj hr').1
      rcases List.mem_cons.mp hv with rfl | hv
      · exact lt_irrefl _ hu
      · exact lt_irrefl _ (hu.trans ((List.pairwise_cons.mp hlater).1 _ hv))

/-- … and when it is done, what lies behind is the same seen from `s` and from the child. -/
theorem mem_sofar_back : x ∈ sofar s rest ↔ x ∈ sofar (s ++ [t]) [] := by
  have ht : t ∉ rest := fun hmem =>
    lt_irrefl t ((List.pairwise_cons.mp (List.pairwise_append.mp hsorted).2.1).1 t hmem)
  rw [mem_sofar_of_cons ht, mem_sofar_cons hsorted hx]
  simp [sofar]

end child

/-- What lies behind comes before every child that is still to be taken. -/
theorem lt_of_mem_sofar {done : List α} (hsorted : (done ++ rest).Pairwise (· < ·))
    (hx : ∀ u r, x = s ++ u :: r → u ∈ done ++ rest) (h : x ∈ sofar s rest) (ht : t ∈ rest) :
    x < s ++ [t] := by
  obtain ⟨front, back, rfl⟩ := List.append_of_mem ht
  rw [← List.append_assoc] at hsorted hx
  exact (mem_sofar_cons hsorted hx).mp ⟨h.1, fun u hu => h.2 u (List.mem_append_right _ hu)⟩

end DepthFirst
