import Mathlib.Data.Finset.Card
import Mathlib.Data.Finset.Image
import Mathlib.Data.Finset.Insert
import Mathlib.Data.Finset.Range
import Mathlib.Logic.Function.Basic

/-!
# Open addressing with linear probing

A set of keys in an array of cells, with one key kept back to mean "empty". The key `k` is looked for in the
cells `(home k + i) % size`, for `i = 0, 1, …`, up to the first that holds it or is empty; and it is
stored where that search ends. Nothing is ever removed.

`probe` is the search, counted down as a loop with `left` turns to go. `Sound` says that the cells hold a
given set of keys, each where its search ends. Storing a key keeps it so (`Sound.store`), and there is
room as long as fewer than `size` keys are stored (`Sound.probe_isSome`).
-/

set_option autoImplicit false

namespace Probe

variable {K : Type} [DecidableEq K] (empty : K) (size : Nat) (home : K → Nat)

/-- The cell looked at in turn `i`. -/
def spot (k : K) (i : Nat) : Nat := (home k + i) % size

/-- The cell where the search for `k` ends, with `left` of the `size` turns to go. -/
def probe (t : Nat → K) (k : K) : Nat → Option Nat
  | 0 => none
  | left + 1 =>
    if t (spot size home k (size - (left + 1))) = empty ∨ t (spot size home k (size - (left + 1))) = k then
      some (spot size home k (size - (left + 1)))
    else probe t k left

variable {empty size home} {t t' : Nat → K} {k : K} {left i : Nat}

/-- The search stops at one of its places, empty or with the key. -/
theorem probe_eq_some (h : probe empty size home t k left = some i) :
    (∃ turn, i = spot size home k turn) ∧ (t i = empty ∨ t i = k) := by
  induction left with
  | zero => exact absurd h (by simp [probe])
  | succ left ih =>
    rw [probe] at h
    split at h
    · obtain rfl := Option.some.inj h
      exact ⟨⟨_, rfl⟩, ‹_›⟩
    · exact ih h

theorem probe_holds (h : probe empty size home t k left = some i) : t i = empty ∨ t i = k :=
  (probe_eq_some h).2

theorem probe_lt (hsize : 0 < size) (h : probe empty size home t k left = some i) : i < size := by
  obtain ⟨turn, rfl⟩ := (probe_eq_some h).1
  exact Nat.mod_lt _ hsize

/-- Filling empty cells does not move the place where a stored key is found, … -/
theorem probe_of_filled (h : probe empty size home t k left = some i) (hi : t i = k)
    (hsame : ∀ j, t j ≠ empty → t' j = t j) (hk : k ≠ empty) :
    probe empty size home t' k left = some i := by
  induction left with
  | zero => exact absurd h (by simp [probe])
  | succ left ih =>
    rw [probe] at h ⊢
    generalize spot size home k (size - (left + 1)) = j at h ⊢
    split at h
    · obtain rfl := Option.some.inj h
      rw [if_pos (.inr ((hsame j (by rw [hi]; exact hk)).trans hi))]
    · rename_i hpass
      have hj := hsame j fun hempty => hpass (.inl hempty)
      rw [if_neg (by rw [hj]; exact hpass)]
      exact ih h

/-- … and a key stored where its search ends is found there. -/
theorem probe_of_stored (h : probe empty size home t k left = some i) :
    probe empty size home (Function.update t i k) k left = some i := by
  induction left with
  | zero => exact absurd h (by simp [probe])
  | succ left ih =>
    have hholds := probe_holds h
    rw [probe] at h ⊢
    generalize spot size home k (size - (left + 1)) = j at h ⊢
    split at h
    · obtain rfl := Option.some.inj h
      rw [if_pos (.inr (Function.update_self ..))]
    · rename_i hpass
      have hne : j ≠ i := by
        rintro rfl
        exact hpass hholds
      rw [if_neg (by rw [Function.update_of_ne hne]; exact hpass)]
      exact ih h

/-- A search that does not end has passed a full cell in each of its turns. -/
theorem full_of_probe_none (hleft : left ≤ size) (h : probe empty size home t k left = none) :
    ∀ j, size - left ≤ j → j < size → t (spot size home k j) ≠ empty := by
  induction left with
  | zero =>
    intro j hj hlt
    omega
  | succ left ih =>
    rw [probe] at h
    split at h
    · exact absurd h (by simp)
    rename_i hpass
    intro j hj hlt
    by_cases hfirst : j = size - (left + 1)
    · subst hfirst
      exact fun hempty => hpass (.inl hempty)
    · exact ih (by omega) h j (by omega) hlt

omit [DecidableEq K] in
/-- The turns of a search reach every cell. -/
theorem exists_spot (home : K → Nat) (k : K) {c : Nat} (hc : c < size) : ∃ j < size, spot size home k j = c := by
  have hmod := Nat.mod_lt (home k) (show 0 < size by omega)
  refine ⟨(c + (size - home k % size)) % size, Nat.mod_lt _ (by omega), ?_⟩
  rw [spot, Nat.add_mod, Nat.mod_mod, ← Nat.add_mod_mod]
  have hsum : home k % size + (c + (size - home k % size)) = c + size := by omega
  rw [Nat.mod_mod, Nat.add_mod_mod, hsum, Nat.add_mod_right, Nat.mod_eq_of_lt hc]

variable (empty size home) in
/-- The cells hold the keys of the set and no others, each where its search ends. -/
structure Sound (t : Nat → K) (keys : Finset K) : Prop where
  found : ∀ k ∈ keys, k ≠ empty ∧ ∃ i, probe empty size home t k size = some i ∧ t i = k
  stored : ∀ i < size, t i ≠ empty → t i ∈ keys
  /-- A key is in one cell. -/
  alone : ∀ i < size, ∀ j < size, t i ≠ empty → t i = t j → i = j

variable {keys : Finset K}

theorem Sound.clear : Sound empty size home (fun _ => empty) ∅ :=
  ⟨by simp, fun _ _ h => absurd rfl h, fun _ _ _ _ h => absurd rfl h⟩

/-- **A key is in the set if and only if its search ends at it.** -/
theorem Sound.mem_iff (h : Sound empty size home t keys) (hsize : 0 < size) (hk : k ≠ empty) :
    k ∈ keys ↔ ∃ i, probe empty size home t k size = some i ∧ t i ≠ empty := by
  constructor
  · intro hmem
    obtain ⟨-, i, hprobe, hi⟩ := h.found k hmem
    exact ⟨i, hprobe, by rw [hi]; exact hk⟩
  · rintro ⟨i, hprobe, hfull⟩
    have hi : t i = k := (probe_holds hprobe).resolve_left hfull
    exact hi ▸ h.stored i (probe_lt hsize hprobe) hfull

/-- **Storing a key** where its search ends adds it to the set. -/
theorem Sound.store (h : Sound empty size home t keys) (hk : k ≠ empty)
    (hprobe : probe empty size home t k size = some i) (hi : t i = empty) :
    Sound empty size home (Function.update t i k) (insert k keys) := by
  have hnew : k ∉ keys := by
    intro hmem
    obtain ⟨-, j, hj, hjk⟩ := h.found k hmem
    obtain rfl := Option.some.inj (hprobe.symm.trans hj)
    exact hk (hjk.symm.trans hi)
  have hkept : ∀ j, t j ≠ empty → Function.update t i k j = t j := fun j hj =>
    Function.update_of_ne (by rintro rfl; exact hj hi) ..
  refine ⟨fun k' hk' => ?_, fun j hj hfull => ?_, fun j hj j' hj' hfull heq => ?_⟩
  · rcases Finset.mem_insert.mp hk' with rfl | hold
    · exact ⟨hk, i, probe_of_stored hprobe, Function.update_self ..⟩
    · obtain ⟨hne, j, hj, hjk⟩ := h.found k' hold
      exact ⟨hne, j, probe_of_filled hj hjk hkept hne, (hkept j (by rw [hjk]; exact hne)).trans hjk⟩
  · by_cases hji : j = i
    · rw [hji, Function.update_self]
      exact Finset.mem_insert_self ..
    · rw [Function.update_of_ne hji] at hfull ⊢
      exact Finset.mem_insert_of_mem (h.stored j hj hfull)
  · -- The stored key is in no other cell, as it was not in the set.
    have hother : ∀ c < size, c ≠ i → t c ≠ k := by
      rintro c hc - rfl
      exact hnew (h.stored c hc hk)
    by_cases hji : j = i
    · by_cases hji' : j' = i
      · rw [hji, hji']
      · rw [hji, Function.update_self, Function.update_of_ne hji'] at heq
        exact absurd heq.symm (hother j' hj' hji')
    · by_cases hji' : j' = i
      · rw [hji', Function.update_self, Function.update_of_ne hji] at heq
        exact absurd heq (hother j hj hji)
      · rw [Function.update_of_ne hji] at hfull
        rw [Function.update_of_ne hji, Function.update_of_ne hji'] at heq
        exact h.alone j hj j' hj' hfull heq

/-- **There is room** for one more key as long as fewer keys than cells are stored. -/
theorem Sound.probe_isSome (h : Sound empty size home t keys) (hroom : keys.card < size) (k : K) :
    ∃ i, probe empty size home t k size = some i := by
  by_contra hnone
  have hnone : probe empty size home t k size = none :=
    Option.eq_none_iff_forall_not_mem.mpr fun i hi => hnone ⟨i, hi⟩
  have hfull : ∀ c < size, t c ≠ empty := by
    intro c hc
    obtain ⟨j, hj, rfl⟩ := exists_spot home k hc
    exact full_of_probe_none le_rfl hnone j (by omega) hj
  have hinj : Set.InjOn t (Finset.range size) := fun i hi j hj heq =>
    h.alone i (Finset.mem_range.mp hi) j (Finset.mem_range.mp hj) (hfull i (Finset.mem_range.mp hi)) heq
  have hle : ((Finset.range size).image t).card ≤ keys.card := by
    refine Finset.card_le_card fun k' hk' => ?_
    obtain ⟨c, hc, rfl⟩ := Finset.mem_image.mp hk'
    exact h.stored c (Finset.mem_range.mp hc) (hfull c (Finset.mem_range.mp hc))
  rw [Finset.card_image_of_injOn hinj, Finset.card_range] at hle
  omega

end Probe
