import Mathlib.Data.Finset.Card
import Mathlib.Data.Finset.Insert
import Mathlib.Logic.Relation
import Mathlib.Order.Bounds.Basic

/-!
# Closing a finite set by sweeps

The closure of a set under a relation, as a program without a worklist computes it: go over all
candidates `xs`, add each that some member of the set is related to, and start over until a whole sweep
adds nothing (or until there is nothing left to add).

```
while (changed && S != xs)  { changed = false;  for (q : xs) if (q ∉ S && ∃ p ∈ S, rel(p, q)) add q; }
```

A sweep reads the set that it extends, so how many sweeps it takes depends on the order of `xs`. The
result does not: one sweep for each candidate is enough (`ends_saturate`), and what comes out is what can be
reached from the start (`mem_saturate`), the least closed set around it (`saturate_isLeast`).
-/

set_option autoImplicit false

namespace Saturate

variable {α : Type} [DecidableEq α] (rel : α → α → Bool) (xs : List α)

/-- Add `q` if a member of the set is related to it. -/
def absorb (S : Finset α) (q : α) : Finset α :=
  if q ∈ S then S
  else if xs.any (fun p => p ∈ S && rel p q) then insert q S
  else S

def sweep (S : Finset α) : Finset α := xs.foldl (absorb rel xs) S

def saturate : Nat → Finset α → Finset α
  | 0, S => S
  | n + 1, S =>
    if S = xs.toFinset then S
    else if sweep rel xs S = S then S
    else saturate n (sweep rel xs S)

/-- From a member to a candidate it is related to. -/
def Pulls (p q : α) : Prop := q ∈ xs ∧ rel p q = true

/-- There is nothing left to add. -/
def Closed (S : Finset α) : Prop := ∀ p ∈ S, ∀ q, Pulls rel xs p q → q ∈ S

variable {rel xs} {S : Finset α}

theorem absorb_cases (rel : α → α → Bool) (xs : List α) (S : Finset α) (q : α) :
    absorb rel xs S q = S ∨ ∃ p ∈ S, rel p q = true ∧ absorb rel xs S q = insert q S := by
  unfold absorb
  split
  · exact .inl rfl
  split
  · rename_i hany
    obtain ⟨p, _, hp⟩ := List.any_eq_true.mp hany
    simp only [Bool.and_eq_true, decide_eq_true_eq] at hp
    exact .inr ⟨p, hp.1, hp.2, rfl⟩
  · exact .inl rfl

theorem subset_absorb (S : Finset α) (q : α) : S ⊆ absorb rel xs S q := by
  rcases absorb_cases rel xs S q with h | ⟨_, _, _, h⟩
  · rw [h]
  · rw [h]; exact Finset.subset_insert q S

theorem subset_foldl (ys : List α) (S : Finset α) : S ⊆ ys.foldl (absorb rel xs) S := by
  induction ys generalizing S with
  | nil => exact Finset.Subset.refl S
  | cons y ys ih => exact (subset_absorb S y).trans (ih _)

/-- What holds of the set and goes over to every candidate that it pulls in holds of the swept set. -/
theorem forall_mem_sweep {P : α → Prop} (hpull : ∀ p q, P p → Pulls rel xs p q → P q)
    (h : ∀ p ∈ S, P p) : ∀ p ∈ sweep rel xs S, P p := by
  have hfold : ∀ (ys : List α) (S : Finset α), (∀ q ∈ ys, q ∈ xs) → (∀ p ∈ S, P p) →
      ∀ p ∈ ys.foldl (absorb rel xs) S, P p := by
    intro ys
    induction ys with
    | nil => exact fun _ _ hS => hS
    | cons y ys ih =>
      intro S hys hS
      refine ih _ (fun q hq => hys q (List.mem_cons_of_mem y hq)) ?_
      rcases absorb_cases rel xs S y with heq | ⟨p, hp, hrel, heq⟩
      · rw [heq]; exact hS
      · rw [heq]
        intro q hq
        rcases Finset.mem_insert.mp hq with rfl | hq
        · exact hpull p q (hS p hp) ⟨hys q List.mem_cons_self, hrel⟩
        · exact hS q hq
  exact hfold xs S (fun _ hq => hq) h

/-- A fold that adds nothing has added nothing on the way. -/
theorem absorb_of_foldl {ys : List α} (h : ys.foldl (absorb rel xs) S = S) :
    ∀ q ∈ ys, absorb rel xs S q = S := by
  induction ys with
  | nil => exact fun q hq => absurd hq List.not_mem_nil
  | cons y ys ih =>
    have hfirst : absorb rel xs S y = S :=
      Finset.Subset.antisymm ((subset_foldl ys _).trans (Finset.subset_of_eq h)) (subset_absorb S y)
    rw [List.foldl_cons, hfirst] at h
    intro q hq
    rcases List.mem_cons.mp hq with rfl | hq
    · exact hfirst
    · exact ih h q hq

theorem closed_of_sweep (hsub : S ⊆ xs.toFinset) (h : sweep rel xs S = S) : Closed rel xs S := by
  intro p hp q ⟨hq, hrel⟩
  have hkeep := absorb_of_foldl h q hq
  by_contra hout
  have hany : (xs.any fun p => p ∈ S && rel p q) = true :=
    List.any_eq_true.mpr ⟨p, List.mem_toFinset.mp (hsub hp), by simp [hp, hrel]⟩
  rw [absorb, if_neg hout, if_pos hany] at hkeep
  exact hout (hkeep ▸ Finset.mem_insert_self q S)

theorem subset_saturate (n : Nat) (S : Finset α) : S ⊆ saturate rel xs n S := by
  induction n generalizing S with
  | zero => exact Finset.Subset.refl S
  | succ n ih =>
    rw [saturate]
    split
    · exact Finset.Subset.refl S
    split
    · exact Finset.Subset.refl S
    · exact (subset_foldl xs S).trans (ih _)

theorem forall_mem_saturate {P : α → Prop} (hpull : ∀ p q, P p → Pulls rel xs p q → P q) (n : Nat)
    (h : ∀ p ∈ S, P p) : ∀ p ∈ saturate rel xs n S, P p := by
  induction n generalizing S with
  | zero => exact h
  | succ n ih =>
    rw [saturate]
    split
    · exact h
    split
    · exact h
    · exact ih (forall_mem_sweep hpull h)

theorem sweep_subset (hsub : S ⊆ xs.toFinset) : sweep rel xs S ⊆ xs.toFinset := fun q hq =>
  forall_mem_sweep (P := (· ∈ xs.toFinset)) (fun _ _ _ hq => List.mem_toFinset.mpr hq.1)
    (fun _ hp => hsub hp) q hq

/-- The loop `while (changed && S != all)` with the body `next`, entered with a set, comes to an end with
another: at its test, or after a turn that changed nothing. -/
inductive Ends (next : Finset α → Finset α) (all : Finset α) : Finset α → Finset α → Prop
  | full {S : Finset α} : S = all → Ends next all S S
  | still {S : Finset α} : S ≠ all → next S = S → Ends next all S S
  | turn {S T : Finset α} : S ≠ all → next S ≠ S → Ends next all (next S) T → Ends next all S T

theorem Ends.closed {T : Finset α} (h : Ends (sweep rel xs) xs.toFinset S T) (hsub : S ⊆ xs.toFinset) :
    Closed rel xs T := by
  induction h with
  | full hfull => exact fun _ _ q hq => hfull ▸ List.mem_toFinset.mpr hq.1
  | still _ hstill => exact closed_of_sweep hsub hstill
  | turn _ _ _ ih => exact ih (sweep_subset hsub)

/-- **The loop ends, and the fuel is enough**: each sweep but the last adds a candidate. -/
theorem ends_saturate {n : Nat} (hsub : S ⊆ xs.toFinset) (hfuel : xs.length < n + S.card) :
    Ends (sweep rel xs) xs.toFinset S (saturate rel xs n S) := by
  induction n generalizing S with
  | zero =>
    have := (Finset.card_le_card hsub).trans (List.toFinset_card_le xs)
    omega
  | succ n ih =>
    rw [saturate]
    split
    · exact .full ‹_›
    rename_i hpart
    split
    · exact .still hpart ‹_›
    · rename_i hgrow
      have hmore : S ⊂ sweep rel xs S :=
        (subset_foldl xs S).ssubset_of_ne fun heq => hgrow heq.symm
      have hcard := Finset.card_lt_card hmore
      exact .turn hpart hgrow (ih (sweep_subset hsub) (by omega))

theorem ends_of_seed {seed : α} (hseed : seed ∈ xs) {n : Nat} (hn : xs.length ≤ n) :
    Ends (sweep rel xs) xs.toFinset {seed} (saturate rel xs n {seed}) := by
  refine ends_saturate (Finset.singleton_subset_iff.mpr (List.mem_toFinset.mpr hseed)) ?_
  rw [Finset.card_singleton]
  omega

/-- **The result is what can be reached from the seed.** -/
theorem mem_saturate {seed q : α} (hseed : seed ∈ xs) {n : Nat} (hn : xs.length ≤ n) :
    q ∈ saturate rel xs n {seed} ↔ Relation.ReflTransGen (Pulls rel xs) seed q := by
  constructor
  · refine forall_mem_saturate (P := Relation.ReflTransGen (Pulls rel xs) seed)
      (fun _ _ hp hpull => hp.tail hpull) n (fun p hp => ?_) q
    rw [Finset.mem_singleton.mp hp]
  · intro hreach
    have hclosed : Closed rel xs (saturate rel xs n {seed}) :=
      (ends_of_seed hseed hn).closed (Finset.singleton_subset_iff.mpr (List.mem_toFinset.mpr hseed))
    induction hreach with
    | refl => exact subset_saturate n _ (Finset.mem_singleton_self seed)
    | tail _ hpull ih => exact hclosed _ ih _ hpull

/-- **… the least set of candidates that has the seed in it and is closed.** -/
theorem saturate_isLeast {seed : α} (hseed : seed ∈ xs) {n : Nat} (hn : xs.length ≤ n) :
    IsLeast {S : Finset α | S ⊆ xs.toFinset ∧ seed ∈ S ∧ Closed rel xs S} (saturate rel xs n {seed}) := by
  have hsub : ({seed} : Finset α) ⊆ xs.toFinset :=
    Finset.singleton_subset_iff.mpr (List.mem_toFinset.mpr hseed)
  refine ⟨⟨fun q hq => ?_, subset_saturate n _ (Finset.mem_singleton_self seed),
    (ends_of_seed hseed hn).closed hsub⟩, fun S ⟨_, hin, hclosed⟩ q hq => ?_⟩
  · exact forall_mem_saturate (P := (· ∈ xs.toFinset)) (fun _ _ _ hq => List.mem_toFinset.mpr hq.1) n
      (fun _ hp => hsub hp) q hq
  · refine forall_mem_saturate (P := (· ∈ S)) (fun p q hp => hclosed p hp q) n (fun p hp => ?_) q hq
    rwa [Finset.mem_singleton.mp hp]

end Saturate
