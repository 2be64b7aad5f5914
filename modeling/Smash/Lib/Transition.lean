import Mathlib.Data.List.Basic

/-!
# Labelled transition systems, their runs and their invariants

A system is a set of initial states and a step relation that carries a label, the choice the
environment made. Three things are built on it, once for every system:

* `Reach`: the states some sequence of choices leads to, with the invariant rule
  `Inductive.reach`: what holds initially and survives every step holds in every reached state.
* `Run`: the same with the sequence of choices kept, for statements about what *later* steps do.
* `restrict`: the system with some steps forbidden. A run of the restricted system is a run all of
  whose steps meet a condition, so "in every run whose steps all meet `C`" is an invariant of
  `M.restrict C`.
-/

set_option autoImplicit false

/-- A labelled transition system. -/
structure TransitionSystem (S L : Type) where
  init : S → Prop
  step : S → L → S → Prop

namespace TransitionSystem

variable {S L : Type} {M : TransitionSystem S L}

/-- The states that some sequence of steps reaches. -/
inductive Reach (M : TransitionSystem S L) : S → Prop
  | init {s : S} : M.init s → Reach M s
  | step {s s' : S} {l : L} : Reach M s → M.step s l s' → Reach M s'

/-- The labels of a sequence of steps from one state to another, oldest first. -/
inductive Run (M : TransitionSystem S L) : S → List L → S → Prop
  | nil (s : S) : Run M s [] s
  | cons {s s' s'' : S} {l : L} {ls : List L} :
      M.step s l s' → Run M s' ls s'' → Run M s (l :: ls) s''

/-- What holds initially and survives every step. -/
structure Inductive (M : TransitionSystem S L) (I : S → Prop) : Prop where
  init : ∀ s, M.init s → I s
  step : ∀ s l s', I s → M.step s l s' → I s'

theorem Inductive.reach {I : S → Prop} (h : M.Inductive I) {s : S} (hs : M.Reach s) : I s := by
  induction hs with
  | init hi => exact h.init _ hi
  | step _ hst ih => exact h.step _ _ _ ih hst

/-! ## Runs -/

theorem Run.single {s s' : S} {l : L} (h : M.step s l s') : M.Run s [l] s' := .cons h (.nil _)

theorem Run.append {s s' s'' : S} {ls ls' : List L} (h : M.Run s ls s')
    (h' : M.Run s' ls' s'') : M.Run s (ls ++ ls') s'' := by
  induction h with
  | nil => exact h'
  | cons hst _ ih => exact .cons hst (ih h')

theorem Run.snoc {s s' s'' : S} {ls : List L} {l : L} (h : M.Run s ls s')
    (hst : M.step s' l s'') : M.Run s (ls ++ [l]) s'' := h.append (.single hst)

/-- The last step of a run that has one. -/
theorem Run.snoc_inv {s s'' : S} {ls : List L} {l : L} (h : M.Run s (ls ++ [l]) s'') :
    ∃ s', M.Run s ls s' ∧ M.step s' l s'' := by
  induction ls generalizing s with
  | nil =>
    cases h with
    | cons hst hr => cases hr; exact ⟨_, .nil _, hst⟩
  | cons a ls ih =>
    cases h with
    | cons hst hr =>
      obtain ⟨s', hr', hst'⟩ := ih hr
      exact ⟨s', .cons hst hr', hst'⟩

/-- A run can be stopped before any of its steps. -/
theorem Run.split {s s'' : S} {front back : List L} {l : L} (h : M.Run s (front ++ l :: back) s'') :
    ∃ s₁ s₂, M.Run s front s₁ ∧ M.step s₁ l s₂ ∧ M.Run s₂ back s'' := by
  induction front generalizing s with
  | nil =>
    cases h with
    | cons hst hr => exact ⟨s, _, .nil s, hst, hr⟩
  | cons a front ih =>
    cases h with
    | cons hst hr =>
      obtain ⟨s₁, s₂, hfront, hstep, hback⟩ := ih hr
      exact ⟨s₁, s₂, .cons hst hfront, hstep, hback⟩

/-- A run can be stopped early. -/
theorem Run.take {s s' : S} {ls : List L} (h : M.Run s ls s') (k : Nat) :
    ∃ s'', M.Run s (ls.take k) s'' := by
  induction h generalizing k with
  | nil s => exact ⟨s, by rw [List.take_nil]; exact .nil s⟩
  | @cons s _ _ _ _ hst _ ih =>
    cases k with
    | zero => exact ⟨s, .nil s⟩
    | succ k =>
      obtain ⟨s'', hr⟩ := ih k
      exact ⟨s'', .cons hst hr⟩

theorem Run.reach {s s' : S} {ls : List L} (h : M.Run s ls s') (hs : M.Reach s) :
    M.Reach s' := by
  induction h with
  | nil => exact hs
  | cons hst _ ih => exact ih (.step hs hst)

/-- A reached state is at the end of a run. -/
theorem Reach.exists_run {s : S} (h : M.Reach s) : ∃ s₀ ls, M.init s₀ ∧ M.Run s₀ ls s := by
  induction h with
  | init hi => exact ⟨_, [], hi, .nil _⟩
  | step _ hst ih =>
    obtain ⟨s₀, ls, hi, hrun⟩ := ih
    exact ⟨s₀, _, hi, hrun.snoc hst⟩

/-- Runs are no longer than a measure that every step makes smaller. -/
theorem Run.length_le {μ : S → Nat} (hμ : ∀ s l s', M.Reach s → M.step s l s' → μ s' < μ s) {s s' : S}
    {ls : List L} (h : M.Run s ls s') (hs : M.Reach s) : ls.length + μ s' ≤ μ s := by
  induction h with
  | nil => simp
  | cons hst _ ih =>
    have hless := hμ _ _ _ hs hst
    have hrest := ih (.step hs hst)
    rw [List.length_cons]
    omega

/-- A state property that every step from a reached state keeps, along a run. -/
theorem Run.keeps {I : S → Prop} {s s' : S} {ls : List L} (h : M.Run s ls s')
    (hr : M.Reach s) (hI : I s) (hstep : ∀ s l s', M.Reach s → I s → M.step s l s' → I s') :
    I s' := by
  induction h with
  | nil => exact hI
  | cons hst _ ih => exact ih (.step hr hst) (hstep _ _ _ hr hI hst)

/-! ## Forbidding steps -/

/-- The system that only takes the steps of `M` on which `C` holds. -/
def restrict (M : TransitionSystem S L) (C : S → L → Prop) : TransitionSystem S L where
  init := M.init
  step s l s' := M.step s l s' ∧ C s l

theorem Reach.of_restrict {C : S → L → Prop} {s : S} (h : (M.restrict C).Reach s) :
    M.Reach s := by
  induction h with
  | init hi => exact .init hi
  | step _ hst ih => exact .step ih hst.1

theorem Run.of_restrict {C : S → L → Prop} {s s' : S} {ls : List L} (h : (M.restrict C).Run s ls s') :
    M.Run s ls s' := by
  induction h with
  | nil => exact .nil _
  | cons hst _ ih => exact .cons hst.1 ih

/-- No condition forbids nothing. -/
theorem Reach.restrict_true {s : S} (h : M.Reach s) : (M.restrict fun _ _ => True).Reach s := by
  induction h with
  | init hi => exact .init hi
  | step _ hst ih => exact .step ih ⟨hst, trivial⟩

end TransitionSystem
