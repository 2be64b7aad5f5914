import Mathlib.Data.Set.Defs
import Mathlib.Logic.Nonempty
import Smash.Lib.Transition

/-!
# Searching a system up to look-alikes

A search that takes states which look alike for the same goes on from one of them and skips the others. What
it meets then is an `Expansion`: a look-alike of the start, and of every state that a step from a member leads
to. Which look-alikes are members depends on the order of the search, and nothing else of it is assumed here.

Two notions say when that is harmless. A goal can be *forced* from a state (`Forces`) if it is reached by
choices that stay right when each state on the way is exchanged for a look-alike: those are the goals that no
expansion loses (`forces_iff`). Two states lead on *alike* (`Alike`) if the same steps go through from both, to
states that look alike; where look-alikes lead on alike, every goal that can be reached can be forced
(`forces_of_alike`).
-/

set_option autoImplicit false

namespace TransitionSystem

variable {S L : Type}

/-- The goal can be forced from `s`: whatever look-alike of `s` stands in for it, the goal is there, or the
look-alike has a step to a state from which the goal can be forced. -/
inductive Forces (M : TransitionSystem S L) (like : S → S → Prop) (Goal : S → Prop) : S → Prop
  | intro {s : S} (choice : S → L)
      (legal : ∀ s', M.Reach s' → like s' s → ¬ Goal s' → ∃ s'', M.step s' (choice s') s'')
      (next : ∀ s' s'', M.Reach s' → like s' s → ¬ Goal s' → M.step s' (choice s') s'' →
        Forces M like Goal s'') : Forces M like Goal s

/-- States that a search could go on from which skips look-alikes. -/
structure Expansion (M : TransitionSystem S L) (like : S → S → Prop) (s₀ : S) (X : Set S) : Prop where
  reach : ∀ s ∈ X, M.Reach s
  start : ∃ s ∈ X, like s s₀
  next : ∀ s ∈ X, ∀ l s', M.step s l s' → ∃ s'' ∈ X, like s'' s'

variable {M : TransitionSystem S L} {like : S → S → Prop} {Goal : S → Prop}

/-! ## Forced whichever look-alikes are skipped -/

/-- From a state that a member of the expansion looks like, what can be forced is there. -/
theorem Expansion.forced {s₀ : S} {X : Set S} (hX : M.Expansion like s₀ X) {s : S}
    (hforces : M.Forces like Goal s) (hs : ∃ s' ∈ X, like s' s) : ∃ s' ∈ X, Goal s' := by
  induction hforces with
  | intro choice legal next ih =>
    obtain ⟨s', hmem, hlike⟩ := hs
    by_cases hgoal : Goal s'
    · exact ⟨s', hmem, hgoal⟩
    · have hreach := hX.reach s' hmem
      obtain ⟨s'', hst⟩ := legal s' hreach hlike hgoal
      exact ih s' s'' hreach hlike hgoal hst (hX.next s' hmem _ _ hst)

/-- The states that are no goal and from which no step leads to a state that forces one. -/
def hopeless (M : TransitionSystem S L) (like : S → S → Prop) (Goal : S → Prop) : Set S :=
  {s | M.Reach s ∧ ¬ Goal s ∧ ∀ l s', M.step s l s' → ¬ M.Forces like Goal s'}

/-- A step is a partial function of the state and the label. -/
def Deterministic (M : TransitionSystem S L) : Prop :=
  ∀ s l s' s'', M.step s l s' → M.step s l s'' → s' = s''

/-- A state from which the goal cannot be forced has a look-alike without hope. -/
theorem exists_hopeless [Nonempty L] (hdet : M.Deterministic) {s : S} (hs : ¬ M.Forces like Goal s) :
    ∃ s' ∈ M.hopeless like Goal, like s' s := by
  by_contra hall
  have hgood : ∀ s', M.Reach s' → like s' s → ¬ Goal s' →
      ∃ l s'', M.step s' l s'' ∧ M.Forces like Goal s'' := by
    intro s' hreach hlike hgoal
    by_contra hno
    exact hall ⟨s', ⟨hreach, hgoal, fun l s'' hst hf => hno ⟨l, s'', hst, hf⟩⟩, hlike⟩
  classical
  let choice : S → L := fun s' =>
    if hex : ∃ l s'', M.step s' l s'' ∧ M.Forces like Goal s'' then hex.choose else Classical.arbitrary L
  have hchoice : ∀ s', M.Reach s' → like s' s → ¬ Goal s' →
      ∃ s'', M.step s' (choice s') s'' ∧ M.Forces like Goal s'' := by
    intro s' hreach hlike hgoal
    have hex := hgood s' hreach hlike hgoal
    simp only [choice, dif_pos hex]
    exact hex.choose_spec
  refine hs (.intro choice (fun s' hr hl hg => ?_) fun s' s'' hr hl hg hst => ?_)
  · obtain ⟨s'', hst, -⟩ := hchoice s' hr hl hg
    exact ⟨s'', hst⟩
  · obtain ⟨u, hst', hforces⟩ := hchoice s' hr hl hg
    exact hdet _ _ _ _ hst' hst ▸ hforces

/-- **Forced is what every expansion shows**: a goal can be forced exactly when no choice of the
look-alikes to skip loses it. -/
theorem forces_iff [Nonempty L] (hdet : M.Deterministic) (s₀ : S) :
    M.Forces like Goal s₀ ↔ ∀ X, M.Expansion like s₀ X → ∃ s ∈ X, Goal s := by
  constructor
  · intro hforces X hX
    exact hX.forced hforces hX.start
  · intro h
    by_contra hnot
    -- Go on from the states without hope only.
    obtain ⟨s, hs, hgoal⟩ := h (M.hopeless like Goal) ⟨fun s hs => hs.1, exists_hopeless hdet hnot,
      fun s hs l s' hst => exists_hopeless hdet (hs.2.2 l s' hst)⟩
    exact hs.2.1 hgoal

/-! ## Leading on alike -/

/-- Whatever goes through from `s` goes through from `s'`, and leads to a look-alike. -/
def LeadsOn (M : TransitionSystem S L) (like : S → S → Prop) (s s' : S) : Prop :=
  ∀ ls u, M.Run s ls u → ∃ u', M.Run s' ls u' ∧ like u u'

/-- The same steps go through from both states, and lead to look-alikes. -/
structure Alike (M : TransitionSystem S L) (like : S → S → Prop) (s s' : S) : Prop where
  onward : M.LeadsOn like s s'
  back : M.LeadsOn like s' s

theorem LeadsOn.step (hdet : M.Deterministic) {s s' u u' : S} {l : L} (h : M.LeadsOn like s s')
    (hst : M.step s l u) (hst' : M.step s' l u') : M.LeadsOn like u u' := by
  intro ls v hrun
  obtain ⟨v', hrun', hlike⟩ := h (l :: ls) v (.cons hst hrun)
  cases hrun' with
  | cons hfirst hrest =>
    obtain rfl := hdet _ _ _ _ hfirst hst'
    exact ⟨v', hrest, hlike⟩

namespace Alike

theorem refl (hlike : Equivalence like) (s : S) : M.Alike like s s :=
  ⟨fun _ u hrun => ⟨u, hrun, hlike.refl u⟩, fun _ u hrun => ⟨u, hrun, hlike.refl u⟩⟩

theorem symm {s s' : S} (h : M.Alike like s s') : M.Alike like s' s := ⟨h.back, h.onward⟩

theorem trans (hlike : Equivalence like) {s s' s'' : S} (h : M.Alike like s s')
    (h' : M.Alike like s' s'') : M.Alike like s s'' := by
  have hleads : ∀ {a b c : S}, M.LeadsOn like a b → M.LeadsOn like b c → M.LeadsOn like a c := by
    intro a b c hab hbc ls u hrun
    obtain ⟨v, hv, hlikev⟩ := hab ls u hrun
    obtain ⟨x, hx, hlikex⟩ := hbc ls v hv
    exact ⟨x, hx, hlike.trans hlikev hlikex⟩
  exact ⟨hleads h.onward h'.onward, hleads h'.back h.back⟩

/-- States that lead on alike look alike, … -/
theorem looks {s s' : S} (h : M.Alike like s s') : like s s' := by
  obtain ⟨u, hrun, hlike⟩ := h.onward [] s (.nil s)
  cases hrun
  exact hlike

/-- … and a step from one is a step from the other, to states that lead on alike again. -/
theorem next (hdet : M.Deterministic) {s s' u : S} {l : L} (h : M.Alike like s s') (hst : M.step s l u) :
    ∃ u', M.step s' l u' ∧ M.Alike like u u' := by
  obtain ⟨u', hrun, -⟩ := h.onward [l] u (.single hst)
  cases hrun with
  | cons hst' hrest =>
    cases hrest
    exact ⟨u', hst', h.onward.step hdet hst hst', h.back.step hdet hst' hst⟩

/-- From two states that look alike and have no step nothing goes through. -/
theorem of_stuck (hlike : Equivalence like) {s s' : S} (h : like s s') (hs : ∀ l u, ¬ M.step s l u)
    (hs' : ∀ l u, ¬ M.step s' l u) : M.Alike like s s' := by
  have hleads : ∀ {a b : S}, like a b → (∀ l u, ¬ M.step a l u) → M.LeadsOn like a b := by
    intro a b hab ha ls u hrun
    cases hrun with
    | nil => exact ⟨b, .nil b, hab⟩
    | cons hst _ => exact absurd hst (ha _ _)
  exact ⟨hleads h hs, hleads (hlike.symm h) hs'⟩

end Alike

/-- **Where look-alikes lead on alike, a goal that can be reached can be forced.** -/
theorem forces_of_alike [Nonempty L] (hlike : Equivalence like) (hdet : M.Deterministic)
    (hgoal : ∀ {a b}, M.Alike like a b → Goal a → Goal b)
    (halike : ∀ a b, M.Reach a → M.Reach b → like a b → M.Alike like a b) {s u : S} {ls : List L}
    (hs : M.Reach s) (hrun : M.Run s ls u) (hu : Goal u) : M.Forces like Goal s := by
  have hcongr : ∀ {a b : S}, like a b → M.Forces like Goal a → M.Forces like Goal b := by
    intro a b hab hforces
    cases hforces with
    | intro choice legal next =>
      exact .intro choice (fun s' hr hl => legal s' hr (hlike.trans hl (hlike.symm hab)))
        fun s' s'' hr hl => next s' s'' hr (hlike.trans hl (hlike.symm hab))
  induction hrun with
  | nil s =>
    have hthere : ∀ s', M.Reach s' → like s' s → Goal s' := fun s' hr hl =>
      hgoal (halike _ _ hs hr (hlike.symm hl)) hu
    exact .intro (fun _ => Classical.arbitrary L) (fun s' hr hl hg => absurd (hthere s' hr hl) hg)
      fun s' s'' hr hl hg => absurd (hthere s' hr hl) hg
  | @cons s s₁ _ l _ hst _ ih =>
    have hnext := ih (.step hs hst) hu
    refine .intro (fun _ => l) (fun s' hr hl _ => ?_) fun s' s'' hr hl _ hst' => ?_
    · obtain ⟨u', hst', -⟩ := (halike _ _ hs hr (hlike.symm hl)).next hdet hst
      exact ⟨u', hst'⟩
    · obtain ⟨u', hu', halike'⟩ := (halike _ _ hs hr (hlike.symm hl)).next hdet hst
      obtain rfl := hdet _ _ _ _ hu' hst'
      exact hcongr halike'.looks hnext

/-- **A search that skips only what leads on alike covers every state**: `X` holds a state alike to the
start, and to every state that a step from a member leads to. -/
theorem Reach.covered (hlike : Equivalence like) (hdet : M.Deterministic) {X : Set S}
    (hstart : ∀ s, M.init s → ∃ v ∈ X, M.Alike like v s)
    (hnext : ∀ v ∈ X, ∀ l s', M.step v l s' → ∃ u ∈ X, M.Alike like u s') {s : S}
    (hs : M.Reach s) : ∃ v ∈ X, M.Alike like v s := by
  induction hs with
  | init hi => exact hstart _ hi
  | @step s s' l _ hst ih =>
    obtain ⟨v, hv, halike⟩ := ih
    obtain ⟨v', hst', halike'⟩ := halike.symm.next hdet hst
    obtain ⟨u, hu, huv⟩ := hnext v hv l v' hst'
    exact ⟨u, hu, huv.trans hlike halike'.symm⟩

end TransitionSystem
