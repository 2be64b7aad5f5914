import Mathlib.Data.List.Basic

/-!
# Constraints on an order of events

The fragment of linear integer arithmetic in which schedules are written down: each event has an integer
position, and a constraint compares positions. `Satisfies σ cs` says that the positions `σ` meet all of
`cs`.

Positions usually come from a list of events in the order in which they happened (`List.idxOf`).
`idxOf_lt_iff` turns "was in the list before this one was added" into "has a smaller position".

Where the positions begin does not matter to a comparison, so lower bounds exclude no order: `satisfies_nonneg`.
-/

set_option autoImplicit false

namespace OrderConstraints

variable {V W : Type}

/-- The constraints. The last is a disjunction of comparisons. -/
inductive Constraint (V : Type) where
  | nonneg (v : V)
  | less (a b : V)
  | distinct (vs : List V)
  | anyLess (pairs : List (V × V))
  deriving DecidableEq

/-- The positions `σ` meet the constraint. -/
def Constraint.holds (σ : V → Int) : Constraint V → Prop
  | .nonneg v => 0 ≤ σ v
  | .less a b => σ a < σ b
  | .distinct vs => vs.Pairwise fun a b => σ a ≠ σ b
  | .anyLess pairs => ∃ p ∈ pairs, σ p.1 < σ p.2

instance (σ : V → Int) (c : Constraint V) : Decidable (c.holds σ) := by
  cases c <;> unfold Constraint.holds <;> infer_instance

/-- The positions meet every constraint. -/
def Satisfies (σ : V → Int) (cs : List (Constraint V)) : Prop := ∀ c ∈ cs, c.holds σ

instance (σ : V → Int) (cs : List (Constraint V)) : Decidable (Satisfies σ cs) :=
  inferInstanceAs (Decidable (∀ c ∈ cs, c.holds σ))

/-- Some positions do. -/
def Satisfiable (cs : List (Constraint V)) : Prop := ∃ σ, Satisfies σ cs

theorem satisfies_append {σ : V → Int} {cs ds : List (Constraint V)} :
    Satisfies σ (cs ++ ds) ↔ Satisfies σ cs ∧ Satisfies σ ds := List.forall_mem_append

/-! ## Constraints that only compare -/

/-- The constraint compares positions with each other, and with nothing else. -/
def Constraint.relative : Constraint V → Bool
  | .nonneg _ => false
  | _ => true

/-- Such a constraint does not see where the positions begin. -/
theorem Constraint.holds_shift {c : Constraint V} (hc : c.relative = true) (σ : V → Int) (k : Int) :
    (c.holds fun v => σ v + k) ↔ c.holds σ := by
  cases c with
  | nonneg => exact absurd hc (by simp [relative])
  | less a b => simp [holds]
  | distinct vs => simp [holds]
  | anyLess pairs => simp [holds]

/-- Positions of finitely many events can be made nonnegative by a shift. -/
theorem exists_shift (σ : V → Int) (vs : List V) : ∃ k, ∀ v ∈ vs, 0 ≤ σ v + k := by
  induction vs with
  | nil => exact ⟨0, fun _ hv => absurd hv List.not_mem_nil⟩
  | cons v vs ih =>
    obtain ⟨k, hk⟩ := ih
    refine ⟨max k (-σ v), fun u hu => ?_⟩
    rcases List.mem_cons.mp hu with rfl | hu
    · omega
    · have := hk u hu
      omega

/-- **A lower bound excludes no order**: what meets constraints that only compare meets them still, and all
the lower bounds, when it is shifted. -/
theorem satisfies_nonneg {σ : V → Int} {cs : List (Constraint V)}
    (h : ∀ c ∈ cs, c.relative = true → c.holds σ) : ∃ k, Satisfies (fun v => σ v + k) cs := by
  obtain ⟨k, hk⟩ := exists_shift σ (cs.filterMap fun c => match c with | .nonneg v => some v | _ => none)
  refine ⟨k, fun c hc => ?_⟩
  cases hrel : c.relative with
  | true => exact (c.holds_shift hrel σ k).mpr (h c hc hrel)
  | false =>
    cases c with
    | nonneg v => exact hk v (List.mem_filterMap.mpr ⟨_, hc, rfl⟩)
    | _ => exact absurd hrel (by simp [Constraint.relative])

/-! ## Other names for the events -/

/-- The events that a constraint is about. -/
def Constraint.vars : Constraint V → List V
  | .nonneg v => [v]
  | .less a b => [a, b]
  | .distinct vs => vs
  | .anyLess pairs => pairs.flatMap fun p => [p.1, p.2]

/-- The constraint, about events of other names. -/
def Constraint.map (f : V → W) : Constraint V → Constraint W
  | .nonneg v => .nonneg (f v)
  | .less a b => .less (f a) (f b)
  | .distinct vs => .distinct (vs.map f)
  | .anyLess pairs => .anyLess (pairs.map fun p => (f p.1, f p.2))

theorem Constraint.holds_map {f : V → W} {σ : W → Int} {c : Constraint V} :
    (c.map f).holds σ ↔ c.holds (σ ∘ f) := by
  cases c with
  | nonneg v => exact Iff.rfl
  | less a b => exact Iff.rfl
  | distinct vs => exact List.pairwise_map
  | anyLess pairs => simp [map, holds]

theorem satisfies_map {f : V → W} {σ : W → Int} {cs : List (Constraint V)} :
    Satisfies σ (cs.map (·.map f)) ↔ Satisfies (σ ∘ f) cs := by
  simp [Satisfies, Constraint.holds_map]

/-- Only the positions of its events matter to a constraint. -/
theorem Constraint.holds_congr {σ τ : V → Int} {c : Constraint V} (h : ∀ v ∈ c.vars, σ v = τ v) :
    c.holds σ ↔ c.holds τ := by
  cases c with
  | nonneg v => rw [holds, holds, h v List.mem_cons_self]
  | less a b => rw [holds, holds, h a List.mem_cons_self, h b (List.mem_cons_of_mem _ List.mem_cons_self)]
  | distinct vs =>
    refine ⟨fun hd => ?_, fun hd => ?_⟩
    · exact hd.imp_of_mem fun ha hb hne => by rwa [← h _ ha, ← h _ hb]
    · exact hd.imp_of_mem fun ha hb hne => by rwa [h _ ha, h _ hb]
  | anyLess pairs =>
    refine exists_congr fun p => and_congr_right fun hp => ?_
    have hmem : ∀ v ∈ [p.1, p.2], σ v = τ v := fun v hv => h v (List.mem_flatMap.mpr ⟨p, hp, hv⟩)
    rw [hmem p.1 List.mem_cons_self, hmem p.2 (List.mem_cons_of_mem _ List.mem_cons_self)]

open Classical in
/-- **Names that tell the events apart change nothing.** -/
theorem satisfiable_map_iff {f : V → W} {cs : List (Constraint V)} {vs : List V}
    (hvars : ∀ c ∈ cs, c.vars ⊆ vs) (hinj : ∀ a ∈ vs, ∀ b ∈ vs, f a = f b → a = b) :
    Satisfiable (cs.map (·.map f)) ↔ Satisfiable cs := by
  constructor
  · rintro ⟨σ, hσ⟩
    exact ⟨σ ∘ f, satisfies_map.mp hσ⟩
  · rintro ⟨σ, hσ⟩
    refine ⟨fun y => if h : ∃ v ∈ vs, f v = y then σ h.choose else 0, satisfies_map.mpr fun c hc => ?_⟩
    refine (Constraint.holds_congr fun v hv => ?_).mpr (hσ c hc)
    have hmem : ∃ u ∈ vs, f u = f v := ⟨v, hvars c hc hv, rfl⟩
    have hsame : hmem.choose = v :=
      hinj _ hmem.choose_spec.1 _ (hvars c hc hv) hmem.choose_spec.2
    rw [Function.comp_apply, dif_pos hmem, hsame]

/-! ## Positions in a list -/

section Positions

variable [DecidableEq V]

/-- What has a smaller position than the first `x` came before it. -/
theorem idxOf_lt_iff {front back : List V} {x y : V} (hx : x ∉ front) :
    (front ++ x :: back).idxOf y < (front ++ x :: back).idxOf x ↔ y ∈ front := by
  rw [List.idxOf_append_of_notMem hx, List.idxOf_cons_self, Nat.add_zero]
  by_cases hy : y ∈ front
  · rw [List.idxOf_append_of_mem hy]
    exact iff_of_true (List.idxOf_lt_length_of_mem hy) hy
  · rw [List.idxOf_append_of_notMem hy]
    exact iff_of_false (by omega) hy

/-- Distinct events of the list have distinct positions. -/
theorem distinct_idxOf {events vs : List V} (hnodup : vs.Nodup) (hsub : vs ⊆ events) :
    (Constraint.distinct vs).holds fun v => (events.idxOf v : Int) := by
  refine List.Pairwise.imp_of_mem ?_ hnodup
  intro a b ha hb hne heq
  exact hne ((List.idxOf_inj (hsub ha)).mp (Int.ofNat.inj heq))

end Positions

end OrderConstraints
