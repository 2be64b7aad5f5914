import Mathlib.Data.List.Lex
import Mathlib.Data.List.Nodup
import Mathlib.Data.Set.Card
import Mathlib.Data.Finset.Card
import Smash.Lib.Transition

/-!
# The runs of a finitely branching system, listed

A depth-first search of a transition system that branches finitely and moves deterministically is a
list: the nodes in the order the search meets them. `Branching` is such a presentation of a system,
and `unfold n s` lists the nodes below `s` down to depth `n`. A node is where a run gets to, and what
becomes of it there: the run is over because nothing can be chosen, it goes on, it is cut at the
bound, or the next move breaks it.

The listing is exact. A node is in it exactly when the run it claims is a run of the system
(`mem_unfold`), and no node is listed twice (`nodup_unfold`). So counting the list counts the runs
(`encard_unfold`). When the choices at a state are listed in order, the paths come in dictionary order
(`sorted_unfold`).
-/

set_option autoImplicit false

/-- A system whose choices at a state are listed, and whose moves are a partial function. A move
that is chosen and has no result is one that breaks the run. -/
structure Branching {S L : Type} (M : TransitionSystem S L) where
  choices : S → List L
  next : S → L → Option S
  nodup : ∀ s, (choices s).Nodup
  step_iff : ∀ s a s', M.step s a s' ↔ a ∈ choices s ∧ next s a = some s'

namespace Branching

variable {S L : Type} {M : TransitionSystem S L}

/-- What becomes of a run at a node. -/
inductive Fate (L : Type) where
  /-- Nothing can be chosen. -/
  | ended
  | goesOn
  /-- The bound is reached. -/
  | cut
  /-- The choice `move` breaks the run; it is the last label of the node's path. -/
  | broken (move : L)

def Fate.isCut : Fate L → Bool
  | .cut => true
  | _ => false

/-- A node of the search: its fate, the labels that lead there, the state (before the breaking move,
when there is one). -/
structure Node (S L : Type) where
  fate : Fate L
  path : List L
  state : S

/-- The node as it is seen from one step further up. -/
def Node.below (a : L) (v : Node S L) : Node S L := { v with path := a :: v.path }

/-- The nodes met from `s` on, at most `n` steps deep, in depth-first order. -/
def unfold (B : Branching M) : Nat → S → List (Node S L)
  | 0, s => [⟨.cut, [], s⟩]
  | n + 1, s =>
    if (B.choices s).isEmpty then [⟨.ended, [], s⟩]
    else
      ⟨.goesOn, [], s⟩ :: (B.choices s).flatMap fun a =>
        (B.next s a).elim [⟨.broken a, [a], s⟩] fun s' => (B.unfold n s').map (Node.below a)

/-- A node's claim, for a search from `s` of depth `n`. -/
def NodeOk (B : Branching M) (n : Nat) (s : S) (v : Node S L) : Prop :=
  match v.fate with
  | .ended => M.Run s v.path v.state ∧ B.choices v.state = [] ∧ v.path.length < n
  | .goesOn => M.Run s v.path v.state ∧ B.choices v.state ≠ [] ∧ v.path.length < n
  | .cut => M.Run s v.path v.state ∧ v.path.length = n
  | .broken a => ∃ as, v.path = as ++ [a] ∧ M.Run s as v.state ∧ a ∈ B.choices v.state ∧
      B.next v.state a = none ∧ as.length < n

variable (B : Branching M)

/-- A claim made one step further down is the same claim one step further up. -/
theorem nodeOk_below {n : Nat} {s s' : S} {a : L} (hstep : M.step s a s') {v : Node S L} :
    B.NodeOk (n + 1) s (v.below a) ↔ B.NodeOk n s' v := by
  have hdet : ∀ {as : List L} {u : S}, M.Run s (a :: as) u ↔ M.Run s' as u := by
    intro as u
    constructor
    · intro h
      cases h with
      | cons hst hr =>
        have hs := ((B.step_iff s a _).mp hst).2
        rw [((B.step_iff s a s').mp hstep).2] at hs
        cases hs
        exact hr
    · exact fun h => .cons hstep h
  obtain ⟨fate, path, state⟩ := v
  cases fate with
  | ended => simp only [NodeOk, Node.below, hdet, List.length_cons, Nat.add_lt_add_iff_right]
  | goesOn => simp only [NodeOk, Node.below, hdet, List.length_cons, Nat.add_lt_add_iff_right]
  | cut => simp only [NodeOk, Node.below, hdet, List.length_cons, Nat.add_right_cancel_iff]
  | broken b =>
    simp only [NodeOk, Node.below]
    constructor
    · rintro ⟨as, hpath, hrun, hmem, hnone, hlen⟩
      cases as with
      | nil =>
        -- The breaking move would be the step itself, which has a result.
        cases hrun
        simp only [List.nil_append, List.cons.injEq] at hpath
        rw [← hpath.1, ((B.step_iff s a s').mp hstep).2] at hnone
        exact absurd hnone (by simp)
      | cons c as =>
        simp only [List.cons_append, List.cons.injEq] at hpath
        obtain ⟨rfl, rfl⟩ := hpath
        exact ⟨as, rfl, hdet.mp hrun, hmem, hnone, by simpa using hlen⟩
    · rintro ⟨as, rfl, hrun, hmem, hnone, hlen⟩
      exact ⟨a :: as, rfl, hdet.mpr hrun, hmem, hnone, by simpa using hlen⟩

/-- A claim, by the first move it makes. -/
theorem nodeOk_succ {n : Nat} {s : S} {v : Node S L} : B.NodeOk (n + 1) s v ↔
    (B.choices s = [] ∧ v = ⟨.ended, [], s⟩) ∨ (B.choices s ≠ [] ∧ v = ⟨.goesOn, [], s⟩) ∨
      ∃ a ∈ B.choices s, (B.next s a = none ∧ v = ⟨.broken a, [a], s⟩) ∨
        ∃ s' u, B.next s a = some s' ∧ v = u.below a ∧ B.NodeOk n s' u := by
  constructor
  · intro h
    obtain ⟨fate, path, state⟩ := v
    -- A path that starts with `a` starts with a step of the system along `a`.
    have hstep : ∀ {a : L} {as : List L} {u : S}, M.Run s (a :: as) u →
        ∃ s', M.step s a s' := fun hr => by cases hr with | cons hst _ => exact ⟨_, hst⟩
    have hdown : ∀ {a : L} {as : List L}, path = a :: as → (∃ s', M.step s a s') →
        ∃ b ∈ B.choices s, (B.next s b = none ∧ (⟨fate, path, state⟩ : Node S L) = ⟨.broken b, [b], s⟩) ∨
          ∃ s' u, B.next s b = some s' ∧ (⟨fate, path, state⟩ : Node S L) = u.below b ∧
            B.NodeOk n s' u := by
      rintro a as rfl ⟨s', hst⟩
      obtain ⟨hmem, hnext⟩ := (B.step_iff s a s').mp hst
      exact ⟨a, hmem, Or.inr ⟨s', ⟨fate, as, state⟩, hnext, rfl, (B.nodeOk_below hst).mp h⟩⟩
    cases path with
    | nil =>
      cases fate with
      | ended => obtain ⟨hrun, hc, -⟩ := h; cases hrun; exact Or.inl ⟨hc, rfl⟩
      | goesOn => obtain ⟨hrun, hc, -⟩ := h; cases hrun; exact Or.inr (Or.inl ⟨hc, rfl⟩)
      | cut => exact absurd h.2 (by simp)
      | broken b => obtain ⟨as, hpath, -⟩ := h; exact absurd hpath (by simp)
    | cons a as =>
      refine Or.inr (Or.inr ?_)
      cases fate with
      | ended => exact hdown rfl (hstep h.1)
      | goesOn => exact hdown rfl (hstep h.1)
      | cut => exact hdown rfl (hstep h.1)
      | broken b =>
        obtain ⟨cs, hpath, hrun, hmem, hnone, -⟩ := id h
        cases cs with
        | nil =>
          simp only [List.nil_append, List.cons.injEq] at hpath
          obtain ⟨rfl, rfl⟩ := hpath
          cases hrun
          exact ⟨a, hmem, Or.inl ⟨hnone, rfl⟩⟩
        | cons c cs =>
          simp only [List.cons_append, List.cons.injEq] at hpath
          obtain ⟨rfl, -⟩ := hpath
          exact hdown rfl (hstep hrun)
  · rintro (⟨hc, rfl⟩ | ⟨hc, rfl⟩ | ⟨a, hmem, ⟨hnone, rfl⟩ | ⟨s', u, hnext, rfl, hu⟩⟩)
    · exact ⟨.nil _, hc, Nat.succ_pos n⟩
    · exact ⟨.nil _, hc, Nat.succ_pos n⟩
    · exact ⟨[], rfl, .nil _, hmem, hnone, Nat.succ_pos n⟩
    · exact (B.nodeOk_below ((B.step_iff s a s').mpr ⟨hmem, hnext⟩)).mpr hu

/-- **The listing is exact.** -/
theorem mem_unfold {n : Nat} {s : S} {v : Node S L} : v ∈ B.unfold n s ↔ B.NodeOk n s v := by
  induction n generalizing s v with
  | zero =>
    obtain ⟨fate, path, state⟩ := v
    simp only [unfold, List.mem_singleton, Node.mk.injEq, NodeOk]
    cases fate with
    | cut =>
      constructor
      · rintro ⟨-, rfl, rfl⟩
        exact ⟨.nil _, rfl⟩
      · rintro ⟨hrun, hlen⟩
        rw [List.length_eq_zero_iff] at hlen
        subst hlen
        cases hrun
        exact ⟨rfl, rfl, rfl⟩
    | ended => simp
    | goesOn => simp
    | broken => simp
  | succ n ih =>
    rw [nodeOk_succ, unfold]
    by_cases hnil : B.choices s = []
    · simp [hnil]
    · have hemp : (B.choices s).isEmpty = false := by simpa using hnil
      simp only [hemp, Bool.false_eq_true, if_false, List.mem_cons, List.mem_flatMap, hnil, false_and,
        false_or, ne_eq, not_false_eq_true, true_and]
      refine or_congr_right (exists_congr fun a => and_congr_right fun _ => ?_)
      cases hnext : B.next s a with
      | none => simp
      | some s' =>
        simp only [Option.elim_some, List.mem_map, ih, reduceCtorEq, false_and, false_or]
        constructor
        · rintro ⟨u, hu, rfl⟩
          exact ⟨s', u, rfl, rfl, hu⟩
        · rintro ⟨t, u, ht, rfl, hu⟩
          cases ht
          exact ⟨u, hu, rfl⟩

theorem path_below (a : L) (vs : List (Node S L)) :
    (vs.map (Node.below a)).map Node.path = (vs.map Node.path).map (a :: ·) := by
  simp [Node.below, Function.comp_def]

/-- **No node is listed twice**: the path tells them apart. -/
theorem nodup_unfold (n : Nat) (s : S) : ((B.unfold n s).map Node.path).Nodup := by
  induction n generalizing s with
  | zero => simp [unfold]
  | succ n ih =>
    rw [unfold]
    split
    · simp
    · -- Every path below starts with the label of its branch, and the labels differ.
      have hhead : ∀ a, ∀ p ∈ ((B.next s a).elim [(⟨.broken a, [a], s⟩ : Node S L)]
          fun s' => (B.unfold n s').map (Node.below a)).map Node.path, ∃ q, p = a :: q := by
        intro a p hp
        cases hnext : B.next s a with
        | none =>
          simp only [hnext, Option.elim_none, List.map_cons, List.map_nil, List.mem_singleton] at hp
          exact ⟨[], hp⟩
        | some s' =>
          simp only [hnext, Option.elim_some, path_below, List.mem_map] at hp
          obtain ⟨q, -, rfl⟩ := hp
          exact ⟨q, rfl⟩
      rw [List.map_cons, List.map_flatMap, List.nodup_cons, List.nodup_flatMap]
      refine ⟨?_, fun a _ => ?_, (B.nodup s).imp fun {a b} hne => ?_⟩
      · simp only [List.mem_flatMap, not_exists, not_and]
        intro a _ hp
        obtain ⟨q, hq⟩ := hhead a _ hp
        exact absurd hq (by simp)
      · cases hnext : B.next s a with
        | none => simp
        | some s' =>
          simp only [Option.elim_some, path_below]
          exact (ih s').map List.cons_injective
      · intro p hp hp'
        obtain ⟨q, rfl⟩ := hhead a p hp
        obtain ⟨q', hq'⟩ := hhead b _ hp'
        exact hne (List.cons.inj hq').1

/-- **Counting the list counts the runs**: the nodes of a kind are as many as the paths that end
in a node of that kind, so these are finitely many. -/
theorem encard_unfold (n : Nat) (s : S) (p : Node S L → Bool) :
    Set.encard {path | ∃ v, B.NodeOk n s v ∧ p v = true ∧ v.path = path}
      = (B.unfold n s).countP p := by
  classical
  have hnd : (((B.unfold n s).filter p).map Node.path).Nodup :=
    (B.nodup_unfold n s).sublist (List.filter_sublist.map _)
  have hset : {path | ∃ v, B.NodeOk n s v ∧ p v = true ∧ v.path = path}
      = ((((B.unfold n s).filter p).map Node.path).toFinset : Set (List L)) := by
    ext path
    simp [mem_unfold, and_assoc]
  rw [hset, Set.encard_coe_eq_coe_finsetCard, List.toFinset_card_of_nodup hnd, List.length_map,
    List.countP_eq_length_filter]

/-- **In dictionary order**, when the choices are in order. -/
theorem sorted_unfold [LT L] (hchoices : ∀ s, (B.choices s).Pairwise (· < ·)) (n : Nat) (s : S) :
    ((B.unfold n s).map Node.path).Pairwise (· < ·) := by
  induction n generalizing s with
  | zero => simp [unfold]
  | succ n ih =>
    rw [unfold]
    split
    · simp
    · -- The paths below `a` are sorted, and all of them start with `a`.
      have hbelow : ∀ a, (∀ p ∈ ((B.next s a).elim [(⟨.broken a, [a], s⟩ : Node S L)]
          fun s' => (B.unfold n s').map (Node.below a)).map Node.path, ∃ q, p = a :: q) ∧
          (((B.next s a).elim [(⟨.broken a, [a], s⟩ : Node S L)]
            fun s' => (B.unfold n s').map (Node.below a)).map Node.path).Pairwise (· < ·) := by
        intro a
        cases B.next s a with
        | none => simp
        | some s' =>
          simp only [Option.elim_some, path_below, List.mem_map, List.pairwise_map]
          refine ⟨fun p ⟨q, _, hq⟩ => ⟨q, hq.symm⟩, ?_⟩
          exact (List.pairwise_map.mp (ih s')).imp fun h => List.Lex.cons h
      rw [List.map_cons, List.map_flatMap, List.pairwise_cons, List.pairwise_flatMap]
      refine ⟨fun p hp => ?_, fun a _ => (hbelow a).2, (hchoices s).imp fun {a b} hab => ?_⟩
      · obtain ⟨a, -, hp⟩ := List.mem_flatMap.mp hp
        obtain ⟨q, rfl⟩ := (hbelow a).1 p hp
        exact List.Lex.nil
      · intro p hp p' hp'
        obtain ⟨q, rfl⟩ := (hbelow a).1 p hp
        obtain ⟨q', rfl⟩ := (hbelow b).1 p' hp'
        exact List.Lex.rel hab

end Branching
