import Mathlib.Data.Finset.Card
import Mathlib.Data.Finset.Filter
import Mathlib.Order.Bounds.Basic
import Mathlib.Order.Lattice
import Mathlib.Logic.Function.Basic
import Mathlib.Logic.Relation

/-!
# Priority inheritance

Members of a set `S` hold each other up: `next u = some t` when `u` cannot go on before `t` does. Each has a
priority of its own, `base`, and inherits the priorities of those it holds up. An assignment `prio` is
`Exact` at `t` when `prio t` is the greatest of `base t` and the priorities of the members that `t` holds
up; nothing else is meant by inheritance, and a cycle of `next` is no exception.

* `Exact.congr`: a member whose dependants only changed below its own priority is still exact.
* `raise next p fuel cur prio` walks the chain `cur, next cur, ...` and lifts every priority below `p` to `p`,
  until it meets one that is not below. If every member but `cur` is exact, and `cur` lacks `p` only, the result
  is exact everywhere (`raise_exact`): the early stop leaves nothing stale behind.
* Each turn lifts one more priority to `p`, so the chain may run into a cycle and the walk still ends:
  `raise_fuel`.
* Whom it lifts is read off the chain: its longest prefix of members below `p` (`raise_of_leads`,
  `raise_of_not_leads`).
* A cycle can keep a priority up that nobody brought in, so exactness alone does not determine the
  priorities. Exactness and `Sourced`, that every priority is somebody's own, do: `sourced_unique`. Each is
  then the greatest base priority among those who wait for its bearer, directly or not
  (`Sourced.isGreatest`).
-/

set_option autoImplicit false

namespace Inheritance

variable {T P : Type} [DecidableEq T] [LinearOrder P]

/-- What `t` must be as urgent as. -/
def Claims (base : T → P) (next : T → Option T) (prio : T → P) (t : T) : Set P :=
  {p | p = base t ∨ ∃ u, next u = some t ∧ prio u = p}

/-- `t` has the priority that it should. -/
def Exact (base : T → P) (next : T → Option T) (prio : T → P) (t : T) : Prop :=
  IsGreatest (Claims base next prio t) (prio t)

variable {base : T → P} {next next' : T → Option T} {prio prio' : T → P}

omit [DecidableEq T] in
/-- Dependants that keep their priority, and new ones that are not more urgent, change nothing. -/
theorem Exact.congr {t : T} (h : Exact base next prio t) (hself : prio' t = prio t)
    (hkeep : ∀ u, next u = some t → next' u = some t ∧ prio' u = prio u)
    (hnew : ∀ u, next' u = some t → next u = some t ∨ prio' u ≤ prio t) :
    Exact base next' prio' t := by
  obtain ⟨hmem, hub⟩ := h
  unfold Exact
  rw [hself]
  refine ⟨?_, ?_⟩
  · rcases hmem with hb | ⟨u, hu, hp⟩
    · exact .inl hb
    · exact .inr ⟨u, (hkeep u hu).1, (hkeep u hu).2.trans hp⟩
  · rintro q (rfl | ⟨u, hu, rfl⟩)
    · exact hub (.inl rfl)
    · cases hnew u hu with
      | inl hold =>
        rw [(hkeep u hold).2]
        exact hub (.inr ⟨u, hold, rfl⟩)
      | inr hle =>
        exact hle

/-! ## Raising along a chain -/

/-- Lift `cur` and whoever it waits for to `p`, as far as they are below. -/
def raise (next : T → Option T) (p : P) : Nat → T → (T → P) → T → P
  | 0, _, prio => prio
  | n + 1, cur, prio =>
    if p ≤ prio cur then prio
    else match next cur with
      | none => Function.update prio cur p
      | some o => raise next p n o (Function.update prio cur p)

/-- The members of `S` that `raise` can still lift. -/
def below (S : Finset T) (p : P) (prio : T → P) : Finset T := S.filter fun t => prio t < p

omit [DecidableEq T] in
theorem mem_below {S : Finset T} {p : P} {t : T} : t ∈ below S p prio ↔ t ∈ S ∧ prio t < p := by
  simp [below]

/-- A turn of the walk leaves fewer members to lift. -/
theorem card_below_update {S : Finset T} {p : P} {cur : T} (hcur : cur ∈ S) (hlt : prio cur < p) :
    (below S p (Function.update prio cur p)).card < (below S p prio).card := by
  refine Finset.card_lt_card ⟨fun t ht => ?_, fun hsub => ?_⟩
  · obtain ⟨hS, hp⟩ := mem_below.mp ht
    by_cases hne : t = cur
    · subst hne
      exact mem_below.mpr ⟨hS, hlt⟩
    · rw [Function.update_of_ne hne] at hp
      exact mem_below.mpr ⟨hS, hp⟩
  · have := (mem_below.mp (hsub (mem_below.mpr ⟨hcur, hlt⟩))).2
    rw [Function.update_self] at this
    exact lt_irrefl p this

omit [DecidableEq T] in
/-- Where nobody is below `p`, the first test stops the walk. -/
theorem le_of_card_below {S : Finset T} {p : P} {cur : T} (hcur : cur ∈ S)
    (hn : (below S p prio).card ≤ 0) : p ≤ prio cur := by
  by_contra hlt
  have hmem : cur ∈ below S p prio := mem_below.mpr ⟨hcur, lt_of_not_ge hlt⟩
  rw [Finset.card_eq_zero.mp (Nat.le_zero.mp hn)] at hmem
  exact absurd hmem (Finset.notMem_empty cur)

/-- **The walk ends**: more fuel than there are members to lift changes nothing. -/
theorem raise_fuel {S : Finset T} (hclosed : ∀ t ∈ S, ∀ o, next t = some o → o ∈ S) {p : P} {n : Nat}
    {cur : T} (hcur : cur ∈ S) (hn : (below S p prio).card ≤ n) :
    raise next p (n + 1) cur prio = raise next p n cur prio := by
  induction n generalizing cur prio with
  | zero =>
    show raise next p 1 cur prio = prio
    rw [raise, if_pos (le_of_card_below hcur hn)]
  | succ n ih =>
    rw [raise, raise]
    by_cases hstop : p ≤ prio cur
    · rw [if_pos hstop, if_pos hstop]
    · rw [if_neg hstop, if_neg hstop]
      cases ho : next cur with
      | none => rfl
      | some o =>
        have := card_below_update hcur (lt_of_not_ge hstop)
        exact ih (hclosed cur hcur o ho) (by omega)

omit [DecidableEq T] in
theorem exact_of_stop {p : P} {cur : T} (hstop : p ≤ prio cur)
    (hdue : IsGreatest (Claims base next prio cur) (max (prio cur) p)) : Exact base next prio cur := by
  rw [max_eq_left hstop] at hdue
  exact hdue

/-- Lifting `cur` to the priority it lacks makes it exact. -/
theorem exact_of_lift {p : P} {cur : T} (hlt : prio cur < p)
    (hdue : IsGreatest (Claims base next prio cur) (max (prio cur) p)) :
    Exact base next (Function.update prio cur p) cur := by
  rw [max_eq_right (le_of_lt hlt)] at hdue
  obtain ⟨hmem, hub⟩ := hdue
  unfold Exact
  rw [Function.update_self]
  refine ⟨?_, ?_⟩
  · rcases hmem with hb | ⟨u, hu, hp⟩
    · exact .inl hb
    · refine .inr ⟨u, hu, ?_⟩
      rw [Function.update_of_ne (fun h => ?_)]
      · exact hp
      · subst h
        exact lt_irrefl p (hp ▸ hlt)
  · rintro q (rfl | ⟨u, hu, rfl⟩)
    · exact hub (.inl rfl)
    · by_cases hu' : u = cur
      · rw [hu', Function.update_self]
      · rw [Function.update_of_ne hu']
        exact hub (.inr ⟨u, hu, rfl⟩)

/-- The member `cur` waits for now lacks `p`, if it was exact before. -/
theorem due_of_lift {p : P} {cur o : T} (hlt : prio cur < p) (ho : next cur = some o) (hne : o ≠ cur)
    (h : Exact base next prio o) :
    IsGreatest (Claims base next (Function.update prio cur p) o)
      (max (Function.update prio cur p o) p) := by
  obtain ⟨hmem, hub⟩ := h
  rw [Function.update_of_ne hne]
  refine ⟨?_, ?_⟩
  · cases le_total (prio o) p with
    | inl hle =>
      rw [max_eq_right hle]
      exact .inr ⟨cur, ho, Function.update_self ..⟩
    | inr hle =>
      rw [max_eq_left hle]
      rcases hmem with hb | ⟨u, hu, hp⟩
      · exact .inl hb
      · by_cases hu' : u = cur
        · subst hu'
          exact absurd (hp ▸ hle) (not_le_of_gt hlt)
        · exact .inr ⟨u, hu, by rw [Function.update_of_ne hu']; exact hp⟩
  · rintro q (rfl | ⟨u, hu, rfl⟩)
    · exact le_max_of_le_left (hub (.inl rfl))
    · by_cases hu' : u = cur
      · rw [hu', Function.update_self]
        exact le_max_right _ _
      · rw [Function.update_of_ne hu']
        exact le_max_of_le_left (hub (.inr ⟨u, hu, rfl⟩))

/-- **Raising along the chain restores exactness.** Every member is exact but `cur`, which lacks at most
`p`; there is fuel for every member below `p`. -/
theorem raise_exact {S : Finset T} (hclosed : ∀ t ∈ S, ∀ o, next t = some o → o ∈ S) {p : P}
    {n : Nat} {cur : T} (hcur : cur ∈ S) (hn : (below S p prio).card ≤ n)
    (hdue : IsGreatest (Claims base next prio cur) (max (prio cur) p))
    (hexact : ∀ t ∈ S, t ≠ cur → Exact base next prio t) :
    ∀ t ∈ S, Exact base next (raise next p n cur prio) t := by
  induction n generalizing cur prio with
  | zero =>
    have hstop := le_of_card_below hcur hn
    intro t ht
    by_cases hne : t = cur
    · rw [hne]
      exact exact_of_stop hstop hdue
    · exact hexact t ht hne
  | succ n ih =>
    rw [raise]
    by_cases hstop : p ≤ prio cur
    · rw [if_pos hstop]
      intro t ht
      by_cases hne : t = cur
      · rw [hne]
        exact exact_of_stop hstop hdue
      · exact hexact t ht hne
    · rw [if_neg hstop]
      have hlt := lt_of_not_ge hstop
      have hlift := exact_of_lift hlt hdue
      -- Whoever `cur` does not wait for sees no change.
      have hother : ∀ t ∈ S, t ≠ cur → next cur ≠ some t →
          Exact base next (Function.update prio cur p) t := by
        intro t ht hne hwait
        refine (hexact t ht hne).congr (Function.update_of_ne hne ..) (fun u hu => ⟨hu, ?_⟩)
          fun u hu => .inl hu
        have hucur : u ≠ cur := by
          rintro rfl
          exact hwait hu
        exact Function.update_of_ne hucur ..
      cases ho : next cur with
      | none =>
        intro t ht
        by_cases hne : t = cur
        · rw [hne]; exact hlift
        · exact hother t ht hne (by simp [ho])
      | some o =>
        by_cases hself : o = cur
        · -- A member that waits for itself is lifted already, and the walk stops at it.
          subst hself
          refine ih hcur ?_ ?_ fun t ht hne => hother t ht hne (by simp [ho, Ne.symm hne])
          · have := card_below_update hcur hlt
            omega
          · rw [Function.update_self, max_self]
            have := hlift
            rw [Exact, Function.update_self] at this
            exact this
        · refine ih (hclosed cur hcur o ho) ?_ (due_of_lift hlt ho hself
            (hexact o (hclosed cur hcur o ho) hself)) fun t ht hne => ?_
          · have := card_below_update hcur hlt
            omega
          · by_cases hcase : t = cur
            · rw [hcase]; exact hlift
            · exact hother t ht hcase (by simp [ho, Ne.symm hne])

/-- A member that starts to wait for `o`, and held by nobody before, makes `o` lack its priority. -/
theorem due_of_wait {cur o : T} (hnone : next cur = none) (h : Exact base next prio o) :
    IsGreatest (Claims base (Function.update next cur (some o)) prio o)
      (max (prio o) (prio cur)) := by
  obtain ⟨hmem, hub⟩ := h
  refine ⟨?_, ?_⟩
  · cases le_total (prio o) (prio cur) with
    | inl hle =>
      rw [max_eq_right hle]
      exact .inr ⟨cur, Function.update_self .., rfl⟩
    | inr hle =>
      rw [max_eq_left hle]
      rcases hmem with hb | ⟨u, hu, hp⟩
      · exact .inl hb
      · refine .inr ⟨u, ?_, hp⟩
        rw [Function.update_of_ne (fun h => by rw [h, hnone] at hu; exact absurd hu (by simp))]
        exact hu
  · rintro q (rfl | ⟨u, hu, rfl⟩)
    · exact le_max_of_le_left (hub (.inl rfl))
    · by_cases hu' : u = cur
      · rw [hu']
        exact le_max_right _ _
      · rw [Function.update_of_ne hu'] at hu
        exact le_max_of_le_left (hub (.inr ⟨u, hu, rfl⟩))

/-! ## Where a priority comes from -/

/-- `u` cannot go on before `t` does, directly or not. -/
def Reaches (next : T → Option T) : T → T → Prop :=
  Relation.ReflTransGen fun u t => next u = some t

/-- The priority of `t` is its own, or that of somebody it holds up, directly or not. -/
def Sourced (base : T → P) (next : T → Option T) (prio : T → P) (t : T) : Prop :=
  ∃ u, Reaches next u t ∧ base u = prio t

section

variable {S : Finset T} (hedges : ∀ u t, next u = some t → u ∈ S ∧ t ∈ S)
  (hexact : ∀ t ∈ S, Exact base next prio t)
include hedges hexact

omit [DecidableEq T]

theorem prio_le_of_reaches {u t : T} (h : Reaches next u t) : prio u ≤ prio t := by
  induction h with
  | refl => exact le_refl _
  | tail _ hst ih => exact ih.trans ((hexact _ (hedges _ _ hst).2).2 (.inr ⟨_, hst, rfl⟩))

theorem base_le_of_reaches {u t : T} (hu : u ∈ S) (h : Reaches next u t) : base u ≤ prio t :=
  ((hexact u hu).2 (.inl rfl)).trans (prio_le_of_reaches hedges hexact h)

theorem Sourced.le {t : T} (ht : t ∈ S) (h : Sourced base next prio' t) : prio' t ≤ prio t := by
  obtain ⟨u, hreach, hbase⟩ := h
  have hu : u ∈ S := by
    cases Relation.ReflTransGen.cases_head hreach with
    | inl heq => exact heq ▸ ht
    | inr hhead =>
      obtain ⟨v, huv, _⟩ := hhead
      exact (hedges u v huv).1
  rw [← hbase]
  exact base_le_of_reaches hedges hexact hu hreach

/-- The priority is the greatest that anybody brings in along a chain that ends here. -/
theorem Sourced.isGreatest {t : T} (ht : t ∈ S) (h : Sourced base next prio t) :
    IsGreatest {p | ∃ u ∈ S, Reaches next u t ∧ base u = p} (prio t) := by
  constructor
  · obtain ⟨u, hreach, hbase⟩ := h
    refine ⟨u, ?_, hreach, hbase⟩
    rcases Relation.ReflTransGen.cases_head hreach with rfl | ⟨v, huv, _⟩
    · exact ht
    · exact (hedges u v huv).1
  · rintro p ⟨u, hu, hreach, rfl⟩
    exact base_le_of_reaches hedges hexact hu hreach

end

omit [DecidableEq T] in
/-- **Priorities that are exact and sourced are determined** by who holds up whom. -/
theorem sourced_unique {S : Finset T} (hedges : ∀ u t, next u = some t → u ∈ S ∧ t ∈ S)
    (hexact : ∀ t ∈ S, Exact base next prio t) (hsourced : ∀ t ∈ S, Sourced base next prio t)
    (hexact' : ∀ t ∈ S, Exact base next prio' t) (hsourced' : ∀ t ∈ S, Sourced base next prio' t)
    {t : T} (ht : t ∈ S) : prio t = prio' t :=
  le_antisymm ((hsourced t ht).le hedges hexact' ht) ((hsourced' t ht).le hedges hexact ht)

/-- A lifted member is on the chain and was below. -/
theorem raise_cases (next : T → Option T) (p : P) (n : Nat) (cur : T) (prio : T → P) (t : T) :
    raise next p n cur prio t = prio t ∨
      (raise next p n cur prio t = p ∧ prio t < p ∧ Reaches next cur t) := by
  induction n generalizing cur prio with
  | zero => exact .inl rfl
  | succ n ih =>
    rw [raise]
    by_cases hstop : p ≤ prio cur
    · rw [if_pos hstop]
      exact .inl rfl
    rw [if_neg hstop]
    have hlt := lt_of_not_ge hstop
    cases ho : next cur with
    | none =>
      by_cases ht : t = cur
      · subst ht
        exact .inr ⟨Function.update_self .., hlt, .refl⟩
      · exact .inl (Function.update_of_ne ht ..)
    | some o =>
      dsimp only
      rcases ih o (Function.update prio cur p) with hsame | ⟨hlift, hbelow, hreach⟩
      · rw [hsame]
        by_cases ht : t = cur
        · subst ht
          exact .inr ⟨Function.update_self .., hlt, .refl⟩
        · exact .inl (Function.update_of_ne ht ..)
      · refine .inr ⟨hlift, ?_, .head ho hreach⟩
        by_cases ht : t = cur
        · rw [ht]
          exact hlt
        · rwa [Function.update_of_ne ht] at hbelow

omit [DecidableEq T] in
theorem Reaches.mono (hsub : ∀ u t, next u = some t → next' u = some t) {u t : T}
    (h : Reaches next u t) : Reaches next' u t :=
  Relation.ReflTransGen.mono hsub _ _ h

/-- The chain of a member that starts to wait, seen from elsewhere: it is the old one, or joins it. -/
theorem Reaches.of_update {cur o u t : T} (h : Reaches (Function.update next cur (some o)) u t) :
    Reaches next u t ∨ Reaches next o t := by
  induction h using Relation.ReflTransGen.head_induction_on with
  | refl => exact .inl .refl
  | @head a b hab _ ih =>
    by_cases ha : a = cur
    · subst ha
      rw [Function.update_self, Option.some.injEq] at hab
      subst hab
      exact .inr (ih.elim id id)
    · rw [Function.update_of_ne ha] at hab
      exact ih.imp (fun hr => .head hab hr) id

/-! ## How far a walk gets -/

/-- The `i`-th member of the chain from `start`, if it has so many. -/
def link (next : T → Option T) (start : Option T) : Nat → Option T
  | 0 => start
  | i + 1 => (link next start i).bind next

/-- `t` is in the longest prefix of the chain whose members are all below `p`. -/
def Leads (next : T → Option T) (p : P) (prio : T → P) (start : Option T) (t : T) : Prop :=
  ∃ i, link next start i = some t ∧ ∀ j ≤ i, ∀ u, link next start j = some u → prio u < p

omit [DecidableEq T] in
theorem link_add {start : Option T} {i : Nat} {u : T} (h : link next start i = some u) (j : Nat) :
    link next start (i + j) = link next (some u) j := by
  induction j with
  | zero => exact h
  | succ j ih => rw [← Nat.add_assoc, link, link, ih]

omit [DecidableEq T] in
theorem link_succ (next : T → Option T) (cur : T) (i : Nat) :
    link next (some cur) (i + 1) = link next (next cur) i := by
  induction i with
  | zero => rfl
  | succ i ih => rw [link, ih, link]

omit [DecidableEq T] in
theorem Leads.lt {p : P} {cur t : T} (h : Leads next p prio (some cur) t) : prio cur < p := by
  obtain ⟨i, _, hbelow⟩ := h
  exact hbelow 0 (Nat.zero_le i) cur rfl

omit [DecidableEq T] in
theorem not_leads_none {p : P} {t : T} : ¬ Leads next p prio none t := by
  rintro ⟨i, hi, _⟩
  have hnone : ∀ j, link next none j = none := by
    intro j
    induction j with
    | zero => rfl
    | succ j ih => rw [link, ih]; rfl
  rw [hnone i] at hi
  exact absurd hi (by simp)

/-- What a lifted member leads to leads on without it: a chain that comes back to it can be cut short. -/
theorem leads_iff {p : P} {cur t : T} (hlt : prio cur < p) : Leads next p prio (some cur) t ↔
    t = cur ∨ Leads next p (Function.update prio cur p) (next cur) t := by
  constructor
  · rintro ⟨i, hi, hbelow⟩
    induction i using Nat.strong_induction_on with
    | _ i ih =>
      cases i with
      | zero => exact .inl (Option.some.inj hi).symm
      | succ i =>
        by_cases hback : ∃ j ≤ i, link next (some cur) (j + 1) = some cur
        · obtain ⟨j, hj, hcur⟩ := hback
          have hshort : link next (some cur) (i - j) = some t := by
            rw [← link_add hcur, ← hi]
            congr 1
            omega
          exact ih (i - j) (by omega) hshort fun k hk => hbelow k (by omega)
        · refine .inr ⟨i, by rw [← link_succ]; exact hi, fun j hj u hu => ?_⟩
          rw [← link_succ] at hu
          have hne : u ≠ cur := by
            rintro rfl
            exact hback ⟨j, hj, hu⟩
          rw [Function.update_of_ne hne]
          exact hbelow (j + 1) (by omega) u hu
  · rintro (rfl | ⟨i, hi, hbelow⟩)
    · refine ⟨0, rfl, fun j hj u hu => ?_⟩
      obtain rfl := Nat.le_zero.mp hj
      obtain rfl := Option.some.inj hu
      exact hlt
    · refine ⟨i + 1, by rw [link_succ]; exact hi, fun j hj u hu => ?_⟩
      cases j with
      | zero =>
        obtain rfl := Option.some.inj hu
        exact hlt
      | succ j =>
        rw [link_succ] at hu
        have hless := hbelow j (by omega) u hu
        have hne : u ≠ cur := by
          rintro rfl
          rw [Function.update_self] at hless
          exact lt_irrefl p hless
        rwa [Function.update_of_ne hne] at hless

section

variable {S : Finset T} (hclosed : ∀ t ∈ S, ∀ o, next t = some o → o ∈ S) {p : P} {n : Nat} {cur t : T}
  (hcur : cur ∈ S) (hn : (below S p prio).card ≤ n)
include hclosed hcur hn

/-- **A walk lifts the longest prefix of the chain that is below `p`**, … -/
theorem raise_of_leads (h : Leads next p prio (some cur) t) : raise next p n cur prio t = p := by
  induction n generalizing cur prio with
  | zero => exact absurd h.lt (not_lt_of_ge (le_of_card_below hcur hn))
  | succ n ih =>
    have hlt := h.lt
    rw [raise, if_neg (not_le_of_gt hlt)]
    have hrest := (leads_iff hlt).mp h
    cases ho : next cur with
    | none =>
      rw [ho] at hrest
      have ht : t = cur := hrest.resolve_right not_leads_none
      rw [ht]
      exact Function.update_self ..
    | some o =>
      rw [ho] at hrest
      have hcard := card_below_update hcur hlt
      dsimp only
      cases hrest with
      | inl ht =>
        rcases raise_cases next p n o (Function.update prio cur p) t with hsame | ⟨hlift, _⟩
        · rw [hsame, ht, Function.update_self]
        · exact hlift
      | inr hleads => exact ih (hclosed cur hcur o ho) (by omega) hleads

omit hclosed hcur hn in
/-- … and nobody else. -/
theorem raise_of_not_leads (h : ¬ Leads next p prio (some cur) t) : raise next p n cur prio t = prio t := by
  induction n generalizing cur prio with
  | zero => rfl
  | succ n ih =>
    rw [raise]
    by_cases hstop : p ≤ prio cur
    · rw [if_pos hstop]
    rw [if_neg hstop]
    rw [leads_iff (lt_of_not_ge hstop), not_or] at h
    cases ho : next cur with
    | none => exact Function.update_of_ne h.1 ..
    | some o =>
      rw [ho] at h
      dsimp only
      rw [ih h.2, Function.update_of_ne h.1]

end

end Inheritance
