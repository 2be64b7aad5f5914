import Smash.Proof.Awake

/-!
# Bugs that DPOR keeps and bugs that it loses

Where no thread on a selected schedule is asleep when its turn comes, the search follows the schedule
(`kept_of_awake`): whatever else the search leaves out, its sleep sets hold nobody who is not asleep in the sense
of `Asleep`. So DPOR reports every kind of bug that such a schedule ends in. `SelectsBugs` asks for one for each
kind of bug that the scenario has.

Where there is none, either the persistent sets have lost the bug, and DPOR does not report it, or the search
leaves a thread out as asleep (`dpor_loses_no_bug`). `abbaDeadlock`, of the tests, loses its deadlocks.
-/

set_option autoImplicit false

namespace Smash

open DepthFirst

variable {sc : Scenario} {cfg : Config}

/-! ## The statement -/

/-- With and without DPOR, a bug of each kind is reported or not. -/
def DporLosesNoBug (sc : Scenario) (cfg : Config) : Prop :=
  ∀ stack stack' : Nat → Saved,
    (0 < (explore sc (cfg.dpor true) stack).deadlocks ↔
      0 < (explore sc (cfg.dpor false) stack').deadlocks) ∧
    (0 < (explore sc (cfg.dpor true) stack).violations ↔
      0 < (explore sc (cfg.dpor false) stack').violations)

/-- No thread on the schedule is asleep when its turn comes. -/
def AwakeAlong (sc : Scenario) (x : List Int) : Prop := ∀ s t r, x = s ++ t :: r → ¬ Asleep sc s t

/-- If some schedule ends in a bug of a kind, then a selected schedule does that is awake. -/
def SelectsBugs (sc : Scenario) : Prop :=
  ((∃ s, DeadlockSchedule sc s) → ∃ s w, SelectedRun sc s w ∧ AwakeAlong sc s ∧ Stuck sc w ∧
    allDone sc w = false) ∧
  ((∃ s, ViolationSchedule sc s) → ∃ s t w, SelectedRun sc s w ∧ Selected sc w t ∧
    stepFails sc w t = true ∧ AwakeAlong sc (s ++ [t]))

/-! ## The levels of the reduction, in dictionary order -/

/-- What is known of an item that comes up at depth `d`. -/
def LevelItem (sc : Scenario) (d : Nat) : Item → Prop
  | .node s w => SelectedRun sc s w ∧ s.length = d
  | .broken x _ => ∃ s t w, x = s ++ [t] ∧ SelectedRun sc s w ∧ Selected sc w t ∧ stepFails sc w t = true
  | .pass threads => ∃ s, s.length = d ∧ ∀ q ∈ threads, Slept sc s q

/-- An item comes up before a node: the node's schedule is the later one, and what was handed down is asleep
there. -/
def Before (sc : Scenario) : Item → Item → Prop
  | .node s _, .node s' _ => s < s'
  | .pass threads, .node s' _ => ∀ q ∈ threads, Asleep sc s' q
  | _, _ => True

/-- What a node at `s` drops, along the threads `ts`. -/
def Dropped (sc : Scenario) (s : List Int) (w : World) (ts : List Int) : Item → Prop
  | .node x v => ∃ t ∈ ts, x = s ++ [t] ∧ SelectedRun sc x v
  | .broken x _ => ∃ t ∈ ts, x = s ++ [t] ∧ Selected sc w t ∧ stepFails sc w t = true
  | .pass threads => ∃ t ∈ ts, ∀ q ∈ threads, Slept sc (s ++ [t]) q

theorem Dropped.mono {s : List Int} {w : World} {ts ts' : List Int} (hsub : ts ⊆ ts') {x : Item}
    (h : Dropped sc s w ts x) : Dropped sc s w ts' x := by
  cases x with
  | node =>
    obtain ⟨t, ht, hx⟩ := h
    exact ⟨t, hsub ht, hx⟩
  | broken =>
    obtain ⟨t, ht, hx⟩ := h
    exact ⟨t, hsub ht, hx⟩
  | pass =>
    obtain ⟨t, ht, hx⟩ := h
    exact ⟨t, hsub ht, hx⟩

/-- What is dropped at an earlier schedule of the same length comes before. -/
theorem before_of_dropped {s s' : List Int} {w v : World} {ts : List Int} {t' : Int} {x : Item}
    (h : Dropped sc s w ts x) (hlen : s.length = s'.length)
    (hlt : ∀ t ∈ ts, s ++ [t] < s' ++ [t']) : Before sc x (.node (s' ++ [t']) v) := by
  cases x with
  | node =>
    obtain ⟨t, ht, rfl, -⟩ := h
    exact hlt t ht
  | broken => trivial
  | pass threads =>
    obtain ⟨t, ht, hslept⟩ := h
    exact fun q hq => ⟨s ++ [t], hlt t ht, by simp [hlen], hslept q hq⟩

/-- The loop of a node drops what it should, in order. -/
theorem keepLoop_dropped {s : List Int} {w : World} (hs : SelectedRun sc s w) {tried : Finset Int}
    (htried : ∀ t ∈ tried, Selected sc w t)
    (hready : ∀ t ∈ collectRunnable sc w smashMaxThreads, sc.Ready w t) (rest : List Int)
    (hsorted : rest.Pairwise (· < ·)) (sleep : Finset Int)
    (hsleep : ∀ q ∈ sleep, Asleep sc s q ∨ Selected sc w q ∧ ∀ t ∈ rest, q < t) :
    (∀ x ∈ (keepLoop sc s w tried rest sleep).2, Dropped sc s w rest x) ∧
      (keepLoop sc s w tried rest sleep).2.Pairwise (Before sc) := by
  induction rest generalizing sleep with
  | nil => exact ⟨by simp [keepLoop], .nil⟩
  | cons t rest ih =>
    obtain ⟨hlater, hsorted⟩ := List.pairwise_cons.mp hsorted
    rw [keepLoop]
    by_cases ht : t ∈ tried
    · rw [if_neg (not_not.mpr ht)]
      have hsel := htried t ht
      obtain ⟨hdrop, hpair⟩ := ih hsorted (insert t sleep) fun q hq => by
        rcases Finset.mem_insert.mp hq with rfl | hq
        · exact .inr ⟨hsel, hlater⟩
        · exact (hsleep q hq).imp_right fun h => ⟨h.1, fun u hu => h.2 u (List.mem_cons_of_mem t hu)⟩
      have hdrop' : ∀ x ∈ (keepLoop sc s w tried rest (insert t sleep)).2, Dropped sc s w (t :: rest) x :=
        fun x hx => (hdrop x hx).mono (List.subset_cons_self ..)
      -- Whatever comes first, it comes before the later children.
      have hfirst : ∀ x, Dropped sc s w [t] x → ∀ y ∈ (keepLoop sc s w tried rest (insert t sleep)).2,
          Before sc x y := by
        intro x hx y hy
        have hdropped := hdrop y hy
        cases y with
        | node σ v =>
          obtain ⟨t', ht', rfl, -⟩ := hdropped
          refine before_of_dropped hx rfl fun u hu => ?_
          rw [List.mem_singleton.mp hu]
          exact List.append_left_lt (List.cons_lt_cons_iff.mpr (.inl (hlater t' ht')))
        | broken => cases x <;> trivial
        | pass => cases x <;> trivial
      by_cases hfails : stepFails sc w t = true
      · rw [if_pos hfails]
        have hbroken : Dropped sc s w [t] (.broken (s ++ [t]) (w.executeStep sc t).world) :=
          ⟨t, List.mem_singleton_self t, rfl, hsel, hfails⟩
        exact ⟨List.forall_mem_cons.mpr ⟨hbroken.mono (by simp), hdrop'⟩,
          List.pairwise_cons.mpr ⟨hfirst _ hbroken, hpair⟩⟩
      · rw [if_neg hfails]
        have hchild := hs.step hsel (by simpa using hfails)
        have hnode : Dropped sc s w [t] (.node (s ++ [t]) (w.executeStep sc t).world) :=
          ⟨t, List.mem_singleton_self t, rfl, hchild⟩
        have hpass : Dropped sc s w [t] (.pass ((collectRunnable sc w smashMaxThreads).filter
            (· ∈ insert t sleep))) := by
          refine ⟨t, List.mem_singleton_self t, fun q hq => ?_⟩
          obtain ⟨hmem, hq⟩ := List.mem_filter.mp hq
          refine (slept_child_iff hs hchild).mpr (.inr ⟨hready q hmem, ?_⟩)
          rcases Finset.mem_insert.mp (of_decide_eq_true hq) with rfl | hq
          · exact .inl ⟨hsel, le_rfl⟩
          · exact (hsleep q hq).elim .inr fun h => .inl ⟨h.1, (h.2 t List.mem_cons_self).le⟩
        refine ⟨List.forall_mem_cons.mpr ⟨hnode.mono (by simp), List.forall_mem_cons.mpr
          ⟨hpass.mono (by simp), hdrop'⟩⟩, List.pairwise_cons.mpr ⟨?_, List.pairwise_cons.mpr
            ⟨hfirst _ hpass, hpair⟩⟩⟩
        exact List.forall_mem_cons.mpr ⟨trivial, hfirst _ hnode⟩
    · rw [if_pos ht]
      obtain ⟨hdrop, hpair⟩ := ih hsorted sleep fun q hq =>
        (hsleep q hq).imp_right fun h => ⟨h.1, fun u hu => h.2 u (List.mem_cons_of_mem t hu)⟩
      exact ⟨fun x hx => (hdrop x hx).mono (List.subset_cons_self ..), hpair⟩

/-- What the step of `t` comes up as, one depth below. -/
def stepItem (sc : Scenario) (s : List Int) (w : World) (t : Int) : Item :=
  if stepFails sc w t then .broken (s ++ [t]) (w.executeStep sc t).world
  else .node (s ++ [t]) (w.executeStep sc t).world

theorem stepItem_mem {s : List Int} {w : World} {tried : Finset Int} {t : Int} (ht : t ∈ tried)
    {rest : List Int} (hmem : t ∈ rest) (sleep : Finset Int) :
    stepItem sc s w t ∈ (keepLoop sc s w tried rest sleep).2 := by
  induction rest generalizing sleep with
  | nil => exact absurd hmem (by simp)
  | cons u rest ih =>
    rw [keepLoop]
    rcases List.mem_cons.mp hmem with rfl | hmem
    · rw [if_neg (not_not.mpr ht)]
      unfold stepItem
      split <;> exact List.mem_cons_self
    · split
      · exact ih hmem sleep
      · dsimp only
        split
        · exact List.mem_cons_of_mem _ (ih hmem _)
        · exact List.mem_cons_of_mem _ (List.mem_cons_of_mem _ (ih hmem _))

section level

variable (hv : sc.Valid)
include hv

/-- The threads that a node tries are selected, and it puts them to sleep. -/
theorem selected_of_tried {w : World} {sleep : Finset Int} {t : Int}
    (ht : t ∈ (computePersistentSet sc w (collectRunnable sc w smashMaxThreads)).filter (· ∉ sleep)) :
    Selected sc w t := (mem_persistentSet_iff hv).mp (Finset.mem_filter.mp ht).1

/-- What an item leaves asleep, for a node that comes later. -/
theorem asleep_of_react {s : List Int} {w : World} {x : Item} (hitem : LevelItem sc s.length x)
    (hbefore : Before sc x (.node s w)) {sleep : Finset Int} (hsleep : ∀ q ∈ sleep, Asleep sc s q) :
    ∀ q ∈ ((reduction sc).react sleep x).1, Asleep sc s q := by
  intro q hq
  cases x with
  | node τ v =>
    simp only [reduction, keepLoop_sleep, Finset.mem_union, List.mem_toFinset, List.mem_filter,
      decide_eq_true_eq] at hq
    rcases hq with hq | ⟨-, hq⟩
    · exact hsleep q hq
    · exact ⟨τ, hbefore, hitem.2, .tried hitem.1 (selected_of_tried hv hq)⟩
  | broken => exact hsleep q hq
  | pass threads =>
    rcases Finset.mem_union.mp hq with hq | hq
    · exact hsleep q hq
    · exact hbefore q (List.mem_toFinset.mp hq)

theorem asleep_of_after {s : List Int} {w : World} (xs : List Item) (hitem : ∀ x ∈ xs, LevelItem sc s.length x)
    (hbefore : ∀ x ∈ xs, Before sc x (.node s w)) (sleep : Finset Int) (hsleep : ∀ q ∈ sleep, Asleep sc s q) :
    ∀ q ∈ (reduction sc).after sleep xs, Asleep sc s q := by
  induction xs generalizing sleep with
  | nil => exact hsleep
  | cons x xs ih =>
    refine ih (fun y hy => hitem y (List.mem_cons_of_mem x hy)) (fun y hy => hbefore y (List.mem_cons_of_mem x hy))
      _ ?_
    exact asleep_of_react hv (hitem x List.mem_cons_self) (hbefore x List.mem_cons_self) hsleep

/-- What a node drops. -/
theorem react_dropped {s : List Int} {w : World} (hs : SelectedRun sc s w) {sleep : Finset Int}
    (hsleep : ∀ q ∈ sleep, Asleep sc s q) :
    (∀ x ∈ ((reduction sc).react sleep (.node s w)).2,
        Dropped sc s w (collectRunnable sc w smashMaxThreads) x) ∧
      ((reduction sc).react sleep (.node s w)).2.Pairwise (Before sc) :=
  keepLoop_dropped hs (fun _ ht => selected_of_tried hv ht) (fun _ ht => (mem_collectRunnable hv).mp ht) _
    (sorted_collectRunnable ..) sleep fun q hq => .inl (hsleep q hq)

/-- From one level to the next. -/
theorem drops_level {d : Nat} (xs : List Item) (hitem : ∀ x ∈ xs, LevelItem sc d x)
    (hpair : xs.Pairwise (Before sc)) (sleep : Finset Int)
    (hsleep : ∀ q ∈ sleep, ∀ s w, .node s w ∈ xs → Asleep sc s q) :
    (∀ x ∈ (reduction sc).drops sleep xs, LevelItem sc (d + 1) x) ∧
      ((reduction sc).drops sleep xs).Pairwise (Before sc) ∧
      ∀ σ v, .node σ v ∈ (reduction sc).drops sleep xs → ∃ s w t, .node s w ∈ xs ∧ σ = s ++ [t] := by
  induction xs generalizing sleep with
  | nil => exact ⟨by simp [Cascade.drops], .nil, by simp [Cascade.drops]⟩
  | cons x xs ih =>
    obtain ⟨hfirst, hpair⟩ := List.pairwise_cons.mp hpair
    have hx := hitem x List.mem_cons_self
    obtain ⟨hitems, hpairs, hfrom⟩ := ih (fun y hy => hitem y (List.mem_cons_of_mem x hy)) hpair
      ((reduction sc).react sleep x).1 fun q hq s w hmem => by
        have hlen := (hitem _ (List.mem_cons_of_mem x hmem)).2
        exact asleep_of_react hv (hlen ▸ hx) (hfirst _ hmem)
          (fun q hq => hsleep q hq s w (List.mem_cons_of_mem x hmem)) q hq
    have hlater : ∀ σ v, .node σ v ∈ (reduction sc).drops ((reduction sc).react sleep x).1 xs →
        ∃ s w t, .node s w ∈ x :: xs ∧ σ = s ++ [t] := by
      intro σ v hmem
      obtain ⟨s, w, t, hs, heq⟩ := hfrom σ v hmem
      exact ⟨s, w, t, List.mem_cons_of_mem x hs, heq⟩
    cases x with
    | broken => exact ⟨hitems, hpairs, hlater⟩
    | pass => exact ⟨hitems, hpairs, hlater⟩
    | node s w =>
      obtain ⟨hdrop, hown⟩ := react_dropped hv hx.1 fun q hq => hsleep q hq s w List.mem_cons_self
      rw [Cascade.drops]
      refine ⟨fun y hy => ?_, List.pairwise_append.mpr ⟨hown, hpairs, fun y hy z hz => ?_⟩, fun σ v hmem => ?_⟩
      · cases List.mem_append.mp hy with
        | inr hy => exact hitems y hy
        | inl hy =>
          have hdropped := hdrop y hy
          cases y with
          | node =>
            obtain ⟨t, -, rfl, hrun⟩ := hdropped
            exact ⟨hrun, by simp [hx.2]⟩
          | broken =>
            obtain ⟨t, -, rfl, hsel, hfails⟩ := hdropped
            exact ⟨s, t, w, rfl, hx.1, hsel, hfails⟩
          | pass =>
            obtain ⟨t, -, hslept⟩ := hdropped
            exact ⟨s ++ [t], by simp [hx.2], hslept⟩
      · cases z with
        | node σ v =>
          obtain ⟨s', w', t', hmem, rfl⟩ := hfrom σ v hz
          have hlen := (hitem _ (List.mem_cons_of_mem _ hmem)).2
          exact before_of_dropped (hdrop y hy) (hx.2.trans hlen.symm) fun t _ =>
            append_lt_append (hfirst _ hmem) (hx.2.trans hlen.symm) [t] [t']
        | broken => cases y <;> trivial
        | pass => cases y <;> trivial
      · cases List.mem_append.mp hmem with
        | inr hmem => exact hlater σ v hmem
        | inl hmem =>
          obtain ⟨t, -, rfl, -⟩ := hdrop _ hmem
          exact ⟨s, w, t, List.mem_cons_self, rfl⟩

/-- **What comes up at a depth**: nodes of selected schedules, in dictionary order, and between them only threads
that are asleep at the nodes to come. -/
theorem kept_level (d : Nat) : (∀ x ∈ kept sc d, LevelItem sc d x) ∧ (kept sc d).Pairwise (Before sc) := by
  induction d with
  | zero =>
    refine ⟨fun x hx => ?_, List.pairwise_singleton _ _⟩
    rw [List.mem_singleton.mp hx]
    exact ⟨selectedRun_nil, rfl⟩
  | succ d ih =>
    obtain ⟨hitems, hpair, -⟩ := drops_level hv (kept sc d) ih.1 ih.2 ∅ (by simp)
    exact ⟨hitems, hpair⟩

/-- At a kept node a selected thread that is awake is tried. -/
theorem kept_step {s : List Int} {w : World} {t : Int} (hmem : .node s w ∈ kept sc s.length)
    (hsel : Selected sc w t) (hawake : ¬ Asleep sc s t) : stepItem sc s w t ∈ kept sc (s.length + 1) := by
  obtain ⟨hitems, hpair⟩ := kept_level hv s.length
  obtain ⟨front, back, heq⟩ := List.append_of_mem hmem
  rw [heq] at hitems hpair
  have hasleep := asleep_of_after (w := w) hv front (fun x hx => hitems x (List.mem_append_left _ hx))
    (fun x hx => (List.pairwise_append.mp hpair).2.2 x hx _ List.mem_cons_self) ∅ (by simp)
  have hlevel : kept sc (s.length + 1) = (reduction sc).drops ∅ (kept sc s.length) := rfl
  rw [hlevel, heq, Cascade.drops_append, Cascade.drops]
  refine List.mem_append_right _ (List.mem_append_left _ (stepItem_mem ?_ ((mem_collectRunnable hv).mpr hsel.ready) _))
  exact Finset.mem_filter.mpr ⟨(mem_persistentSet_iff hv).mpr hsel, fun h => hawake (hasleep t h)⟩

/-- **A selected schedule that is awake is kept.** -/
theorem kept_of_awake {s : List Int} {w : World} (hs : SelectedRun sc s w) (hawake : AwakeAlong sc s) :
    .node s w ∈ kept sc s.length := by
  induction s using List.reverseRecOn generalizing w with
  | nil => exact List.mem_singleton.mpr (by rw [selectedRun_nil.unique hs])
  | append_singleton s t ih =>
    obtain ⟨v, hrun, ⟨⟨-, hok, rfl⟩, hsel⟩⟩ := TransitionSystem.Run.snoc_inv hs
    have hprefix : AwakeAlong sc s := fun s' t' r heq => hawake s' t' (r ++ [t]) (by simp [heq])
    have hitem := kept_step hv (ih hrun hprefix) hsel (hawake s t [] rfl)
    rw [stepItem, hok, if_neg Bool.false_ne_true] at hitem
    rwa [List.length_append, List.length_singleton]

end level

/-! ## The theorem -/

section visited

variable (hv : sc.Valid) (hp : (cfg.dpor false).Plain) (hshort : RunsShorter sc cfg.bound)
include hv hp hshort

theorem dporLosesNoBug_iff : DporLosesNoBug sc cfg ↔
    ((∃ s, DeadlockSchedule sc s) → ∃ s, KeptSchedule sc s ∧ DeadlockSchedule sc s) ∧
    ((∃ s, ViolationSchedule sc s) → ∃ s, KeptSchedule sc s ∧ ViolationSchedule sc s) := by
  unfold DporLosesNoBug
  simp only [explore_deadlocks_pos hv, explore_violations_pos hv, dpor_deadlock_iff hv hp hshort,
    dpor_violation_iff hv hp hshort, plain_deadlock_iff hv hp hshort, plain_violation_iff hv hp hshort]
  constructor
  · intro h
    have hroot := h (fun _ => rootNode sc) fun _ => rootNode sc
    exact ⟨hroot.1.mpr, hroot.2.mpr⟩
  · intro h _ _
    exact ⟨⟨fun ⟨s, _, hs⟩ => ⟨s, hs⟩, h.1⟩, ⟨fun ⟨s, _, hs⟩ => ⟨s, hs⟩, h.2⟩⟩

omit hp hshort in
/-- Bugs that selected and awake schedules end in are kept. -/
theorem kept_of_selectsBugs (h : SelectsBugs sc) :
    ((∃ s, DeadlockSchedule sc s) → ∃ s, KeptSchedule sc s ∧ DeadlockSchedule sc s) ∧
    ((∃ s, ViolationSchedule sc s) → ∃ s, KeptSchedule sc s ∧ ViolationSchedule sc s) := by
  refine ⟨fun hbug => ?_, fun hbug => ?_⟩
  · obtain ⟨s, w, hs, hawake, hstuck, hdone⟩ := h.1 hbug
    exact ⟨s, ⟨_, _, kept_of_awake hv hs hawake, rfl⟩, w, hs.clean, hstuck, hdone⟩
  · obtain ⟨s, t, w, hs, hsel, hfails, hawake⟩ := h.2 hbug
    have hprefix : AwakeAlong sc s := fun s' t' r heq => hawake s' t' (r ++ [t]) (by simp [heq])
    have hitem := kept_step hv (kept_of_awake hv hs hprefix) hsel (hawake s t [] rfl)
    rw [stepItem, if_pos hfails] at hitem
    exact ⟨s ++ [t], ⟨_, _, hitem, rfl⟩, s, t, w, rfl, hs.clean, hsel.ready, hfails⟩

omit hv in
/-- Where the limits cut nothing off, and the selected threads are awake, so is every schedule of them. -/
theorem awakeAlong_of_selectsAwake (h : SelectsAwake sc (cfg.dpor true)) {x : List Int} (hx : Comes sc x) :
    AwakeAlong sc x := by
  intro s t r heq
  obtain ⟨w, hs, hsel⟩ := hx s t r heq
  refine h s w t hs (Int.ofNat_lt.mp (hshort s w hs.clean)) ?_ hsel
  rintro (⟨hstop, -⟩ | ⟨n, hn, -⟩)
  · have hnever : cfg.stopOnFirstBug = false := hp.stopOnFirstBug
    exact absurd (hnever.symm.trans hstop) (by simp)
  · rcases hp.maxInterleavings with h | h <;>
      simp only [Config.dpor] at h <;> simp [Config.clamp, Config.dpor, h] at hn

/-- Then the bugs that are kept are those of selected schedules that are awake. -/
theorem selectsBugs_of_kept (hawake : SelectsAwake sc (cfg.dpor true))
    (h : ((∃ s, DeadlockSchedule sc s) → ∃ s, KeptSchedule sc s ∧ DeadlockSchedule sc s) ∧
      ((∃ s, ViolationSchedule sc s) → ∃ s, KeptSchedule sc s ∧ ViolationSchedule sc s)) :
    SelectsBugs sc := by
  have halong := fun x => awakeAlong_of_selectsAwake hp hshort hawake (x := x)
  refine ⟨fun hbug => ?_, fun hbug => ?_⟩
  · obtain ⟨s, ⟨d, x, hx, hxs⟩, w, hrun, hstuck, hdone⟩ := h.1 hbug
    have hitem := (kept_level hv d).1 x hx
    cases x with
    | pass => exact absurd hxs (by simp [Item.schedule])
    | broken =>
      cases hxs
      obtain ⟨s', t, v, rfl, hrun', hsel, hfails⟩ := hitem
      have hviolation : ViolationSchedule sc (s' ++ [t]) := ⟨s', t, v, rfl, hrun'.clean, hsel.ready, hfails⟩
      exact absurd hrun hviolation.not_clean
    | node =>
      cases hxs
      obtain rfl := hitem.1.clean.unique hrun
      exact ⟨s, _, hitem.1, halong s hitem.1.comes, hstuck, hdone⟩
  · obtain ⟨s, ⟨d, x, hx, hxs⟩, hviolation⟩ := h.2 hbug
    have hitem := (kept_level hv d).1 x hx
    cases x with
    | pass => exact absurd hxs (by simp [Item.schedule])
    | node =>
      cases hxs
      exact absurd hitem.1.clean hviolation.not_clean
    | broken =>
      cases hxs
      obtain ⟨s', t, v, rfl, hrun, hsel, hfails⟩ := hitem
      exact ⟨s', t, v, hrun, hsel, hfails, halong _ (hrun.comes_snoc hsel)⟩

/-- **When DPOR loses no bug**: when a selected schedule that is awake ends in a bug of each kind that there is.
In every other scenario it loses one, or leaves a thread out as asleep. -/
theorem dpor_loses_no_bug :
    (SelectsBugs sc → DporLosesNoBug sc cfg) ∧
    (¬ SelectsBugs sc → ¬ DporLosesNoBug sc cfg ∨
      ∃ w t, .leftOut w t ∈ (exploreChronicle sc (cfg.dpor true)).choices) := by
  have hiff := dporLosesNoBug_iff hv hp hshort
  refine ⟨fun h => hiff.mpr (kept_of_selectsBugs hv h), fun hnot => ?_⟩
  by_contra hneither
  obtain ⟨hloses, hquiet⟩ := not_or.mp hneither
  have hcache : (cfg.dpor true).enableStateCaching = false := hp.enableStateCaching
  have hawake := (leavesOut_iff hv rfl hcache).mp fun w t hmem => hquiet ⟨w, t, hmem⟩
  exact hnot (selectsBugs_of_kept hv hp hshort hawake (hiff.mp (not_not.mp hloses)))

end visited

/-! ### The ABBA deadlock -/

theorem abbaDeadlock_plain (stack : Nat → Saved) :
    (explore abbaDeadlock ⟨false, false, 16, none, false⟩ stack).deadlocks = 4 := by
  rw [explore_deadlocks (show abbaDeadlock.Valid by decide)]
  decide +kernel

theorem abbaDeadlock_reduced (stack : Nat → Saved) :
    (explore abbaDeadlock ⟨true, false, 16, none, false⟩ stack).deadlocks = 0 := by
  rw [explore_deadlocks (show abbaDeadlock.Valid by decide)]
  decide +kernel

theorem not_dporLosesNoBug_abba : ¬ DporLosesNoBug abbaDeadlock ⟨true, false, 16, none, false⟩ := by
  intro h
  obtain ⟨hdeadlocks, -⟩ := h (fun _ => rootNode abbaDeadlock) fun _ => rootNode abbaDeadlock
  have hfound := hdeadlocks.mpr ((abbaDeadlock_plain _).symm ▸ Nat.zero_lt_succ 3)
  exact absurd (hfound.trans_eq (abbaDeadlock_reduced _)) (Nat.lt_irrefl 0)

/-- **DPOR loses the ABBA deadlock** of the tests: plain search counts four, the reduced search none.
The scenario only locks and unlocks mutexes. -/
theorem abbaDeadlock_lost :
    abbaDeadlock.Valid ∧
      (∀ t, abbaDeadlock.IsThread t → ∀ pc a, abbaDeadlock.actionAt t pc = some a →
        (a.type = .mutexLock ∨ a.type = .mutexUnlock) ∧ abbaDeadlock.IsResource a.resourceId ∧
          abbaDeadlock.resTypes a.resourceId = .mutex) ∧
      RunsShorter abbaDeadlock 16 ∧
      (∀ stack, (explore abbaDeadlock ⟨false, false, 16, none, false⟩ stack).deadlocks = 4) ∧
      (∀ stack, (explore abbaDeadlock ⟨true, false, 16, none, false⟩ stack).deadlocks = 0) ∧
      ¬ DporLosesNoBug abbaDeadlock ⟨true, false, 16, none, false⟩ := by
  exact ⟨by decide, forall_actionAt (P := fun _ a => (a.type = .mutexLock ∨ a.type = .mutexUnlock) ∧
    abbaDeadlock.IsResource a.resourceId ∧ abbaDeadlock.resTypes a.resourceId = .mutex) (by decide),
    abbaDeadlock_short, abbaDeadlock_plain, abbaDeadlock_reduced, not_dporLosesNoBug_abba⟩

/-! ### Two waits -/

/-- Two threads that wait for ever for different semaphores. -/
def twoWaits : Scenario :=
  .ofSteps [[⟨.semWait, 0, 0⟩], [⟨.semWait, 1, 0⟩]] [.semaphore, .semaphore] [0, 0]

/-- Their deadlock is at the end of a selected schedule that is awake; those of the ABBA pattern are not. -/
theorem dpor_loses_no_bug_twoWaits : SelectsBugs twoWaits ∧ ¬ SelectsBugs abbaDeadlock := by
  have hp : ∀ n : Nat, Config.Plain ⟨false, false, n, none, false⟩ := fun _ => ⟨rfl, rfl, Or.inl rfl, rfl⟩
  have hv : twoWaits.Valid := by decide
  have hshort : RunsShorter twoWaits (8 : Nat) :=
    (runsShorter_iff (show twoWaits.Valid by decide)).mpr (by decide +kernel)
  have hquiet : (exploreChronicle twoWaits ⟨true, false, 8, none, false⟩).choices.all (!·.asleep) = true := by
    decide +kernel
  have hfinds : DporLosesNoBug twoWaits ⟨true, false, 8, none, false⟩ := by
    intro stack stack'
    rw [explore_deadlocks hv, explore_deadlocks hv, explore_violations hv, explore_violations hv]
    decide +kernel
  have hwaits : (SelectsBugs twoWaits → DporLosesNoBug twoWaits ⟨true, false, 8, none, false⟩) ∧ _ :=
    dpor_loses_no_bug hv (hp 8) hshort
  have habba : (SelectsBugs abbaDeadlock → DporLosesNoBug abbaDeadlock ⟨true, false, 16, none, false⟩) ∧ _ :=
    dpor_loses_no_bug (by decide) (hp 16) abbaDeadlock_short
  refine ⟨?_, fun h => not_dporLosesNoBug_abba (habba.1 h)⟩
  by_contra hnot
  rcases hwaits.2 hnot with hloses | ⟨w, t, hmem⟩
  · exact hloses hfinds
  · exact quiet_iff.mpr hquiet w t hmem

end Smash
