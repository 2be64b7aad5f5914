import Smash.Lib.Probe
import Smash.Proof.Hashed

/-!
# The visited table

`smash_state_visited` and `smash_state_mark_visited` are lookup and insertion of a set of hashes, kept by
open addressing with linear probing (`Probe`). A hash is never zero, the value of an empty slot
(`stateHash_ne_zero`). `visited_iff_marked` says so of any sequence of marks: what is found is what was marked.
-/

set_option autoImplicit false

namespace Smash

/-- The table is the set `hs` of hashes. -/
structure StateTable.Holds (table : StateTable) (hs : Finset UInt64) : Prop where
  sound : Probe.Sound 0 smashStateHtSize UInt64.toNat table.stateHt hs
  count : table.stateHashCount = hs.card

theorem fnv1a_ne_zero (data : List UInt8) : fnv1a data ≠ 0 := by
  unfold fnv1a
  dsimp only
  split
  · decide
  · assumption

theorem stateHash_ne_zero (snap : Snapshot) : stateHash snap ≠ 0 := fnv1a_ne_zero _

/-- `smash_state_equal` compares what `smash_state_hash` reads. -/
theorem stateHash_eq_of_equal {a b : Snapshot} (h : stateEqual a b = true) :
    stateHash a = stateHash b := by
  have hcounts : a.threadCount = b.threadCount ∧ a.resourceCount = b.resourceCount := by
    simp only [stateEqual, Bool.and_eq_true, decide_eq_true_eq] at h
    exact h.1.1
  rw [stateHash, stateHash, (bytes_eq_iff hcounts.1 hcounts.2).mpr h]

/-! ## The two loops are the search of `Probe` -/

theorem visitedFrom_iff {ht : Nat → UInt64} {hash : UInt64} {left : Nat} :
    visitedFrom ht hash left = true ↔
      ∃ i, Probe.probe 0 smashStateHtSize UInt64.toNat ht hash left = some i ∧ ht i ≠ 0 := by
  induction left with
  | zero => simp [visitedFrom, Probe.probe]
  | succ left ih =>
    rw [visitedFrom, Probe.probe]
    show (if ht (Probe.spot smashStateHtSize UInt64.toNat hash _) = 0 then false else _) = true ↔ _
    generalize hidx : Probe.spot smashStateHtSize UInt64.toNat hash (smashStateHtSize - (left + 1)) = idx
    have hidx' : htIndex hash (smashStateHtSize - (left + 1)) = idx := hidx
    rw [hidx']
    by_cases hempty : ht idx = 0
    · simp [hempty]
    by_cases hfound : ht idx = hash
    · simp [hfound, hfound ▸ hempty]
    · rw [if_neg hempty, if_neg hfound, if_neg (by simp [hempty, hfound])]
      exact ih

theorem markFrom_eq (table : StateTable) (hash : UInt64) (left : Nat) :
    markFrom table hash left =
      match Probe.probe 0 smashStateHtSize UInt64.toNat table.stateHt hash left with
      | none => (table, false)
      | some i =>
        if table.stateHt i = 0 then
          ({ stateHt := Function.update table.stateHt i hash
             stateHashCount := table.stateHashCount + 1 }, true)
        else (table, true) := by
  induction left with
  | zero => rfl
  | succ left ih =>
    rw [markFrom, Probe.probe]
    have hidx : Probe.spot smashStateHtSize UInt64.toNat hash (smashStateHtSize - (left + 1))
        = htIndex hash (smashStateHtSize - (left + 1)) := rfl
    rw [hidx]
    generalize htIndex hash (smashStateHtSize - (left + 1)) = idx
    by_cases hempty : table.stateHt idx = 0
    · simp [hempty]
    by_cases hfound : table.stateHt idx = hash
    · simp [hfound, hfound ▸ hempty]
    · rw [if_neg (show ¬ (table.stateHt idx = 0 ∨ table.stateHt idx = hash) by simp [hempty, hfound])]
      rw [if_neg hempty, if_neg hfound]
      exact ih

/-! ## Lookup and insertion -/

namespace StateTable.Holds

variable {table : StateTable} {hs : Finset UInt64} {hash : UInt64}

theorem empty : StateTable.empty.Holds ∅ := ⟨.clear, rfl⟩

theorem visited_iff (h : table.Holds hs) (hne : hash ≠ 0) : table.visited hash = true ↔ hash ∈ hs := by
  rw [StateTable.visited, visitedFrom_iff]
  exact (h.sound.mem_iff (by decide) hne).symm

/-- **Marking a hash** adds it and returns `true`, as long as fewer than `SMASH_MAX_STATES` are stored. -/
theorem mark (h : table.Holds hs) (hne : hash ≠ 0) :
    (table.markVisited hash).1.Holds (if hs.card < smashMaxStates then insert hash hs else hs) ∧
      ((table.markVisited hash).2 = true ↔ hs.card < smashMaxStates) := by
  unfold StateTable.markVisited
  rw [h.count]
  by_cases hfull : smashMaxStates ≤ hs.card
  · rw [if_pos hfull, if_neg (by omega)]
    exact ⟨h, by simp; omega⟩
  have hless : hs.card < smashMaxStates := by omega
  rw [if_neg hfull, if_pos hless, markFrom_eq]
  have hroom : hs.card < smashStateHtSize :=
    lt_trans hless (show smashMaxStates < smashStateHtSize by decide)
  obtain ⟨i, hprobe⟩ := h.sound.probe_isSome hroom hash
  rw [hprobe]
  dsimp only
  by_cases hempty : table.stateHt i = 0
  · have hnew : hash ∉ hs := by
      intro hmem
      obtain ⟨j, hj, hjfull⟩ := (h.sound.mem_iff (by decide) hne).mp hmem
      obtain rfl := Option.some.inj (hprobe.symm.trans hj)
      exact hjfull hempty
    rw [if_pos hempty]
    refine ⟨⟨h.sound.store hne hprobe hempty, ?_⟩, by simp [hless]⟩
    rw [Finset.card_insert_of_notMem hnew, h.count]
  · have hold : hash ∈ hs := (h.sound.mem_iff (by decide) hne).mpr ⟨i, hprobe, hempty⟩
    rw [if_neg hempty, Finset.insert_eq_of_mem hold]
    exact ⟨h, by simp [hless]⟩

/-- What the cells hold is what is stored. -/
theorem stored (h : table.Holds hs) : ((Finset.range smashStateHtSize).image table.stateHt).erase 0 = hs := by
  ext k
  rw [Finset.mem_erase, Finset.mem_image]
  constructor
  · rintro ⟨hne, i, hi, rfl⟩
    exact h.sound.stored i (Finset.mem_range.mp hi) hne
  · intro hk
    obtain ⟨hne, i, hprobe, hi⟩ := h.sound.found k hk
    exact ⟨hne, i, Finset.mem_range.mpr (Probe.probe_lt (by decide) hprobe), hi⟩

end StateTable.Holds

/-! ## Any sequence of marks -/

/-- Calls of `smash_state_mark_visited` in a row. -/
def StateTable.marks (table : StateTable) (hs : List UInt64) : StateTable :=
  hs.foldl (fun table h => (table.markVisited h).1) table

/-- A call for `h` among those in `hs` returned `true`. -/
def StateTable.MarkedIn (table : StateTable) (hs : List UInt64) (h : UInt64) : Prop :=
  ∃ front back, hs = front ++ h :: back ∧ ((table.marks front).markVisited h).2 = true

theorem markedIn_cons {table : StateTable} {a h : UInt64} {hs : List UInt64} :
    table.MarkedIn (a :: hs) h ↔
      (h = a ∧ (table.markVisited a).2 = true) ∨ (table.markVisited a).1.MarkedIn hs h := by
  constructor
  · rintro ⟨front, back, heq, hmark⟩
    cases front with
    | nil =>
      obtain ⟨rfl, rfl⟩ := List.cons.inj heq
      exact .inl ⟨rfl, hmark⟩
    | cons b front =>
      obtain ⟨rfl, rfl⟩ := List.cons.inj heq
      exact .inr ⟨front, back, rfl, hmark⟩
  · rintro (⟨rfl, hmark⟩ | ⟨front, back, rfl, hmark⟩)
    · exact ⟨[], hs, rfl, hmark⟩
    · exact ⟨a :: front, back, rfl, hmark⟩

/-- After any marks the table is the set of what it was and of what was marked. -/
theorem StateTable.Holds.marks {table : StateTable} {S : Finset UInt64} (h : table.Holds S)
    (hcard : S.card ≤ smashMaxStates) {hs : List UInt64} (hne : ∀ k ∈ hs, k ≠ 0) :
    ∃ S', (table.marks hs).Holds S' ∧ S'.card ≤ smashMaxStates ∧
      ∀ k, k ∈ S' ↔ k ∈ S ∨ table.MarkedIn hs k := by
  induction hs generalizing table S with
  | nil =>
    refine ⟨S, h, hcard, fun k => ⟨.inl, ?_⟩⟩
    rintro (hk | ⟨front, back, heq, _⟩)
    · exact hk
    · exact absurd heq (by simp)
  | cons a hs ih =>
    obtain ⟨hmark, hret⟩ := h.mark (hne a List.mem_cons_self)
    have hfits : (if S.card < smashMaxStates then insert a S else S).card ≤ smashMaxStates := by
      split
      · exact (Finset.card_insert_le a S).trans (by omega)
      · exact hcard
    obtain ⟨S', hS', hcard', hmem⟩ := ih hmark hfits fun k hk => hne k (List.mem_cons_of_mem a hk)
    refine ⟨S', hS', hcard', fun k => ?_⟩
    have hone : k ∈ (if S.card < smashMaxStates then insert a S else S) ↔
        k ∈ S ∨ (k = a ∧ (table.markVisited a).2 = true) := by
      rw [hret]
      split
      · rw [Finset.mem_insert, or_comm]
        simp [*]
      · simp [*]
    rw [hmem, hone, markedIn_cons, or_assoc]

/-- **The visited table is an exact set.** After any marks of hashes other than zero, from a cleared table: a
hash is found if and only if a mark of it returned `true`; a stored hash is in one slot; and the count is the
number of stored hashes, at most `SMASH_MAX_STATES`. -/
theorem visited_iff_marked {hs : List UInt64} (hne : ∀ k ∈ hs, k ≠ 0) :
    (∀ k, k ≠ 0 → ((StateTable.empty.marks hs).visited k = true ↔ StateTable.empty.MarkedIn hs k)) ∧
    (∀ i < smashStateHtSize, (StateTable.empty.marks hs).stateHt i ≠ 0 →
      ∃! j, j < smashStateHtSize ∧
        (StateTable.empty.marks hs).stateHt j = (StateTable.empty.marks hs).stateHt i) ∧
    (StateTable.empty.marks hs).stateHashCount =
      (((Finset.range smashStateHtSize).image (StateTable.empty.marks hs).stateHt).erase 0).card ∧
    (StateTable.empty.marks hs).stateHashCount ≤ smashMaxStates := by
  obtain ⟨S, hS, hcard, hmem⟩ := StateTable.Holds.empty.marks (Nat.zero_le _) hne
  refine ⟨fun k hk => ?_, fun i hi hfull => ?_, ?_, ?_⟩
  · rw [hS.visited_iff hk, hmem]
    simp
  · refine ⟨i, ⟨hi, rfl⟩, fun j ⟨hj, heq⟩ => ?_⟩
    exact (hS.sound.alone i hi j hj hfull heq.symm).symm
  · rw [hS.stored, hS.count]
  · rw [hS.count]
    exact hcard

/-- Two hashes whose home is the last slot: the second is stored in the first, and found there. -/
theorem visited_iff_marked_collision :
    (StateTable.empty.marks [0x1ffff, 0x3ffff]).visited 0x3ffff = true ∧
      (StateTable.empty.marks [0x1ffff, 0x3ffff]).stateHt 0 = 0x3ffff ∧
      (StateTable.empty.marks [0x1ffff, 0x3ffff]).stateHashCount ≤ smashMaxStates := by
  have hspec := @visited_iff_marked [0x1ffff, 0x3ffff]
    (List.forall_mem_cons.mpr ⟨by decide, List.forall_mem_singleton.mpr (by decide)⟩)
  refine ⟨(hspec.1 0x3ffff (by decide)).mpr ⟨[0x1ffff], [], rfl, by decide +kernel⟩, by decide +kernel,
    hspec.2.2.2⟩

end Smash
