import Mathlib.Tactic.Ring
import Smash.Lib.LiveArray

/-!
# Delta debugging

A failing input is made smaller by leaving out chunks of it and keeping what still fails. One pass
goes over the input with a chunk of fixed size; where the input without the chunk fails, it takes
the input's place and the pass stays where it is, since the next chunk has moved up. The passes
start with a given chunk and halve it.

Nothing is asked of the test. The test sees a different input every time, and what it says of one
input says nothing of another; so all that can be promised is what holds of each input that was
kept: it is part of the one before it, and it fails. An input stays as it is exactly if it is
`Irreducible`: none of the chunks that are tried on it can be left out.
-/

set_option autoImplicit false

namespace DeltaDebug

variable {α : Type}

/-! ## The algorithm -/

/-- The entries of `l` outside `start .. start + chunk`. -/
def withoutChunk (l : List α) (start chunk : Nat) : List α := l.take start ++ l.drop (start + chunk)

theorem length_withoutChunk {l : List α} {start chunk : Nat} (h : start + chunk ≤ l.length) :
    (withoutChunk l start chunk).length = l.length - chunk := by
  rw [withoutChunk, List.length_append, List.length_take, List.length_drop]
  omega

theorem withoutChunk_sublist (l : List α) (start chunk : Nat) :
    (withoutChunk l start chunk).Sublist l := by
  have hrest : (l.drop (start + chunk)).Sublist (l.drop start) := by
    rw [← List.drop_drop]
    exact List.drop_sublist chunk _
  calc (withoutChunk l start chunk).Sublist (l.take start ++ l.drop start) :=
        (List.Sublist.refl _).append hrest
    _ = l := List.take_append_drop start l

/-- One pass. -/
def pass (fails : List α → Bool) (chunk : Nat) (hchunk : 1 ≤ chunk) (a : LiveArray α)
    (start : Nat) : LiveArray α :=
  if _h : start + chunk ≤ a.count then
    let trial := withoutChunk a.toList start chunk
    if fails trial then pass fails chunk hchunk (a.overwrite trial) start
    else pass fails chunk hchunk a (start + chunk)
  else a
termination_by a.count - start
decreasing_by
  · rw [LiveArray.count_overwrite, length_withoutChunk (by rwa [LiveArray.length_toList]),
      LiveArray.length_toList]
    omega
  · omega

/-- The passes, with `chunk` and its halves. -/
def shrink (fails : List α → Bool) (chunk : Nat) (a : LiveArray α) : LiveArray α :=
  if hchunk : 1 ≤ chunk then shrink fails (chunk / 2) (pass fails chunk hchunk a 0) else a
termination_by chunk

/-! ## What is kept -/

variable {fails : List α → Bool}

/-- Part of `a`, and a failure if `a` is one. -/
structure Smaller (fails : List α → Bool) (a b : LiveArray α) : Prop where
  sublist : b.toList.Sublist a.toList
  fails : fails a.toList = true → fails b.toList = true

theorem Smaller.refl (a : LiveArray α) : Smaller fails a a := ⟨.refl _, id⟩

theorem Smaller.trans {a b c : LiveArray α} (hab : Smaller fails a b) (hbc : Smaller fails b c) :
    Smaller fails a c :=
  ⟨hbc.sublist.trans hab.sublist, hbc.fails ∘ hab.fails⟩

theorem smaller_overwrite {a : LiveArray α} {trial : List α} (hsub : trial.Sublist a.toList)
    (hfails : fails trial = true) : Smaller fails a (a.overwrite trial) := by
  refine ⟨?_, fun _ => ?_⟩
  · rwa [LiveArray.toList_overwrite]
  · rwa [LiveArray.toList_overwrite]

theorem pass_smaller (chunk : Nat) (hchunk : 1 ≤ chunk) (a : LiveArray α) (start : Nat) :
    Smaller fails a (pass fails chunk hchunk a start) := by
  induction a, start using pass.induct fails chunk hchunk with
  | case1 a start h trial hfails ih =>
    rw [pass, dif_pos h, if_pos hfails]
    exact (smaller_overwrite (withoutChunk_sublist _ start chunk) hfails).trans ih
  | case2 a start h trial hpasses ih =>
    rw [pass, dif_pos h, if_neg hpasses]
    exact ih
  | case3 a start h =>
    rw [pass, dif_neg h]
    exact Smaller.refl a

/-- **Every input that is kept is part of the given one and fails**, if that one does. -/
theorem shrink_smaller (chunk : Nat) (a : LiveArray α) :
    Smaller fails a (shrink fails chunk a) := by
  induction chunk, a using shrink.induct fails with
  | case1 chunk a hchunk ih =>
    rw [shrink, dif_pos hchunk]
    exact (pass_smaller chunk hchunk a 0).trans ih
  | case2 chunk a hchunk =>
    rw [shrink, dif_neg hchunk]
    exact Smaller.refl a

/-! ## No entry is behind the end of the test -/

section local_test

/-! A test that goes through its input entry by entry may stop early, and then it has not seen the rest: `live` says
of a beginning that the test goes on behind it. An entry that the test does not get to is left out by the pass with
chunks of one entry. -/

variable {live : List α → Prop}

/-- Where the test has stopped, the rest is all the same to it. -/
def Stops (fails : List α → Bool) (live : List α → Prop) : Prop :=
  ∀ front back back', ¬ live front → fails (front ++ back) = fails (front ++ back')

theorem pass_live (hstops : Stops fails live) (a : LiveArray α) (start : Nat) (hfails : fails a.toList = true)
    (hlive : ∀ i < start, live (a.toList.take i)) :
    ∀ i < (pass fails 1 le_rfl a start).count, live ((pass fails 1 le_rfl a start).toList.take i) := by
  induction a, start using pass.induct fails 1 le_rfl with
  | case1 a start h trial htrial ih =>
    rw [pass, dif_pos h, if_pos htrial]
    refine ih (by rwa [LiveArray.toList_overwrite]) fun i hi => ?_
    -- The entries before `start` have not moved.
    have hsame : trial.take i = a.toList.take i := by
      have hlen : i ≤ (a.toList.take start).length := by
        rw [List.length_take, LiveArray.length_toList]
        omega
      show (withoutChunk a.toList start 1).take i = _
      rw [withoutChunk, List.take_append_of_le_length hlen, List.take_take, Nat.min_eq_left (Nat.le_of_lt hi)]
    rw [LiveArray.toList_overwrite, hsame]
    exact hlive i hi
  | case2 a start h trial hpasses ih =>
    rw [pass, dif_pos h, if_neg hpasses]
    refine ih hfails fun i hi => ?_
    rcases Nat.lt_succ_iff_lt_or_eq.mp hi with hi | rfl
    · exact hlive i hi
    · -- The trial without this entry passes, so the test gets to it.
      by_contra hdead
      have hsame := hstops _ (a.toList.drop (i + 1)) (a.toList.drop i) hdead
      rw [List.take_append_drop, hfails] at hsame
      exact hpasses hsame
  | case3 a start h =>
    rw [pass, dif_neg h]
    exact fun i hi => hlive i (by omega)

/-- **The test gets to every entry** of what is left in the end. -/
theorem shrink_live (hstops : Stops fails live) {chunk : Nat} (hchunk : 1 ≤ chunk) (a : LiveArray α)
    (hfails : fails a.toList = true) :
    ∀ i < (shrink fails chunk a).count, live ((shrink fails chunk a).toList.take i) := by
  induction chunk using Nat.strong_induction_on generalizing a with
  | _ chunk ih =>
    rw [shrink, dif_pos hchunk]
    by_cases hone : chunk = 1
    · subst hone
      rw [shrink, dif_neg (by decide)]
      exact pass_live hstops a 0 hfails fun i hi => absurd hi (Nat.not_lt_zero i)
    · exact ih (chunk / 2) (by omega) (by omega) _ ((pass_smaller chunk hchunk a 0).fails hfails)

end local_test

/-! ## When nothing is left out -/

/-- The chunks that are tried on an input that stays as it is: of a size that is `chunk` or one of its
halves, one after the other. -/
structure Tried (chunk : Nat) (l : List α) (size start : Nat) : Prop where
  halved : ∃ k, size = chunk / 2 ^ k
  pos : 1 ≤ size
  aligned : size ∣ start
  inside : start + size ≤ l.length

/-- No chunk can be left out. -/
def Irreducible (fails : List α → Bool) (chunk : Nat) (l : List α) : Prop :=
  ∀ size start, Tried chunk l size start → fails (withoutChunk l start size) = false

theorem Tried.half {chunk size start : Nat} {l : List α} (h : Tried (chunk / 2) l size start) :
    Tried chunk l size start := by
  obtain ⟨k, hk⟩ := h.halved
  refine ⟨⟨k + 1, ?_⟩, h.pos, h.aligned, h.inside⟩
  rw [hk, Nat.div_div_eq_div_mul, ← Nat.pow_succ']

/-- A chunk is of the full size, or is tried later. -/
theorem Tried.cases {chunk size start : Nat} {l : List α} (h : Tried chunk l size start) :
    size = chunk ∨ Tried (chunk / 2) l size start := by
  obtain ⟨k, hk⟩ := h.halved
  cases k with
  | zero => exact .inl (by simpa using hk)
  | succ k =>
    refine .inr ⟨⟨k, ?_⟩, h.pos, h.aligned, h.inside⟩
    rw [hk, Nat.div_div_eq_div_mul, ← Nat.pow_succ']

theorem Smaller.count_le {a b : LiveArray α} (h : Smaller fails a b) : b.count ≤ a.count := by
  have hlen := h.sublist.length_le
  rwa [LiveArray.length_toList, LiveArray.length_toList] at hlen

/-- A pass on which no trial fails. -/
theorem pass_of_passes {chunk : Nat} (hchunk : 1 ≤ chunk) (a : LiveArray α) (start : Nat)
    (h : ∀ i, start + i * chunk + chunk ≤ a.count →
      fails (withoutChunk a.toList (start + i * chunk) chunk) = false) :
    pass fails chunk hchunk a start = a := by
  induction a, start using pass.induct fails chunk hchunk with
  | case1 a start hin trial hfails ih =>
    have hpasses := h 0 (by simpa using hin)
    rw [Nat.zero_mul, Nat.add_zero] at hpasses
    rw [show fails trial = false from hpasses] at hfails
    exact absurd hfails (by simp)
  | case2 a start hin trial hpasses ih =>
    rw [pass, dif_pos hin, if_neg hpasses]
    refine ih fun i hi => ?_
    have hnext : start + chunk + i * chunk = start + (i + 1) * chunk := by ring
    rw [hnext] at hi ⊢
    exact h (i + 1) hi
  | case3 a start hin => rw [pass, dif_neg hin]

/-- A pass on which some trial fails. -/
theorem pass_count_lt {chunk : Nat} (hchunk : 1 ≤ chunk) (a : LiveArray α) (start i : Nat)
    (hin : start + i * chunk + chunk ≤ a.count)
    (hfails : fails (withoutChunk a.toList (start + i * chunk) chunk) = true) :
    (pass fails chunk hchunk a start).count < a.count := by
  induction a, start using pass.induct fails chunk hchunk generalizing i with
  | case1 a start hfits trial hfirst ih =>
    rw [pass, dif_pos hfits, if_pos hfirst]
    have hlen : (a.overwrite trial).count = a.count - chunk := by
      rw [LiveArray.count_overwrite, length_withoutChunk (by rwa [LiveArray.length_toList]),
        LiveArray.length_toList]
    calc (pass fails chunk hchunk (a.overwrite trial) start).count
        ≤ (a.overwrite trial).count := (pass_smaller chunk hchunk _ start).count_le
      _ < a.count := by omega
  | case2 a start hfits trial hpasses ih =>
    rw [pass, dif_pos hfits, if_neg hpasses]
    cases i with
    | zero =>
      rw [Nat.zero_mul, Nat.add_zero] at hfails
      exact absurd hfails hpasses
    | succ i =>
      have hnext : start + (i + 1) * chunk = start + chunk + i * chunk := by ring
      rw [hnext] at hin hfails
      exact ih i hin hfails
  | case3 a start hfits =>
    have hle : start ≤ start + i * chunk := Nat.le_add_right ..
    omega

/-- An irreducible input stays as it is, … -/
theorem shrink_of_irreducible {chunk : Nat} {a : LiveArray α} (h : Irreducible fails chunk a.toList) :
    shrink fails chunk a = a := by
  induction chunk using Nat.strong_induction_on with
  | _ chunk ih =>
    rw [shrink]
    split
    · rename_i hchunk
      have hpass : pass fails chunk hchunk a 0 = a := by
        refine pass_of_passes hchunk a 0 fun i hi => ?_
        rw [Nat.zero_add] at hi ⊢
        exact h chunk (i * chunk)
          ⟨⟨0, by simp⟩, hchunk, Dvd.intro_left i rfl, by rwa [LiveArray.length_toList]⟩
      rw [hpass]
      exact ih (chunk / 2) (by omega) fun size start ht => h size start ht.half
    · rfl

/-- … and any other loses a chunk. -/
theorem shrink_count_lt {chunk : Nat} {a : LiveArray α} (h : ¬ Irreducible fails chunk a.toList) :
    (shrink fails chunk a).count < a.count := by
  induction chunk using Nat.strong_induction_on with
  | _ chunk ih =>
    simp only [Irreducible, not_forall, Bool.not_eq_false] at h
    obtain ⟨size, start, htried, hfails⟩ := h
    have hpos : 1 ≤ chunk := by
      obtain ⟨k, hk⟩ := htried.halved
      exact htried.pos.trans (hk ▸ Nat.div_le_self ..)
    rw [shrink, dif_pos hpos]
    have hlater : (shrink fails (chunk / 2) (pass fails chunk hpos a 0)).count ≤
        (pass fails chunk hpos a 0).count := (shrink_smaller _ _).count_le
    by_cases hpass : ∃ i, i * chunk + chunk ≤ a.count ∧
        fails (withoutChunk a.toList (i * chunk) chunk) = true
    · -- The pass of this size leaves a chunk out.
      obtain ⟨i, hin, hone⟩ := hpass
      refine lt_of_le_of_lt hlater (pass_count_lt hpos a 0 i ?_ ?_)
      · rwa [Nat.zero_add]
      · rwa [Nat.zero_add]
    · have hsame : pass fails chunk hpos a 0 = a := by
        refine pass_of_passes hpos a 0 fun i hi => ?_
        rw [Nat.zero_add] at hi ⊢
        rw [← Bool.not_eq_true]
        exact fun hone => hpass ⟨i, hi, hone⟩
      rw [hsame]
      refine ih (chunk / 2) (by omega) fun hirr => ?_
      rcases htried.cases with rfl | hhalf
      · obtain ⟨i, rfl⟩ := htried.aligned
        rw [Nat.mul_comm] at hfails
        have hin := htried.inside
        rw [LiveArray.length_toList, Nat.mul_comm] at hin
        exact hpass ⟨i, hin, hfails⟩
      · rw [hirr size start hhalf] at hfails
        exact absurd hfails (by simp)

end DeltaDebug
