import Smash.Model.Analyze
import Smash.Proof.Runs

/-!
# What the post-hoc analysis finds

A caller resets the context, records a run, analyses it, and takes the backtrack points until there are none.
What he gets is read off the run (`analyze_backtracks`): the alternatives to its steps, the shallowest step
first, each once. Two capacities cut it short. Of the run the first `SMASH_MAX_DEPTH` steps are kept, and of
the alternatives the `SMASH_MAX_BACKTRACK` deepest (`analyze_exact`): the set fills from the end of the run, so
what is lost is what the caller would have come to first.
-/

set_option autoImplicit false

namespace Smash

variable {sc : Scenario} {w : World}

/-- The context after these records and the analysis. -/
def DporHistory.analysis (sc : Scenario) (w : World) (d : DporHistory) (run : List Recorded) : DporHistory :=
  (run.foldl DporHistory.record d.reset).analyze sc w

/-- The points at step `i`. -/
def pointsAt (sc : Scenario) (w : World) (executed : Recorded) (i : Nat) : List BacktrackPoint :=
  (sc.threadIds.filter (isAlternative sc w executed)).map (⟨i, ·⟩)

/-- The points of a run in the order in which the analysis finds them. -/
def foundPoints (sc : Scenario) (w : World) (run : List Recorded) : List BacktrackPoint :=
  run.zipIdx.reverse.flatMap fun p => pointsAt sc w p.1 p.2

/-! ## The loops -/

theorem record_history (d : DporHistory) (run : List Recorded) :
    (run.foldl DporHistory.record d).history = run.foldl (·.pushWithin smashMaxDepth ·) d.history ∧
      (run.foldl DporHistory.record d).backtrack = d.backtrack := by
  induction run generalizing d with
  | nil => exact ⟨rfl, rfl⟩
  | cons r run ih => exact ih (d.record r)

theorem analyzeEntry_eq (d : DporHistory) (i : Nat) : d.analyzeEntry sc w i =
    { d with
      backtrack := (pointsAt sc w (d.history.cell i) i).foldl (·.pushWithin smashMaxBacktrack ·)
        d.backtrack } := by
  unfold DporHistory.analyzeEntry pointsAt
  induction sc.threadIds generalizing d with
  | nil => rfl
  | cons t ts ih =>
    rw [List.foldl_cons]
    split
    · rename_i halt
      rw [ih, List.filter_cons_of_pos halt, List.map_cons, List.foldl_cons]
    · rename_i halt
      rw [ih, List.filter_cons_of_neg halt]

theorem analyzeEntries_eq (d : DporHistory) (is : List Nat) : is.foldl (DporHistory.analyzeEntry sc w) d =
    { d with
      backtrack := (is.flatMap fun i => pointsAt sc w (d.history.cell i) i).foldl
        (·.pushWithin smashMaxBacktrack ·) d.backtrack } := by
  induction is generalizing d with
  | nil => rfl
  | cons i is ih => rw [List.foldl_cons, ih, analyzeEntry_eq, List.flatMap_cons, List.foldl_append]

/-- The cells by their numbers. -/
theorem zipIdx_toList {α : Type} (a : LiveArray α) :
    a.toList.zipIdx = (List.range a.count).map fun i => (a.cell i, i) := by
  refine List.ext_getElem (by simp) fun i h₁ h₂ => ?_
  simp [LiveArray.toList]

/-- **What the analysis leaves in the set.** -/
theorem analysis_backtrack (d : DporHistory) (run : List Recorded) :
    (d.analysis sc w run).backtrack.toList =
      (foundPoints sc w (run.take smashMaxDepth)).take smashMaxBacktrack := by
  obtain ⟨hhistory, hbacktrack⟩ := record_history d.reset run
  have hkept : (run.foldl DporHistory.record d.reset).history.toList = run.take smashMaxDepth := by
    rw [hhistory, LiveArray.toList_foldl_pushWithin (Nat.zero_le _)]
    rfl
  have hempty : (run.foldl DporHistory.record d.reset).backtrack.count = 0 := by
    rw [hbacktrack]
    rfl
  unfold DporHistory.analysis DporHistory.analyze
  rw [analyzeEntries_eq]
  dsimp only
  rw [LiveArray.toList_foldl_pushWithin (by omega), LiveArray.toList_eq_nil.mpr hempty, List.nil_append,
    foundPoints, ← hkept, zipIdx_toList, ← List.map_reverse, List.flatMap_map]

theorem backtracks_eq (n : Nat) (d : DporHistory) : d.backtracks n = LiveArray.drain n d.backtrack := by
  induction n generalizing d with
  | zero => rfl
  | succ n ih =>
    rw [DporHistory.backtracks, LiveArray.drain, DporHistory.nextBacktrack]
    split_ifs with h
    · rfl
    · exact congrArg _ (ih _)

/-- **What a caller takes out.** -/
theorem analyze_backtracks (d : DporHistory) (run : List Recorded) :
    (d.analysis sc w run).backtracks smashMaxBacktrack =
      ((foundPoints sc w (run.take smashMaxDepth)).take smashMaxBacktrack).reverse := by
  have hle : (d.analysis sc w run).backtrack.count ≤ smashMaxBacktrack := by
    rw [← LiveArray.length_toList, analysis_backtrack, List.length_take]
    exact Nat.min_le_left ..
  rw [backtracks_eq, LiveArray.drain_eq hle, analysis_backtrack]

/-! ## The points themselves -/

/-- The point is an alternative to a step of the run. -/
def AlternativeAt (sc : Scenario) (w : World) (run : List Recorded) (p : BacktrackPoint) : Prop :=
  ∃ executed, run[p.depth]? = some executed ∧ sc.IsThread p.tid ∧ isAlternative sc w executed p.tid = true

/-- The order in which they are given back: the shallower step first, and of one step the last thread. -/
def BacktrackPoint.Before (p q : BacktrackPoint) : Prop :=
  p.depth < q.depth ∨ (p.depth = q.depth ∧ q.tid < p.tid)

theorem mem_foundPoints {run : List Recorded} {p : BacktrackPoint} :
    p ∈ foundPoints sc w run ↔ AlternativeAt sc w run p := by
  obtain ⟨depth, tid⟩ := p
  simp only [foundPoints, pointsAt, List.mem_flatMap, List.mem_reverse, List.mem_map, List.mem_filter,
    Scenario.mem_threadIds, AlternativeAt, Prod.exists, List.mem_zipIdx_iff_getElem?]
  constructor
  · rintro ⟨executed, i, hat, t, ⟨ht, halt⟩, heq⟩
    cases heq
    exact ⟨executed, hat, ht, halt⟩
  · rintro ⟨executed, hat, ht, halt⟩
    exact ⟨executed, depth, hat, tid, ⟨ht, halt⟩, rfl⟩

theorem sorted_pointsAt (executed : Recorded) (i : Nat) :
    (pointsAt sc w executed i).Pairwise fun p q => q.Before p := by
  refine List.pairwise_map.mpr ((sorted_upTo sc.threadCount).filter _ |>.imp fun h => ?_)
  exact .inr ⟨rfl, h⟩

/-- They are found the deepest step first. -/
theorem sorted_foundPoints (run : List Recorded) :
    (foundPoints sc w run).Pairwise fun p q => q.Before p := by
  unfold foundPoints
  rw [List.flatMap_def, List.pairwise_flatten]
  constructor
  · intro ps hps
    obtain ⟨x, _, rfl⟩ := List.mem_map.mp hps
    exact sorted_pointsAt ..
  · refine List.pairwise_map.mpr (List.pairwise_reverse.mpr ?_)
    have hnumbers : run.zipIdx.Pairwise fun x y => x.2 < y.2 := by
      refine List.pairwise_map.mp ?_
      rw [List.zipIdx_map_snd]
      exact List.pairwise_lt_range'
    refine hnumbers.imp fun h p hp q hq => ?_
    obtain ⟨_, _, rfl⟩ := List.mem_map.mp hp
    obtain ⟨_, _, rfl⟩ := List.mem_map.mp hq
    exact .inl h

/-- **The points are exactly the alternatives**, or the deepest of them. -/
theorem analyze_exact (sc : Scenario) (w : World) (d : DporHistory) (run : List Recorded) :
    ((d.analysis sc w run).backtracks smashMaxBacktrack).Pairwise BacktrackPoint.Before ∧
      (∀ p ∈ (d.analysis sc w run).backtracks smashMaxBacktrack,
        AlternativeAt sc w (run.take smashMaxDepth) p) ∧
      ∀ p, AlternativeAt sc w (run.take smashMaxDepth) p →
        p ∈ (d.analysis sc w run).backtracks smashMaxBacktrack ∨
          (((d.analysis sc w run).backtracks smashMaxBacktrack).length = smashMaxBacktrack ∧
            ∀ q ∈ (d.analysis sc w run).backtracks smashMaxBacktrack, p.Before q) := by
  rw [analyze_backtracks]
  have hsorted : (foundPoints sc w (run.take smashMaxDepth)).Pairwise fun p q => q.Before p :=
    sorted_foundPoints _
  refine ⟨List.pairwise_reverse.mpr (hsorted.sublist (List.take_sublist ..)), fun p hp => ?_, fun p hp => ?_⟩
  · exact mem_foundPoints.mp (List.mem_of_mem_take (List.mem_reverse.mp hp))
  · rw [← List.take_append_drop smashMaxBacktrack (foundPoints sc w (run.take smashMaxDepth)),
      List.pairwise_append] at hsorted
    have hmem := mem_foundPoints.mpr hp
    rw [← List.take_append_drop smashMaxBacktrack (foundPoints sc w (run.take smashMaxDepth)),
      List.mem_append] at hmem
    rcases hmem with hkept | hlost
    · exact .inl (List.mem_reverse.mpr hkept)
    · refine .inr ⟨?_, fun q hq => hsorted.2.2 q (List.mem_reverse.mp hq) p hlost⟩
      have hmore : smashMaxBacktrack < (foundPoints sc w (run.take smashMaxDepth)).length := by
        have := List.length_pos_of_mem hlost
        rw [List.length_drop] at this
        omega
      rw [List.length_reverse, List.length_take]
      omega

end Smash
