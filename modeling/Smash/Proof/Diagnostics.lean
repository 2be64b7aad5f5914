import Mathlib.Tactic.IntervalCases
import Smash.Model.Diagnostics
import Smash.Proof.CircularWait

/-!
# The report of a deadlock fits its buffer

`smash_check_no_deadlock` guards every `snprintf` behind the first, so it stays inside a buffer of any size and
leaves the beginning of its report there (`checkNoDeadlock_writes`). In `smash_check_circular_wait` the last
`snprintf` is not guarded: when the arrows have passed the end of the buffer its size wraps around. With the 256
characters that `explore_dfs` has, the arrows of sixteen threads do not get there, and the whole message fits
(`deadlock_report`).
-/

set_option autoImplicit false

namespace Smash

open CString

variable {sc : Scenario}

/-! ## `smash_check_no_deadlock` -/

theorem nul_notMem_deadlockLine (w : World) : nul ∉ (deadlockLine sc w).toList := by
  unfold deadlockLine
  simp only [String.toList_append, List.mem_append, not_or]
  exact ⟨⟨⟨⟨by decide, notMem_nat rfl _⟩, by decide⟩, notMem_int rfl (by decide) _⟩, by decide⟩

/-- The whole report. -/
def deadlockText (sc : Scenario) (w : World) : List Char :=
  (deadlockLine sc w).toList ++
    ((sc.threadIds.filter fun i => (w.threads i).blocked).map fun i => (blockedLine w i).toList).flatten

/-- The loop with its `break` is the loop with its guard. -/
theorem reportBlocked_eq (w : World) {len off : Nat} (hoff : off < len) (is : List Int) (msg : Memory) :
    reportBlocked w len is off msg =
      (append len ((is.filter fun i => (w.threads i).blocked).map fun i => (blockedLine w i).toList)
        off msg).1 := by
  induction is generalizing off msg with
  | nil => rfl
  | cons i is ih =>
    rw [reportBlocked]
    cases hb : (w.threads i).blocked with
    | false =>
      rw [if_pos rfl, ih hoff, List.filter_cons_of_neg (by simp [hb])]
    | true =>
      rw [if_neg (by simp), List.filter_cons_of_pos (by simp [hb]), List.map_cons, append, if_pos hoff]
      dsimp only
      split
      · rename_i hend
        cases (is.filter fun i => (w.threads i).blocked).map fun i => (blockedLine w i).toList with
        | nil => rfl
        | cons t ts => rw [append, if_neg (by omega)]
      · exact ih (by omega) _

/-- After the first line `strlen` finds its end, or that of the buffer. -/
theorem deadlockLine_filled (w : World) {len : Nat} (hlen : 0 < len) (msg : Memory) :
    Filled len (snprintf msg 0 len (deadlockLine sc w).toList)
        (strlen (snprintf msg 0 len (deadlockLine sc w).toList) len) (deadlockLine sc w).toList ∧
      strlen (snprintf msg 0 len (deadlockLine sc w).toList) len < len := by
  have hholds := (filled_first hlen msg (deadlockLine sc w).toList).holds
  have hlength : ((deadlockLine sc w).toList.take (len - 1)).length < len := by
    rw [List.length_take]
    omega
  have hend := hholds.strlen_eq (fun h => nul_notMem_deadlockLine w (List.mem_of_mem_take h)) hlength
  rw [hend]
  exact ⟨⟨hholds, fun _ => rfl, fun hfull => by omega⟩, hlength⟩

theorem checkNoDeadlock_eq_false_iff {w : World} {len : Nat} {msg : Memory} :
    (checkNoDeadlock sc w len msg).2 = false ↔
      allDone sc w = false ∧ collectRunnable sc w smashMaxThreads = [] := by
  unfold checkNoDeadlock
  rw [← List.length_eq_zero_iff]
  split
  · simp [*]
  · split
    · simp only [Bool.true_eq_false, false_iff]
      omega
    · simp_all

/-- **What `smash_check_no_deadlock` writes**, into a buffer of any size: the beginning of its report. -/
theorem checkNoDeadlock_writes {w : World} {len : Nat} (hlen : 0 < len) (msg : Memory)
    (hfalse : (checkNoDeadlock sc w len msg).2 = false) :
    Holds (checkNoDeadlock sc w len msg).1 ((deadlockText sc w).take (len - 1)) ∧
      Within len msg (checkNoDeadlock sc w len msg).1 := by
  obtain ⟨hdone, hstuck⟩ := checkNoDeadlock_eq_false_iff.mp hfalse
  obtain ⟨hfirst, hoff⟩ := deadlockLine_filled w hlen msg
  unfold checkNoDeadlock
  rw [if_neg (by simp [hdone]), if_neg (by simp [hstuck])]
  dsimp only
  rw [reportBlocked_eq w hoff]
  obtain ⟨hlast, hwithin⟩ := append_filled hfirst
    ((sc.threadIds.filter fun i => (w.threads i).blocked).map fun i => (blockedLine w i).toList)
  exact ⟨hlast.holds, (snprintf_within msg (by omega) _).trans hwithin⟩

/-! ## `smash_check_circular_wait` -/

/-- The whole message, as pieces. -/
def cycleText (path : List Int) (next : Int) : List Char :=
  cycleHead.toList ++ (path.map fun t => (cycleArrow t).toList).flatten ++ (cycleEnd path next).toList

/-- It is that of the verdict. -/
theorem checkCircularWait_toList {w : World} :
    (checkCircularWait sc w).map String.toList =
      match circularWait sc w with
      | .cycle path next => some (cycleText path next)
      | .clear _ | .stuck => none := by
  cases hsearch : circularWait sc w with
  | cycle path next =>
    have hsome : checkCircularWait sc w
        = some (cycleHead ++ String.join (path.map cycleArrow) ++ cycleEnd path next) := by
      unfold checkCircularWait
      rw [hsearch]
      rfl
    rw [hsome, Option.map_some, String.toList_append, String.toList_append, String.toList_join, List.flatMap_def,
      List.map_map]
    rfl
  | clear | stuck =>
    unfold checkCircularWait
    rw [hsearch]
    rfl

/-- **With room for the message the whole message is there.** -/
theorem writeCycle_writes {len : Nat} {path : List Int} {next : Int} (msg : Memory)
    (hroom : (cycleText path next).length < len) :
    Holds (writeCycle len path next msg) (cycleText path next) ∧
      Within len msg (writeCycle len path next msg) := by
  have hlength := hroom
  unfold cycleText at hlength
  rw [List.length_append, List.length_append] at hlength
  have hfirst : Filled len (snprintf msg 0 len cycleHead.toList) cycleHead.toList.length cycleHead.toList :=
    filled_first (by omega) msg _
  obtain ⟨hfilled, hwithin⟩ := append_filled hfirst (path.map fun t => (cycleArrow t).toList)
  have hend : (append len (path.map fun t => (cycleArrow t).toList) cycleHead.toList.length
      (snprintf msg 0 len cycleHead.toList)).2 < len := by
    rw [append_off _ (by omega)]
    omega
  have hsize : ∀ off, off < len → sizeLeft len off = len - off := fun off hoff => if_pos (by omega)
  have hlast := (hfilled.snprintf hend (cycleEnd path next).toList).holds
  rw [List.take_of_length_le (by change (cycleText path next).length ≤ len - 1; omega)] at hlast
  unfold writeCycle
  dsimp only
  rw [hsize _ hend]
  exact ⟨hlast, ((snprintf_within msg (by omega) _).trans hwithin).trans (snprintf_within _ (by omega) _)⟩

/-- When the arrows have passed the end of a smaller buffer, the last text goes where they have got to. -/
theorem writeCycle_overruns {len off : Nat} {path : List Int} {next : Int} {msg : Memory}
    (hoff : (append len (path.map fun t => (cycleArrow t).toList) cycleHead.toList.length
      (snprintf msg 0 len cycleHead.toList)).2 = off) (hpast : len < off) (hint : off < 2 ^ 31) :
    writeCycle len path next msg off = 'T' := by
  have hsize : sizeLeft len off = 0x10000000000000000 - (off - len) := if_neg (by omega)
  have htext : (cycleEnd path next).toList = 'T' :: (cycleEnd path next).toList.tail := by
    simp only [cycleEnd, String.toList_append]
    rfl
  unfold writeCycle
  rw [hoff, hsize]
  unfold snprintf
  rw [htext, if_neg (by omega), if_pos (by rw [List.length_cons]; omega), Nat.sub_self]
  rfl

/-! ## The lengths -/

theorem toList_thread_length {t : Int} (h0 : 0 ≤ t) (h : t < 16) : (toString t).toList.length ≤ 2 := by
  interval_cases t <;> decide

theorem cycleArrow_length {t : Int} (h0 : 0 ≤ t) (h : t < 16) : (cycleArrow t).toList.length ≤ 7 := by
  have hthread := toList_thread_length h0 h
  have hT : (toString "T").toList.length = 1 := rfl
  have harrow : (toString " -> ").toList.length = 4 := rfl
  simp only [cycleArrow, String.toList_append, List.length_append]
  omega

theorem cycleArrows_length {path : List Int} (h : ∀ t ∈ path, 0 ≤ t ∧ t < 16) :
    ((path.map fun t => (cycleArrow t).toList).flatten).length ≤ 7 * path.length := by
  induction path with
  | nil => exact Nat.le_refl 0
  | cons t path ih =>
    have harrow := cycleArrow_length (h t List.mem_cons_self).1 (h t List.mem_cons_self).2
    have hrest := ih fun u hu => h u (List.mem_cons_of_mem _ hu)
    rw [List.map_cons, List.flatten_cons, List.length_append, List.length_cons]
    omega

theorem cycleEnd_length {path : List Int} {next : Int} (h : ∀ t ∈ path, 0 ≤ t ∧ t < 16)
    (hnext : next ∈ path) : (cycleEnd path next).toList.length ≤ 19 := by
  obtain ⟨t, path, rfl⟩ := List.exists_cons_of_ne_nil (List.ne_nil_of_mem hnext)
  have hfirst := h t List.mem_cons_self
  have hnext := h next hnext
  have h₁ := toList_thread_length hfirst.1 hfirst.2
  have h₂ := toList_thread_length hnext.1 hnext.2
  unfold cycleEnd
  rw [List.headD_cons]
  simp only [String.toList_append, List.length_append]
  have hT : (toString "T").toList.length = 1 := rfl
  have hon : (toString " (blocks on T").toList.length = 13 := rfl
  have hclose : (toString ")").toList.length = 1 := rfl
  omega

/-- **Every message of a circular wait fits** the 256 characters. -/
theorem cycleText_length (hsize : sc.threadCount ≤ smashMaxThreads) {w : World} {path : List Int} {next : Int}
    (h : circularWait sc w = .cycle path next) : (cycleText path next).length < 256 := by
  obtain ⟨hlasso, hsub⟩ := CycleSearch.search_lasso h
  have hlength := CycleSearch.search_path_length_le h
  have hthread : ∀ t ∈ path, 0 ≤ t ∧ t < 16 := fun t ht =>
    have hmem := Scenario.mem_threadIds.mp (hsub ht)
    ⟨hmem.1, Int.lt_of_lt_of_le hmem.2 hsize⟩
  have hpath : path.length ≤ 16 := by
    rw [Scenario.threadIds, length_upTo] at hlength
    have : sc.threadCount ≤ 16 := hsize
    omega
  have harrows := cycleArrows_length hthread
  have hend := cycleEnd_length hthread hlasso.mem
  unfold cycleText
  rw [List.length_append, List.length_append]
  have hhead : cycleHead.toList.length = 26 := rfl
  omega

/-- **The report of a deadlock.** In every state without a runnable thread, whatever the stack held, `msg` ends
with the whole cycle that `smash_check_circular_wait` finds; when it finds none, with the first 255 characters of
the list of the blocked threads. No cell behind `msg` is written. -/
theorem deadlock_report (hsize : sc.threadCount ≤ smashMaxThreads) {w : World} (hdone : allDone sc w = false)
    (hstuck : collectRunnable sc w smashMaxThreads = []) (msg : Memory) :
    Holds (deadlockReport sc w msg)
        (((checkCircularWait sc w).map String.toList).getD ((deadlockText sc w).take 255)) ∧
      Within 256 msg (deadlockReport sc w msg) := by
  rw [checkCircularWait_toList]
  unfold deadlockReport writeCircularWait
  have hfalse : (checkNoDeadlock sc w 256 msg).2 = false := checkNoDeadlock_eq_false_iff.mpr ⟨hdone, hstuck⟩
  cases hsearch : circularWait sc w with
  | cycle path next => exact writeCycle_writes msg (cycleText_length hsize hsearch)
  | clear | stuck =>
    have hwrites := checkNoDeadlock_writes (by omega) msg hfalse
    simp only [Option.getD_none, if_true]
    exact hwrites

theorem deadlock_report_abba :
    let w := (startWorld abbaDeadlock).calls abbaDeadlock [0, 1, 0, 1]
    Holds (deadlockReport abbaDeadlock w fun _ => 'x')
        (((checkCircularWait abbaDeadlock w).map String.toList).getD ((deadlockText abbaDeadlock w).take 255)) ∧
      Within 256 (fun _ => 'x') (deadlockReport abbaDeadlock w fun _ => 'x') :=
  deadlock_report (by decide) (by decide +kernel) (by decide +kernel) _

end Smash
