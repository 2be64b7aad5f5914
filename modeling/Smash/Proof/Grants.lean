import Smash.Proof.Edits

/-!
# Who is woken

An unlock or a signal wakes the first waiter of maximal priority in the wait queue. The queue is an array
from which a waiter is taken out by moving the last one into its place, so it is not the line in which the
waiters blocked. `historySystem` keeps that line next to the state. Queue and line agree until a grant takes
out a waiter with two or more behind it (`InLine`); as long as they agree, the thread woken is the one that
has been blocked longest of those of its priority (`grants_first`).
-/

set_option autoImplicit false

namespace Smash

variable {sc : Scenario}

/-! ## The history of a run -/

/-- `t` is blocked on `r`. -/
def World.waitsOn (w : World) (t r : Int) : Bool :=
  (w.threads t).blocked && (w.threads t).blockedOn = r

/-- The line for `r` after a step for `tid`: who no longer waits leaves it, and `tid` joins it at the end if
it now waits. -/
def nextLine (w w' : World) (tid r : Int) (line : List Int) : List Int :=
  line.filter (fun t => w'.waitsOn t r) ++
    if w'.waitsOn tid r && !w.waitsOn tid r then [tid] else []

/-- The step took a waiter out of the queue of `r` that had two or more behind it. -/
def takenFromMiddle (w w' : World) (r : Int) : Bool :=
  (List.range (w.resources r).waiters.count).any fun i =>
    i + 2 < (w.resources r).waiters.count && !w'.waitsOn ((w.resources r).waiters.cell i) r

/-- A state, who waits for each resource in the order in which they blocked, and whether a waiter has been
taken from the middle of its queue since fewer than two threads waited for it. -/
structure History where
  world : World
  line : Int → List Int
  mixed : Int → Bool

/-- The history after a call for `tid`. -/
def History.next (sc : Scenario) (h : History) (tid : Int) : History where
  world := (h.world.executeStep sc tid).world
  line r := nextLine h.world (h.world.executeStep sc tid).world tid r (h.line r)
  mixed r := decide (1 < ((h.world.executeStep sc tid).world.resources r).waiters.count) &&
    (h.mixed r || takenFromMiddle h.world (h.world.executeStep sc tid).world r)

/-- The calls of `smash_execute_step`, with their history. -/
def historySystem (sc : Scenario) : TransitionSystem History Int where
  init h := (callSystem sc).init h.world ∧ h.line = (fun _ => []) ∧ h.mixed = fun _ => false
  step h tid h' := sc.IsThread tid ∧ (h.world.executeStep sc tid).fault = none ∧ h' = h.next sc tid

theorem history_call {h h' : History} {tid : Int} (hst : (historySystem sc).step h tid h') :
    (callSystem sc).step h.world tid h'.world := by
  obtain ⟨htid, hok, rfl⟩ := hst
  exact ⟨htid, hok, rfl⟩

theorem history_world {h : History} (hh : (historySystem sc).Reach h) :
    (callSystem sc).Reach h.world := by
  induction hh with
  | init hi => exact .init hi.1
  | step _ hst ih => exact .step ih (history_call hst)

/-- The READY thread `tid` unlocks the mutex `r` or signals the semaphore `r`, and `u` wakes up. -/
structure Grant (sc : Scenario) (w w' : World) (tid r u : Int) : Prop where
  ready : (w.threads tid).state = .ready
  action : ∃ a, sc.actionAt tid (w.threads tid).pc = some a ∧
    (a.type = .mutexUnlock ∨ a.type = .semSignal) ∧ a.resourceId = r
  thread : sc.IsThread u
  asleep : (w.threads u).blocked = true
  woken : (w'.threads u).state = .ready

/-! ## What a step does to a queue -/

/-- What the queue of `s` may be after a step for `tid`. -/
inductive QueueMove (w : World) (tid s : Int) : LiveArray Int → Prop
  | keep : QueueMove w tid s (w.resources s).waiters
  | join : QueueMove w tid s ((w.resources s).waiters.push tid)
  | grant : 0 < (w.resources s).waiters.count →
      QueueMove w tid s ((w.resources s).waiters.swapRemove (w.bestWaiter s))

theorem Act.queueMove {tid : Int} {a : Action} {w w' : World} (hact : Act sc tid a w w')
    (hinv : CoreInv sc w) (hready : (w.threads tid).state = .ready) (hcore : a.type.core = true)
    (hop : ∀ type, a.type.operand = some type → sc.IsResource a.resourceId) (s : Int) :
    QueueMove w tid s (w'.resources s).waiters := by
  by_cases hs : s = a.resourceId
  · subst hs
    cases hact with
    | bookkeep | exit => exact .keep
    | lifecycle | acquire | take | signal =>
      simp only [World.advance_resources, World.modThread_resources, World.modResource_self]
      exact .keep
    | blockMutex =>
      rw [World.arm_resources, boost_resources, World.enqueue_waiters, if_pos rfl]
      exact .join
    | blockSem =>
      rw [World.arm_resources, World.enqueue_waiters, if_pos rfl]
      exact .join
    | grant _ hlive =>
      rw [World.advance_resources, World.grantSem, World.modThread_resources,
        World.waiterRemove_waiters, if_pos rfl]
      exact .grant hlive
    | unlock hk =>
      have hr := hop .mutex (by rw [hk]; rfl)
      by_cases hlive : 0 < ((lowered sc w tid a.resourceId).resources a.resourceId).waiters.count
      · rw [handOver_of_waiters hlive, World.advance_resources, World.modThread_resources,
          World.modResource_self, bestWaiter_lowered hinv hr hready]
        show QueueMove w tid a.resourceId
          (((lowered sc w tid a.resourceId).waiterRemove a.resourceId _).resources _).waiters
        rw [World.waiterRemove_waiters, if_pos rfl]
        exact .grant hlive
      · rw [handOver_of_empty hlive, World.advance_resources, World.modResource_self]
        exact .keep
    | condWait _ hk | condSignal hk | condLost hk | condBroadcast hk | mailWake hk =>
      rw [hk] at hcore
      exact absurd hcore (by decide)
    | mail hk | mailBlock hk =>
      rw [ActionType.mails_of_core hcore] at hk
      exact absurd hk (by decide)
  · rw [hact.resource_of_ne hcore hs]
    exact .keep

/-- So does a call. -/
theorem queueMove_of_step (hc : sc.Core) {w w' : World} (hw : (callSystem sc).Reach w) {tid : Int}
    (hst : (callSystem sc).step w tid w') (s : Int) : QueueMove w tid s (w'.resources s).waiters := by
  obtain ⟨htid, hok, rfl⟩ := hst
  have hinv := core_reach hc hw
  have hmove := executeStep_move hok
  rw [hinv.tick_eq] at hmove
  generalize (w.executeStep sc tid).world = w' at hmove ⊢
  cases hmove with
  | idle => exact .keep
  | finish => exact .keep
  | act hready hat _ hact =>
    exact hact.queueMove hinv hready (hc.core tid htid _ _ hat)
      (fun type htype => (hc.operand tid htid _ _ hat type htype).1) s

/-! ## Queue and line -/

/-- The queue holds who is in the line, in the same order unless it is mixed up. -/
structure InLine (queue : LiveArray Int) (line : List Int) (mixed : Bool) : Prop where
  perm : line.Perm queue.toList
  order : mixed = false → queue.toList = line

theorem InLine.of_short {queue : LiveArray Int} {line : List Int} {mixed : Bool}
    (hperm : line.Perm queue.toList) (horder : 1 < queue.count → mixed = false → queue.toList = line) :
    InLine queue line mixed := by
  refine ⟨hperm, fun hmixed => ?_⟩
  by_cases hshort : 1 < queue.count
  · exact horder hshort hmixed
  · have hlen : queue.toList.length ≤ 1 := by
      rw [LiveArray.length_toList]
      omega
    match hq : queue.toList, hlen with
    | [], _ => rw [hq] at hperm; exact hperm.eq_nil.symm
    | [x], _ => rw [hq] at hperm; exact (List.perm_singleton.mp hperm).symm

theorem waitsOn_iff {w : World} (hinv : CoreInv sc w) {t r : Int} (ht : sc.IsThread t)
    (hr : sc.IsResource r) : w.waitsOn t r = true ↔ t ∈ (w.resources r).waiters.toList := by
  rw [hinv.mem_waiters hr, World.waitsOn, Bool.and_eq_true, decide_eq_true_eq]
  exact ⟨fun h => ⟨ht, h⟩, fun h => h.2⟩

theorem waitsOn_eq_false {w : World} (hinv : CoreInv sc w) {t r : Int} (ht : sc.IsThread t)
    (hr : sc.IsResource r) (h : t ∉ (w.resources r).waiters.toList) : w.waitsOn t r = false := by
  rw [Bool.eq_false_iff, ne_eq, waitsOn_iff hinv ht hr]
  exact h

/-- The line after a step, in terms of the queues. -/
theorem nextLine_eq {w w' : World} (hinv : CoreInv sc w) (hinv' : CoreInv sc w') {tid r : Int}
    (htid : sc.IsThread tid) (hr : sc.IsResource r) {line : List Int}
    (hperm : line.Perm (w.resources r).waiters.toList) :
    nextLine w w' tid r line = line.filter (· ∈ (w'.resources r).waiters.toList) ++
      if tid ∈ (w'.resources r).waiters.toList ∧ tid ∉ (w.resources r).waiters.toList then [tid]
      else [] := by
  unfold nextLine
  congr 1
  · refine List.filter_congr fun t ht => ?_
    have hthread := ((hinv.mem_waiters hr).mp (hperm.mem_iff.mp ht)).1
    rw [Bool.eq_iff_iff, waitsOn_iff hinv' hthread hr, decide_eq_true_eq]
  · have hcond : (w'.waitsOn tid r && !w.waitsOn tid r) = true ↔
        tid ∈ (w'.resources r).waiters.toList ∧ tid ∉ (w.resources r).waiters.toList := by
      rw [Bool.and_eq_true, Bool.not_eq_true', waitsOn_iff hinv' htid hr, Bool.eq_false_iff, ne_eq,
        waitsOn_iff hinv htid hr]
    by_cases h : tid ∈ (w'.resources r).waiters.toList ∧ tid ∉ (w.resources r).waiters.toList
    · rw [if_pos h, if_pos (hcond.mpr h)]
    · rw [if_neg h, if_neg fun hb => h (hcond.mp hb)]

/-- Nobody is taken from the middle: who leaves has at most one behind it. -/
theorem le_of_not_taken {w w' : World} (hinv : CoreInv sc w) (hinv' : CoreInv sc w') {r : Int}
    (hr : sc.IsResource r) (h : takenFromMiddle w w' r = false) {i : Nat}
    (hi : i < (w.resources r).waiters.count)
    (hout : (w.resources r).waiters.cell i ∉ (w'.resources r).waiters.toList) :
    (w.resources r).waiters.count ≤ i + 2 := by
  have hgone := waitsOn_eq_false hinv' ((hinv.mem_waiters hr).mp (LiveArray.cell_mem hi)).1 hr hout
  by_contra hlong
  refine absurd h ?_
  rw [takenFromMiddle, List.any_eq_true.mpr]
  · decide
  · exact ⟨i, List.mem_range.mpr hi, by simp [hgone]; omega⟩

/-- A step keeps queue and line together. -/
theorem InLine.step {w w' : World} (hinv : CoreInv sc w) (hinv' : CoreInv sc w') {tid r : Int}
    (htid : sc.IsThread tid) (hr : sc.IsResource r) {line : List Int} {mixed : Bool}
    (h : InLine (w.resources r).waiters line mixed)
    (hmove : QueueMove w tid r (w'.resources r).waiters) :
    InLine (w'.resources r).waiters (nextLine w w' tid r line)
      (decide (1 < (w'.resources r).waiters.count) && (mixed || takenFromMiddle w w' r)) := by
  have hnodup := hinv'.nodup_waiters hr
  have hbefore := hinv.nodup_waiters hr
  have hend := fun htaken i => le_of_not_taken hinv hinv' hr htaken (i := i)
  have hmixed : 1 < (w'.resources r).waiters.count →
      (decide (1 < (w'.resources r).waiters.count) && (mixed || takenFromMiddle w w' r)) = false →
      mixed = false ∧ takenFromMiddle w w' r = false := by
    intro hlong hfalse
    rwa [decide_eq_true hlong, Bool.true_and, Bool.or_eq_false_iff] at hfalse
  have hstays : ∀ queue' : LiveArray Int, (∀ t ∈ line, t ∈ queue'.toList) →
      line.filter (· ∈ queue'.toList) = line := fun queue' hall =>
    List.filter_eq_self.mpr fun t ht => decide_eq_true (hall t ht)
  rw [nextLine_eq hinv hinv' htid hr h.perm]
  generalize (w'.resources r).waiters = queue' at hmove hnodup hmixed hend ⊢
  cases hmove with
  | keep =>
    rw [hstays _ fun t ht => h.perm.mem_iff.mp ht, if_neg fun hin => hin.2 hin.1, List.append_nil]
    exact .of_short h.perm fun hlong hfalse => h.order (hmixed hlong hfalse).1
  | join =>
    rw [LiveArray.toList_push] at hnodup
    have hnew : tid ∉ (w.resources r).waiters.toList := fun hin =>
      (List.nodup_append.mp hnodup).2.2 tid hin tid (List.mem_singleton.mpr rfl) rfl
    rw [hstays _ fun t ht => by
        rw [LiveArray.toList_push]
        exact List.mem_append_left _ (h.perm.mem_iff.mp ht),
      if_pos ⟨by simp, hnew⟩]
    refine .of_short ?_ fun hlong hfalse => ?_
    · rw [LiveArray.toList_push]
      exact h.perm.append_right [tid]
    · rw [LiveArray.toList_push, h.order (hmixed hlong hfalse).1]
  | grant hlive =>
    -- The best waiter leaves the line, wherever it stands in it.
    have hbest := bestWaiter_lt hlive
    generalize w.bestWaiter r = best at hbest hnodup hmixed hend ⊢
    have hperm := LiveArray.swapRemove_perm hbest
    generalize hu : (w.resources r).waiters.cell best = u at hperm
    have hout : u ∉ ((w.resources r).waiters.swapRemove best).toList :=
      (List.nodup_cons.mp (hperm.nodup_iff.mpr hbefore)).1
    have hfilter : line.filter (· ∈ ((w.resources r).waiters.swapRemove best).toList)
        = line.erase u := by
      rw [(h.perm.nodup_iff.mpr hbefore).erase_eq_filter]
      refine List.filter_congr fun t ht => ?_
      have hmem := hperm.mem_iff.mpr (h.perm.mem_iff.mp ht)
      by_cases htu : t = u
      · subst htu
        simp [hout]
      · simp [htu, (List.mem_cons.mp hmem).resolve_left htu]
    have hkept : ((w.resources r).waiters.toList.erase u).Perm
        ((w.resources r).waiters.swapRemove best).toList := by
      have herase := (hperm.symm.erase u)
      rwa [List.erase_cons_head] at herase
    rw [hfilter, if_neg fun hin => hin.2 (LiveArray.mem_of_mem_swapRemove hbest hin.1), List.append_nil]
    refine .of_short ((h.perm.erase u).trans hkept) fun hlong hfalse => ?_
    obtain ⟨hordered, htaken⟩ := hmixed hlong hfalse
    rw [LiveArray.toList_swapRemove_of_le hbest (hend htaken best hbest (hu ▸ hout)),
      ← h.order hordered, ← hu]
    have hlength : best < (w.resources r).waiters.toList.length := by rwa [LiveArray.length_toList]
    have hget : (w.resources r).waiters.cell best = (w.resources r).waiters.toList[best] := by
      simp [LiveArray.toList]
    rw [hget, hbefore.erase_getElem]

/-- **Queue and line hold the same threads**, in the same order unless the queue is mixed up. -/
theorem history_inLine (hc : sc.Core) {h : History} (hh : (historySystem sc).Reach h) {r : Int}
    (hr : sc.IsResource r) : InLine (h.world.resources r).waiters (h.line r) (h.mixed r) := by
  induction hh with
  | @init h hi =>
    obtain ⟨⟨before, hbefore⟩, hline, _⟩ := hi
    have hempty : (h.world.resources r).waiters.toList = [] := by
      rw [hbefore]
      simp [World.reset, hr, Resource.reset]
    rw [hline]
    exact ⟨by rw [hempty], fun _ => hempty⟩
  | @step h h' tid hh hst ih =>
    have hw := history_world hh
    have hcall := history_call hst
    obtain ⟨htid, _, rfl⟩ := hst
    exact ih.step (core_reach hc hw) (core_reach hc (.step hw hcall)) htid hr
      (queueMove_of_step hc hw hcall r)

/-! ## Who is woken -/

/-- The first of maximal priority: nobody before `u` in `queue` has its priority, and nobody in it has
more. -/
def FirstOfBest (w : World) (queue : List Int) (u : Int) : Prop :=
  (∀ v ∈ queue, (w.threads v).priority ≤ (w.threads u).priority) ∧
    queue.find? (fun v => (w.threads v).priority = (w.threads u).priority) = some u

theorem firstOfBest_bestWaiter {w : World} {r : Int} (hlive : 0 < (w.resources r).waiters.count) :
    FirstOfBest w (w.resources r).waiters.toList
      ((w.resources r).waiters.cell (w.bestWaiter r)) := by
  have hbest := bestWaiter_lt hlive
  refine ⟨fun v hv => ?_, ?_⟩
  · obtain ⟨i, hi, rfl⟩ := LiveArray.mem_toList.mp hv
    exact le_bestIdx (fun i => (w.threads ((w.resources r).waiters.cell i)).priority) hi
  · rw [List.find?_eq_some_iff_getElem]
    refine ⟨by simp, w.bestWaiter r, by simpa using hbest, by simp [LiveArray.toList], fun j hj => ?_⟩
    have hlt : (w.threads ((w.resources r).waiters.cell j)).priority
        < (w.threads ((w.resources r).waiters.cell (w.bestWaiter r))).priority :=
      lt_bestIdx_of_lt (fun i => (w.threads ((w.resources r).waiters.cell i)).priority) hj
    simpa [LiveArray.toList] using ne_of_lt hlt

/-- Who is woken by an action waited for its resource. -/
theorem mem_waiters_of_woken (hc : sc.Core) {w w' : World} (hw : (callSystem sc).Reach w) {tid u : Int}
    (hst : (callSystem sc).step w tid w') {a : Action} (hready : (w.threads tid).state = .ready)
    (hat : sc.actionAt tid (w.threads tid).pc = some a) (hasleep : (w.threads u).blocked = true)
    (hwoken : (w'.threads u).state = .ready) : u ∈ (w.resources a.resourceId).waiters.toList := by
  obtain ⟨htid, hok, rfl⟩ := hst
  have hmove := executeStep_move hok
  rw [(core_reach hc hw).tick_eq] at hmove
  have hsleep : (w.threads u).state ≠ .ready := Thread.not_ready_of_blocked hasleep
  generalize (w.executeStep sc tid).world = w' at hmove hwoken
  cases hmove with
  | idle hidle => exact absurd hready hidle
  | finish _ hnone =>
    rw [hat] at hnone
    exact absurd hnone (by simp)
  | act _ hat' _ hact =>
    rw [hat] at hat'
    obtain rfl := Option.some.inj hat'
    cases hact.effect hready u with
    | stays hs => exact absurd (hs ▸ hwoken) hsleep
    | runs hself => exact absurd (hself ▸ hready) hsleep
    | waits hself => exact absurd (hself ▸ hready) hsleep
    | woken _ _ hmem => exact hmem

/-- **A grant wakes the first waiter of maximal priority**: the first in the queue, and the one that has
been blocked longest unless the queue is mixed up. -/
theorem grants_first (hc : sc.Core) {h h' : History} (hh : (historySystem sc).Reach h) {tid r u : Int}
    (hst : (historySystem sc).step h tid h') (hgrant : Grant sc h.world h'.world tid r u) :
    u ∈ (h.world.resources r).waiters.toList ∧
    FirstOfBest h.world (h.world.resources r).waiters.toList u ∧
    (h.mixed r = false → FirstOfBest h.world (h.line r) u) := by
  have hw := history_world hh
  have hcall := history_call hst
  have hmoved := queueMove_of_step hc hw hcall r
  have hinv' := core_reach hc (.step hw hcall)
  obtain ⟨hready, ⟨a, hat, hkind, rfl⟩, hthread, hasleep, hwoken⟩ := hgrant
  have hr : sc.IsResource a.resourceId := by
    rcases hkind with hk | hk
    · exact (hc.operand tid hcall.1 _ a hat .mutex (by rw [hk]; rfl)).1
    · exact (hc.operand tid hcall.1 _ a hat .semaphore (by rw [hk]; rfl)).1
  have hin : u ∈ (h.world.resources a.resourceId).waiters.toList :=
    mem_waiters_of_woken hc hw hcall hready hat hasleep hwoken
  have hout : u ∉ (h'.world.resources a.resourceId).waiters.toList := fun hin' =>
    Thread.not_ready_of_blocked ((hinv'.mem_waiters hr).mp hin').2.1 hwoken
  have hbest : 0 < (h.world.resources a.resourceId).waiters.count ∧
      (h.world.resources a.resourceId).waiters.cell (h.world.bestWaiter a.resourceId) = u := by
    generalize (h'.world.resources a.resourceId).waiters = queue' at hmoved hout
    cases hmoved with
    | keep => exact absurd hin hout
    | join => exact absurd (by simp [hin]) hout
    | grant hlive =>
      have hmem := (LiveArray.swapRemove_perm (bestWaiter_lt hlive)).mem_iff.mpr hin
      exact ⟨hlive, ((List.mem_cons.mp hmem).resolve_right hout).symm⟩
  have hfirst := firstOfBest_bestWaiter hbest.1
  rw [hbest.2] at hfirst
  refine ⟨hin, hfirst, fun hmixed => ?_⟩
  rwa [← (history_inLine hc hh hr).order hmixed]

/-- The history of some calls on a fresh engine. -/
def historyOf (sc : Scenario) (ts : List Int) : History :=
  ts.foldl (History.next sc) ⟨startWorld sc, fun _ => [], fun _ => false⟩

theorem reach_historyOf {ts : List Int} (h : callsOk sc (startWorld sc) ts = true) :
    (historySystem sc).Reach (historyOf sc ts) := by
  suffices ∀ {g : History}, (historySystem sc).Reach g → callsOk sc g.world ts = true →
      (historySystem sc).Reach (ts.foldl (History.next sc) g) from
    this (.init ⟨⟨World.zero, rfl⟩, rfl, rfl⟩) h
  intro g hg hok
  clear h
  induction ts generalizing g with
  | nil => exact hg
  | cons t ts ih =>
    simp only [callsOk, Bool.and_eq_true, decide_eq_true_eq, Option.isNone_iff_eq_none] at hok
    exact ih (.step hg ⟨hok.1.1, hok.1.2, rfl⟩) hok.2

/-- Four threads that lock the same mutex. -/
def fourLockers : Scenario :=
  .ofSteps (List.replicate 4 [⟨.mutexLock, 0, 0⟩, ⟨.mutexUnlock, 0, 0⟩]) [.mutex] []

theorem fourLockers_core : fourLockers.Core where
  toMatching := Scenario.matching_of_steps (by decide) (by decide)
  core := forall_actionAt (P := fun _ a => a.type.core = true) (by decide)
  lifecycle := forall_actionAt (P := fun _ a => a.type = .objectInit ∨ a.type = .objectDestroy →
    fourLockers.IsResource a.resourceId) (by decide)

/-- The first unlock wakes the thread that blocked first. -/
theorem grants_first_fourLockers :
    let h := historyOf fourLockers [0, 1, 2, 3]
    1 ∈ (h.world.resources 0).waiters.toList ∧
    FirstOfBest h.world (h.world.resources 0).waiters.toList 1 ∧
    (h.mixed 0 = false → FirstOfBest h.world (h.line 0) 1) := by
  intro h
  have hreach : (historySystem fourLockers).Reach h := reach_historyOf (by decide +kernel)
  have hgrant : Grant fourLockers h.world (h.next fourLockers 0).world 0 0 1 :=
    ⟨by decide +kernel, ⟨⟨.mutexUnlock, 0, 0⟩, by decide +kernel, .inl rfl, rfl⟩, by decide,
      by decide +kernel, by decide +kernel⟩
  exact grants_first fourLockers_core hreach ⟨by decide, by decide +kernel, rfl⟩ hgrant

/-- The second unlock wakes `T3`, which blocked after `T2`: the first grant had moved it to the front. -/
theorem fourLockers_overtakes : ¬ ∀ sc : Scenario, sc.Core → ∀ h, (historySystem sc).Reach h →
    ∀ tid h', (historySystem sc).step h tid h' → ∀ r u, Grant sc h.world h'.world tid r u →
      FirstOfBest h.world (h.line r) u := by
  intro hall
  have hreach : (historySystem fourLockers).Reach (historyOf fourLockers [0, 1, 2, 3, 0]) :=
    reach_historyOf (by decide +kernel)
  have hgrant : Grant fourLockers (historyOf fourLockers [0, 1, 2, 3, 0]).world
      ((historyOf fourLockers [0, 1, 2, 3, 0]).next fourLockers 1).world 1 0 3 :=
    ⟨by decide +kernel, ⟨⟨.mutexUnlock, 0, 0⟩, by decide +kernel, .inl rfl, rfl⟩, by decide,
      by decide +kernel, by decide +kernel⟩
  have hfirst := (hall _ fourLockers_core _ hreach 1 _ ⟨by decide, by decide +kernel, rfl⟩ 0 3 hgrant).2
  exact absurd hfirst (by decide +kernel)

end Smash
