import Smash.Proof.Owning

/-!
# Circular waits

In a scenario of untimed locks and unlocks, deadlock and circular wait are the same thing. A thread that is
stuck waits for one that is stuck, and a finite graph in which nobody is a dead end has a cycle; that is
one direction, and `CycleSearch.search_clear` is the finite graph. For the other, the threads on the path
that the search reports form a `Knot`: each is blocked on a mutex whose owner is another of them. No step
can undo a knot, since only its owner gives a mutex away, and the owners in the knot do not run.

In any state at all, reachable or not, the check fails exactly when the wait-for graph has a cycle.
-/

set_option autoImplicit false

namespace Smash

variable {sc : Scenario}

/-! ## Scenarios of locks -/

/-- Untimed locks and unlocks, and what names no resource. -/
def ActionType.mutexOnly : ActionType → Bool
  | .mutexLock | .mutexUnlock => true
  | a => a.resourceFree

/-- A scenario of such actions. -/
structure Scenario.MutexOnly (sc : Scenario) : Prop extends sc.Matching where
  only : ∀ t, sc.IsThread t → ∀ pc a, sc.actionAt t pc = some a → a.type.mutexOnly = true

theorem Scenario.MutexOnly.core (hm : sc.MutexOnly) : sc.Core where
  toMatching := hm.toMatching
  core t ht pc a hat := by
    have honly := hm.only t ht pc a hat
    cases htype : a.type <;>
      simp_all [ActionType.mutexOnly, ActionType.resourceFree, ActionType.core]
  lifecycle t ht pc a hat htype := by
    have honly := hm.only t ht pc a hat
    rcases htype with htype | htype <;> (rw [htype] at honly; exact absurd honly (by decide))

/-- A blocked thread stands at a lock, … -/
theorem Scenario.MutexOnly.standsAt_lock (hm : sc.MutexOnly) {w : World}
    (h : (callSystem sc).Reach w) {t : Int} (ht : sc.IsThread t)
    (hb : (w.threads t).blocked = true) :
    ∃ a, sc.actionAt t (w.threads t).pc = some a ∧ a.type = .mutexLock ∧
      (w.threads t).state = .blockedMutex ∧ (w.threads t).blockedOn = a.resourceId := by
  obtain ⟨a, hat, hwait, hon⟩ := reach_standsAt h ht hb
  have honly := hm.only t ht _ a hat
  have htype : a.type = .mutexLock := by
    cases htype : a.type <;>
      simp_all [ActionType.mutexOnly, ActionType.resourceFree, ActionType.wait]
  rw [htype, ActionType.wait, Option.some.injEq] at hwait
  exact ⟨a, hat, htype, hwait.symm, hon⟩

/-- … and is blocked on a mutex. -/
theorem Scenario.MutexOnly.blocked (hm : sc.MutexOnly) {w : World} (h : (callSystem sc).Reach w)
    {t : Int} (ht : sc.IsThread t) (hb : (w.threads t).blocked = true) :
    (w.threads t).state = .blockedMutex ∧ sc.IsResource (w.threads t).blockedOn ∧
      sc.resTypes (w.threads t).blockedOn = .mutex := by
  obtain ⟨a, hat, htype, hstate, hon⟩ := hm.standsAt_lock h ht hb
  rw [hon]
  exact ⟨hstate, hm.operand t ht _ a hat .mutex (by rw [htype]; rfl)⟩

/-! ## Nobody waits for itself -/

/-- A lock that leaves its thread blocked is not the owner's. -/
theorem Act.not_owner_of_block {tid : Int} {a : Action} {w w' : World} (h : Act sc tid a w w')
    (hk : a.type = .mutexLock) (hready : (w.threads tid).state = .ready)
    (hb : (w'.threads tid).state = .blockedMutex) : (w'.resources a.resourceId).owner ≠ tid := by
  rcases h.lock_cases hk with ⟨_, rfl⟩ | ⟨_, hne, rfl⟩
  · rw [World.advance_state, World.modThread_self, (Thread.ownedPush_fields _ _).1,
      World.modResource_threads, hready] at hb
    exact absurd hb (by decide)
  · rw [boost_resources, World.enqueue_owner]
    exact hne

/-- What holds along a run, besides `CoreInv`. -/
def WaitsForOthers (sc : Scenario) (w : World) : Prop :=
  ∀ t, sc.IsThread t → (w.threads t).state = .blockedMutex →
    (w.resources (w.threads t).blockedOn).owner ≠ t

theorem WaitsForOthers.step (hm : sc.MutexOnly) {w : World} (hinv : CoreInv sc w)
    (h : WaitsForOthers sc w) {tid : Int} (htid : sc.IsThread tid)
    (hok : (w.executeStep sc tid).fault = none) :
    WaitsForOthers sc (w.executeStep sc tid).world := by
  have hmove := executeStep_move hok
  rw [hinv.tick_eq] at hmove
  generalize (w.executeStep sc tid).world = w' at hmove ⊢
  cases hmove with
  | idle => exact h
  | finish =>
    intro t ht hb
    have hne : t ≠ tid := by
      rintro rfl
      simp at hb
    rw [World.modThread_of_ne _ hne] at hb ⊢
    exact h t ht hb
  | @act a _ hready hat _ hact =>
    have honly := hm.only tid htid _ a hat
    have hrun : (w'.threads tid).state = .blockedMutex →
        (w'.resources (w'.threads tid).blockedOn).owner ≠ tid := by
      intro hb
      cases hact.effect hready tid with
      | stays hs =>
        rw [hs, hready] at hb
        exact absurd hb (by decide)
      | runs _ hnot => simp [Thread.blocked, hb] at hnot
      | waits _ hwait hon =>
        have htype : a.type = .mutexLock := by
          cases htype : a.type <;>
            simp_all [ActionType.mutexOnly, ActionType.resourceFree, ActionType.wait]
        rw [hon]
        exact hact.not_owner_of_block htype hready hb
      | woken hne => exact absurd rfl hne
    intro t ht hb
    by_cases hself : t = tid
    · rw [hself] at hb ⊢
      exact hrun hb
    rcases hact.owner (w'.threads t).blockedOn with hold | ⟨_, hfree | hrunner | ⟨_, hwoken⟩⟩
    · cases hact.effect hready t with
      | stays hs hon =>
        rw [hold, hon]
        exact h t ht (hs ▸ hb)
      | runs heq => exact absurd heq hself
      | waits heq => exact absurd heq hself
      | woken _ _ _ hs =>
        rw [hs] at hb
        exact absurd hb (by decide)
    · rw [hfree]
      have := ht.1
      omega
    · rw [hrunner]
      exact Ne.symm hself
    · rintro hown
      rw [hown, hb] at hwoken
      exact absurd hwoken (by decide)

theorem waitsForOthers_reach (hm : sc.MutexOnly) {w : World} (h : (callSystem sc).Reach w) :
    WaitsForOthers sc w := by
  induction h with
  | init hi =>
    obtain ⟨before, rfl⟩ := hi
    intro t ht hb
    simp [World.reset, ht, Thread.reset] at hb
  | step hr hst ih =>
    obtain ⟨htid, hok, rfl⟩ := hst
    exact ih.step hm (core_reach hm.core hr) htid hok

/-! ## A stuck state has a cycle -/

/-- No thread that is DONE owns a mutex. -/
def DoneOwnNothing (sc : Scenario) (w : World) : Prop :=
  ∀ r, sc.IsResource r → sc.resTypes r = .mutex → ∀ t, sc.IsThread t →
    (w.threads t).state = .done → (w.resources r).owner ≠ t

theorem waitsFor_eq_true {w : World} {t u : Int} : w.waitsFor sc t u = true ↔
    (w.threads t).state = .blockedMutex ∧ sc.IsResource (w.threads t).blockedOn ∧
      0 ≤ (w.resources (w.threads t).blockedOn).owner ∧
      (w.resources (w.threads t).blockedOn).owner ≠ t ∧
      (w.resources (w.threads t).blockedOn).owner = u := by
  simp only [World.waitsFor, Bool.and_eq_true, decide_eq_true_eq, and_assoc]

/-- A blocked thread waits for a thread, and in a stuck state for a blocked one. -/
theorem waits_for_blocked (hm : sc.MutexOnly) {w : World} (h : (callSystem sc).Reach w)
    (hstuck : Stuck sc w) (hdone : DoneOwnNothing sc w) {t : Int} (ht : sc.IsThread t)
    (hb : (w.threads t).blocked = true) :
    ∃ u, sc.IsThread u ∧ (w.threads u).blocked = true ∧ w.waitsFor sc t u = true := by
  have hinv := core_reach hm.core h
  obtain ⟨hstate, hr, htype⟩ := hm.blocked h ht hb
  have hmem := (hinv.mem_waiters hr).mpr ⟨ht, hb, rfl⟩
  have howned : (w.resources (w.threads t).blockedOn).owner ≠ -1 := fun hfree => by
    rw [LiveArray.toList_eq_nil.mpr (hinv.free _ hr htype hfree)] at hmem
    exact absurd hmem (List.not_mem_nil)
  have hu := hinv.owner_isThread hr howned
  refine ⟨_, hu, ?_, waitsFor_eq_true.mpr
    ⟨hstate, hr, hu.1, waitsForOthers_reach hm h t ht hstate, rfl⟩⟩
  cases hs : (w.threads (w.resources (w.threads t).blockedOn).owner).state with
  | ready => exact absurd ⟨hu, hs⟩ (hstuck _)
  | done => exact absurd rfl (hdone _ hr htype _ hu hs)
  | blockedMutex => simp [Thread.blocked, hs]
  | blockedSem => simp [Thread.blocked, hs]

theorem not_ends_of_stuck (hm : sc.MutexOnly) {w : World} (h : (callSystem sc).Reach w)
    (hstuck : Stuck sc w) (hdone : DoneOwnNothing sc w) {t : Int} (ht : sc.IsThread t)
    (hb : (w.threads t).blocked = true) : ¬ CycleSearch.Ends (w.waitsFor sc) sc.threadIds t := by
  intro hends
  induction hends with
  | intro t _ ih =>
    obtain ⟨u, hu, hub, hedge⟩ := waits_for_blocked hm h hstuck hdone ht hb
    exact ih u ⟨Scenario.mem_threadIds.mpr hu, hedge⟩ hu hub

theorem circularWait_ne_stuck (w : World) : circularWait sc w ≠ .stuck :=
  CycleSearch.search_ne_stuck

theorem checkCircularWait_ne_none {w : World} :
    checkCircularWait sc w ≠ none ↔ ∃ path next, circularWait sc w = .cycle path next := by
  unfold checkCircularWait
  cases circularWait sc w <;> simp

/-! ## The check decides whether there is a cycle -/

/-- The wait-for graph: from a thread that is blocked on a mutex to the owner, another thread. -/
def World.WaitsForOwner (sc : Scenario) (w : World) (t u : Int) : Prop :=
  sc.IsThread t ∧ (w.threads t).state = .blockedMutex ∧ sc.IsResource (w.threads t).blockedOn ∧
    (w.resources (w.threads t).blockedOn).owner ≠ -1 ∧
    (w.resources (w.threads t).blockedOn).owner ≠ t ∧
    u = (w.resources (w.threads t).blockedOn).owner

/-- Each owner is -1 or a thread. -/
def OwnersInRange (sc : Scenario) (w : World) : Prop :=
  ∀ r, sc.IsResource r → (w.resources r).owner = -1 ∨ sc.IsThread (w.resources r).owner

/-- The adjacency matrix is that graph. -/
theorem edge_iff_waitsForOwner {w : World} (howners : OwnersInRange sc w) {t u : Int} :
    CycleSearch.Edge (w.waitsFor sc) sc.threadIds t u ↔ w.WaitsForOwner sc t u := by
  unfold CycleSearch.Edge World.WaitsForOwner
  rw [waitsFor_eq_true, Scenario.mem_threadIds, Scenario.mem_threadIds]
  constructor
  · rintro ⟨ht, _, hstate, hr, hpos, hne, howner⟩
    exact ⟨ht, hstate, hr, by omega, hne, howner.symm⟩
  · rintro ⟨ht, hstate, hr, hsome, hne, rfl⟩
    have howner := (howners _ hr).resolve_left hsome
    exact ⟨ht, howner, hstate, hr, howner.1, hne, rfl⟩

/-- The states of the search of `smash_check_circular_wait`, one for each turn of its loops. -/
def circularWaitStates (sc : Scenario) (w : World) : List (CycleSearch.State Int) :=
  CycleSearch.searchStates (w.waitsFor sc) sc.threadIds
    (fun t => (w.threads t).state = .blockedMutex) sc.threadIds .empty

theorem circularWaitStates_length_le {w : World} (hsize : sc.threadCount ≤ smashMaxThreads) :
    ∀ st ∈ circularWaitStates sc w, st.stack.length ≤ smashMaxThreads := by
  intro st hst
  have hnodes := CycleSearch.stack_length_le st hst
  have hcount : sc.threadIds.length ≤ smashMaxThreads := by
    rw [Scenario.threadIds, length_upTo]
    omega
  exact hnodes.trans hcount

/-- **`smash_check_circular_wait` decides cyclicity**, in any state whose owners are -1 or threads: the
search ends, its stacks never hold more than `SMASH_MAX_THREADS` entries, and it fails exactly when the
wait-for graph has a cycle. -/
theorem checkCircularWait_iff_cycle {w : World} (hsize : sc.threadCount ≤ smashMaxThreads)
    (howners : OwnersInRange sc w) :
    circularWait sc w ≠ .stuck ∧
    (∀ st ∈ circularWaitStates sc w, st.stack.length ≤ smashMaxThreads) ∧
    (checkCircularWait sc w ≠ none ↔ ∃ t, Relation.TransGen (w.WaitsForOwner sc) t t) := by
  refine ⟨circularWait_ne_stuck w, circularWaitStates_length_le hsize, ?_⟩
  have hgraph : w.WaitsForOwner sc = CycleSearch.Edge (w.waitsFor sc) sc.threadIds :=
    funext fun t => funext fun u => propext (edge_iff_waitsForOwner howners).symm
  rw [hgraph, checkCircularWait_ne_none]
  refine CycleSearch.search_cycle_iff fun t _ u hedge => ?_
  simpa using (waitsFor_eq_true.mp hedge).1

/-- Two threads that wait for each other. -/
theorem checkCircularWait_iff_cycle_abba :
    let w := (startWorld abbaDeadlock).calls abbaDeadlock [0, 1, 0, 1]
    circularWait abbaDeadlock w ≠ .stuck ∧
    (∀ st ∈ circularWaitStates abbaDeadlock w, st.stack.length ≤ smashMaxThreads) ∧
    (checkCircularWait abbaDeadlock w ≠ none ↔
      ∃ t, Relation.TransGen (w.WaitsForOwner abbaDeadlock) t t) :=
  checkCircularWait_iff_cycle (by decide) (Scenario.forall_isResource (by decide +kernel))

/-! ## A cycle stays -/

/-- Each of these threads is blocked on a mutex that one of them owns. -/
def Knot (sc : Scenario) (w : World) (ts : List Int) : Prop :=
  ∀ t ∈ ts, sc.IsThread t ∧ (w.threads t).state = .blockedMutex ∧
    sc.IsResource (w.threads t).blockedOn ∧ (w.resources (w.threads t).blockedOn).owner ∈ ts

theorem knot_of_lasso {w : World} {path : List Int} {next : Int}
    (h : CycleSearch.Lasso (w.waitsFor sc) path next) (hsub : path ⊆ sc.threadIds) :
    Knot sc w path := by
  intro t ht
  obtain ⟨u, hu, hedge⟩ := h.succ ht
  obtain ⟨hstate, hr, _, _, hown⟩ := waitsFor_eq_true.mp hedge
  exact ⟨Scenario.mem_threadIds.mp (hsub ht), hstate, hr, hown ▸ hu⟩

theorem Knot.step (hm : sc.MutexOnly) {w : World} (hinv : CoreInv sc w) {ts : List Int}
    (h : Knot sc w ts) {tid : Int} (htid : sc.IsThread tid)
    (hok : (w.executeStep sc tid).fault = none) : Knot sc (w.executeStep sc tid).world ts := by
  have hmove := executeStep_move hok
  rw [hinv.tick_eq] at hmove
  generalize (w.executeStep sc tid).world = w' at hmove ⊢
  -- The thread that runs is READY, so it is not in the knot.
  have hout : (w.threads tid).state = .ready → tid ∉ ts := fun hready hin => by
    rw [(h tid hin).2.1] at hready
    exact absurd hready (by decide)
  cases hmove with
  | idle => exact h
  | finish hready =>
    intro t ht
    have hne : t ≠ tid := fun heq => hout hready (heq ▸ ht)
    rw [World.modThread_of_ne _ hne]
    exact h t ht
  | @act a _ hready hat _ hact =>
    intro t ht
    obtain ⟨hthread, hstate, hr, hown⟩ := h t ht
    have hne : t ≠ tid := fun heq => hout hready (heq ▸ ht)
    cases hact.effect hready t with
    | stays hs hon =>
      rw [hs, hon]
      refine ⟨hthread, hstate, hr, ?_⟩
      rcases hact.owner (w.threads t).blockedOn with hold | ⟨hfree | hrunner, _⟩
      · rw [hold]
        exact hown
      · rw [hfree] at hown
        have := (h _ hown).1.1
        omega
      · exact absurd (hrunner ▸ hown) (hout hready)
    | runs heq => exact absurd heq hne
    | waits heq => exact absurd heq hne
    | woken _ hwakes hmem =>
      have honly := hm.only tid htid _ a hat
      have htype : a.type = .mutexUnlock := by
        cases htype : a.type <;>
          simp_all [ActionType.mutexOnly, ActionType.resourceFree, ActionType.wakes]
      have hra := (hm.operand tid htid _ a hat .mutex (by rw [htype]; rfl)).1
      have hon := ((hinv.mem_waiters hra).mp hmem).2.2
      rw [hon, (hact.unlock_cases htype).1] at hown
      exact absurd hown (hout hready)

/-- The threads of a knot never run again. -/
theorem Knot.run (hm : sc.MutexOnly) {w w' : World} (h : (callSystem sc).Reach w) {path : List Int}
    (hknot : Knot sc w path) {ts : List Int} (hrun : (callSystem sc).Run w ts w') :
    Knot sc w' path := by
  refine hrun.keeps (I := fun v => Knot sc v path) h hknot fun v tid v' hv hk hst => ?_
  obtain ⟨htid, hok, rfl⟩ := hst
  exact hk.step hm (core_reach hm.core hv) htid hok

/-! ## Deadlock and circular wait -/

/-- **Deadlock and circular wait coincide** in a scenario of locks and unlocks. A state with nobody READY,
somebody not DONE and no mutex lost to a thread that is DONE fails the check; and when the check fails, the
search has found a cycle none of whose threads becomes READY again. -/
theorem circularWait_deadlock (hm : sc.MutexOnly) {w : World} (h : (callSystem sc).Reach w) :
    (Stuck sc w → allDone sc w = false → DoneOwnNothing sc w → checkCircularWait sc w ≠ none) ∧
    (checkCircularWait sc w ≠ none → ∃ path next, circularWait sc w = .cycle path next ∧
      CycleSearch.Lasso (w.waitsFor sc) path next ∧
      ∀ ts w', (callSystem sc).Run w ts w' →
        (∀ t ∈ path, sc.IsThread t ∧ (w'.threads t).state ≠ .ready) ∧ allDone sc w' = false) := by
  refine ⟨fun hstuck hnot hdone => ?_, fun hfails => ?_⟩
  · -- Some thread is blocked, and no walk from it ends.
    obtain ⟨t, ht, hb⟩ : ∃ t, sc.IsThread t ∧ (w.threads t).blocked = true := by
      by_contra hnone
      rw [Bool.eq_false_iff, ne_eq, allDone_iff] at hnot
      refine hnot fun t ht => ?_
      cases hs : (w.threads t).state with
      | done => rfl
      | ready => exact absurd ⟨ht, hs⟩ (hstuck t)
      | blockedMutex => exact absurd ⟨t, ht, by simp [Thread.blocked, hs]⟩ hnone
      | blockedSem => exact absurd ⟨t, ht, by simp [Thread.blocked, hs]⟩ hnone
    rw [checkCircularWait_ne_none]
    cases hsearch : circularWait sc w with
    | cycle path next => exact ⟨path, next, rfl⟩
    | stuck => exact absurd hsearch (circularWait_ne_stuck w)
    | clear last =>
      have hroot := (hm.blocked h ht hb).1
      exact absurd (CycleSearch.search_clear hsearch (Scenario.mem_threadIds.mpr ht) (by simpa using hroot))
        (not_ends_of_stuck hm h hstuck hdone ht hb)
  · obtain ⟨path, next, hcycle⟩ := checkCircularWait_ne_none.mp hfails
    obtain ⟨hlasso, hsub⟩ := CycleSearch.search_lasso hcycle
    refine ⟨path, next, hcycle, hlasso, fun ts w' hrun => ?_⟩
    have hknot := (knot_of_lasso hlasso hsub).run hm h hrun
    have hwaits : ∀ t ∈ path, sc.IsThread t ∧ (w'.threads t).state = .blockedMutex := fun t ht =>
      ⟨(hknot t ht).1, (hknot t ht).2.1⟩
    refine ⟨fun t ht => ⟨(hwaits t ht).1, ?_⟩, ?_⟩
    · rw [(hwaits t ht).2]
      decide
    · rw [Bool.eq_false_iff, ne_eq, allDone_iff]
      intro hall
      obtain ⟨hthread, hstate⟩ := hwaits next hlasso.mem
      rw [hall next hthread] at hstate
      exact absurd hstate (by decide)

theorem abbaDeadlock_mutexOnly : abbaDeadlock.MutexOnly where
  toMatching := abbaDeadlock_matching
  only := forall_actionAt (P := fun _ a => a.type.mutexOnly = true) (by decide)

/-- After two locks each, the threads wait for each other. -/
theorem circularWait_deadlock_abba :
    let w := (startWorld abbaDeadlock).calls abbaDeadlock [0, 1, 0, 1]
    (Stuck abbaDeadlock w → allDone abbaDeadlock w = false → DoneOwnNothing abbaDeadlock w →
      checkCircularWait abbaDeadlock w ≠ none) ∧
    (checkCircularWait abbaDeadlock w ≠ none → ∃ path next,
      circularWait abbaDeadlock w = .cycle path next ∧
      CycleSearch.Lasso (w.waitsFor abbaDeadlock) path next ∧
      ∀ ts w', (callSystem abbaDeadlock).Run w ts w' →
        (∀ t ∈ path, abbaDeadlock.IsThread t ∧ (w'.threads t).state ≠ .ready) ∧
          allDone abbaDeadlock w' = false) :=
  circularWait_deadlock abbaDeadlock_mutexOnly (reach_calls (by decide +kernel))

example : checkCircularWait abbaDeadlock ((startWorld abbaDeadlock).calls abbaDeadlock [0, 1, 0, 1])
    = some "CIRCULAR WAIT (deadlock): T0 -> T1 -> T0 (blocks on T0)" := by decide +kernel

end Smash
