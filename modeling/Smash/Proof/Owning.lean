import Smash.Proof.Waiting

/-!
# Owning

In a *core* scenario (untimed locks and waits, no condition variables, no mailboxes) nothing ever times out,
and two rosters stay sound over every run: the queues (`World.parking`) and the stacks of owned mutexes
(`World.holdings`). A third fact ties the two together: nobody waits for a mutex that is free or for a
semaphore that has a unit. `CoreInv` is the conjunction, `core_reach` the result for every reached state,
and `core_integrity` reads it off field by field.
-/

set_option autoImplicit false

namespace Smash

variable {sc : Scenario}

/-! ## Core scenarios -/

/-- The actions of a core scenario. -/
def ActionType.core : ActionType → Bool
  | .mutexLock | .mutexUnlock | .semWait | .semSignal | .nop | .yield | .done | .sysLock | .sysUnlock
  | .isrEnter | .isrExit | .call | .ret | .objectInit | .objectDestroy => true
  | _ => false

/-- A scenario of core actions, each on a resource of the matching type; an object is created or
destroyed at an index in range. -/
structure Scenario.Core (sc : Scenario) : Prop extends sc.Matching where
  core : ∀ t, sc.IsThread t → ∀ pc a, sc.actionAt t pc = some a → a.type.core = true
  lifecycle : ∀ t, sc.IsThread t → ∀ pc a, sc.actionAt t pc = some a →
    a.type = .objectInit ∨ a.type = .objectDestroy → sc.IsResource a.resourceId

theorem ActionType.mails_of_core {a : ActionType} (h : a.core = true) : a.mails = false := by
  cases a <;> first | rfl | exact absurd h (by decide)

theorem ActionType.countdown_of_core {a : Action} (h : a.type.core = true) : a.countdown = none := by
  unfold Action.countdown
  cases htype : a.type <;> simp_all [ActionType.core]

/-! ## Who owns what -/

/-- Owners of resources and stacks of owned mutexes. -/
def World.holdings (sc : Scenario) (w : World) : Roster Int Int where
  place r := if sc.IsResource r ∧ (w.resources r).owner ≠ -1 then some (w.resources r).owner else none
  members t := if sc.IsThread t then (w.threads t).ownedMutexStack.toList else []

theorem holdings_eq {v v' : World} (hown : ∀ r, (v'.resources r).owner = (v.resources r).owner)
    (hstack : ∀ t, (v'.threads t).ownedMutexStack = (v.threads t).ownedMutexStack) :
    v'.holdings sc = v.holdings sc := by
  refine Roster.ext (funext fun r => ?_) (funext fun t => ?_)
  · simp only [World.holdings, hown]
  · simp only [World.holdings, hstack]

theorem holdings_enter {v v' : World} {t r : Int} (ht : sc.IsThread t) (hr : sc.IsResource r)
    (hfree : (v.resources r).owner = -1)
    (hown : ∀ s, (v'.resources s).owner = if s = r then t else (v.resources s).owner)
    (hstack : ∀ u, (v'.threads u).ownedMutexStack.toList = if u = t then
      (v.threads t).ownedMutexStack.toList ++ [r] else (v.threads u).ownedMutexStack.toList) :
    (v.holdings sc).Step (v'.holdings sc) := by
  have hne : t ≠ -1 := by have := ht.1; omega
  have henter : v'.holdings sc = (v.holdings sc).enter r t := by
    refine Roster.ext (funext fun s => ?_) (funext fun u => ?_)
    · simp only [World.holdings, Roster.enter, Function.update_apply, hown]
      by_cases hs : s = r
      · subst hs; simp [hr, hne]
      · simp [hs]
    · simp only [World.holdings, Roster.enter, Function.update_apply, hstack]
      by_cases hu : u = t
      · subst hu; simp [ht]
      · simp [hu]
  rw [henter]
  exact .enter _ _ (by simp [World.holdings, hfree])

theorem holdings_leave {v v' : World} {t r : Int} (ht : sc.IsThread t)
    (hown : ∀ s, (v'.resources s).owner = if s = r then -1 else (v.resources s).owner)
    (htop : (v.threads t).ownedTopIs r = true)
    (hstack : ∀ u, (v'.threads u).ownedMutexStack = if u = t then
      (v.threads t).ownedMutexStack.dropLast else (v.threads u).ownedMutexStack) :
    (v.holdings sc).Step (v'.holdings sc) := by
  have hlive : 0 < (v.threads t).ownedMutexStack.count ∧ (v.threads t).ownedMutexStack.cell
      ((v.threads t).ownedMutexStack.count - 1) = r := by
    simp only [Thread.ownedTopIs, Bool.and_eq_true, decide_eq_true_eq] at htop
    exact ⟨Nat.pos_of_ne_zero htop.1, htop.2⟩
  have hleave : v'.holdings sc
      = (v.holdings sc).leave r t (v.threads t).ownedMutexStack.dropLast.toList := by
    refine Roster.ext (funext fun s => ?_) (funext fun u => ?_)
    · simp only [World.holdings, Roster.leave, Function.update_apply, hown]
      by_cases hs : s = r
      · subst hs; simp
      · simp [hs]
    · simp only [World.holdings, Roster.leave, Function.update_apply, hstack]
      by_cases hu : u = t
      · subst hu; simp [ht]
      · simp [hu]
  rw [hleave]
  refine .leave _ _ _ ?_
  simp only [World.holdings, if_pos ht]
  rw [LiveArray.toList_dropLast hlive.1, hlive.2]
  exact (List.perm_append_singleton _ _).symm

/-! ## The invariant -/

/-- What holds in every state of a core scenario. -/
structure CoreInv (sc : Scenario) (w : World) : Prop where
  untimed : ∀ t, sc.IsThread t → (w.threads t).timeoutTicks = -1
  parking : (w.parking sc).Sound
  holdings : (w.holdings sc).Sound
  /-- Nobody waits for a free mutex, … -/
  free : ∀ r, sc.IsResource r → sc.resTypes r = .mutex → (w.resources r).owner = -1 →
    (w.resources r).waiters.count = 0
  /-- … or for a semaphore with a unit. -/
  unit : ∀ r, sc.IsResource r → sc.resTypes r = .semaphore → 0 < (w.resources r).count →
    (w.resources r).waiters.count = 0

namespace CoreInv

variable {w : World}

theorem parked (h : CoreInv sc w) : Parked sc w := ⟨h.untimed, h.parking⟩

theorem tick_eq (h : CoreInv sc w) : (w.tick sc).1 = w := h.parked.tick_eq

theorem mem_waiters (h : CoreInv sc w) {t r : Int} (hr : sc.IsResource r) :
    t ∈ (w.resources r).waiters.toList ↔
      sc.IsThread t ∧ (w.threads t).blocked = true ∧ (w.threads t).blockedOn = r :=
  mem_waiters_of_sound h.parking hr

/-- Whoever waits is not the thread that runs. -/
theorem ne_of_waits (h : CoreInv sc w) {t u r : Int} (hr : sc.IsResource r)
    (hready : (w.threads t).state = .ready) (hmem : u ∈ (w.resources r).waiters.toList) : u ≠ t := by
  rintro rfl
  have hblocked := ((h.mem_waiters hr).mp hmem).2.1
  exact absurd hready (Thread.not_ready_of_blocked hblocked)

theorem home (h : CoreInv sc w) {t : Int} (ht : sc.IsThread t) (hb : (w.threads t).blocked = true) :
    sc.IsResource (w.threads t).blockedOn := by
  have hplace : (w.parking sc).place t = some (w.threads t).blockedOn := by
    simp only [World.parking, if_pos ht]
    exact Thread.place_of_blocked hb
  have hmem := (h.parking.mem_iff t _).mpr hplace
  by_contra hr
  simp [World.parking, hr] at hmem

theorem nodup_waiters (h : CoreInv sc w) {r : Int} (hr : sc.IsResource r) :
    (w.resources r).waiters.toList.Nodup := by
  have := h.parking.nodup r
  simpa only [World.parking, if_pos hr] using this

theorem mem_stack (h : CoreInv sc w) {t r : Int} (ht : sc.IsThread t) :
    r ∈ (w.threads t).ownedMutexStack.toList ↔ sc.IsResource r ∧ (w.resources r).owner = t := by
  have := h.holdings.mem_iff r t
  simp only [World.holdings, if_pos ht] at this
  have hne : t ≠ -1 := by have := ht.1; omega
  rw [this]
  split
  · rename_i hr
    simp [hr.1]
  · rename_i hr
    simp only [reduceCtorEq, false_iff, not_and]
    rintro hres rfl
    exact hr ⟨hres, hne⟩

theorem nodup_stack (h : CoreInv sc w) {t : Int} (ht : sc.IsThread t) :
    (w.threads t).ownedMutexStack.toList.Nodup := by
  have := h.holdings.nodup t
  simpa only [World.holdings, if_pos ht] using this

theorem owner_isThread (h : CoreInv sc w) {r : Int} (hr : sc.IsResource r)
    (hown : (w.resources r).owner ≠ -1) : sc.IsThread (w.resources r).owner := by
  have hplace : (w.holdings sc).place r = some (w.resources r).owner := by
    simp [World.holdings, hr, hown]
  have hmem := (h.holdings.mem_iff r _).mpr hplace
  by_contra ht
  simp [World.holdings, ht] at hmem

/-- A READY thread leaves room in every queue. -/
theorem room_queue (hv : sc.Valid) (h : CoreInv sc w) {t r : Int} (ht : sc.Ready w t)
    (hr : sc.IsResource r) : (w.resources r).waiters.count < smashMaxWaiters := by
  have hlt : ((w.parking sc).members r).length < sc.threadIds.length := by
    refine h.parking.length_lt (fun a ha => ?_) (Scenario.mem_threadIds.mpr ht.1) ?_
    · simp only [World.parking, if_pos hr] at ha
      exact Scenario.mem_threadIds.mpr ((h.mem_waiters hr).mp ha).1
    · simp only [World.parking, if_pos ht.1]
      rw [Thread.place_of_ready ht.2]
      simp
  simp only [World.parking, if_pos hr, LiveArray.length_toList, Scenario.threadIds,
    length_upTo] at hlt
  have := hv.bounds.threadCount_le
  show _ < 16
  omega

/-- A mutex that a thread does not own leaves room on its stack. -/
theorem room_stack (hv : sc.Valid) (h : CoreInv sc w) {t r : Int} (ht : sc.IsThread t)
    (hr : sc.IsResource r) (hown : (w.resources r).owner ≠ t) :
    (w.threads t).ownedMutexStack.count < smashMaxResources := by
  have hlt : ((w.holdings sc).members t).length < sc.resourceIds.length := by
    refine h.holdings.length_lt (fun a ha => ?_) (Scenario.mem_resourceIds.mpr hr) ?_
    · simp only [World.holdings, if_pos ht] at ha
      exact Scenario.mem_resourceIds.mpr ((h.mem_stack ht).mp ha).1
    · simp only [World.holdings]
      split
      · simpa using hown
      · simp
  simp only [World.holdings, if_pos ht, LiveArray.length_toList, Scenario.resourceIds,
    length_upTo] at hlt
  have := hv.bounds.resourceCount_le
  show _ < 16
  omega

end CoreInv

theorem Thread.ownedPush_of_room {t : Thread} {r : Int}
    (h : t.ownedMutexStack.count < smashMaxResources) :
    (t.ownedPush r).ownedMutexStack = t.ownedMutexStack.push r := by
  unfold Thread.ownedPush
  rw [if_pos h]

/-! ## What a core action does -/

theorem World.modThread_stack {w : World} {t : Int} {f : Thread → Thread}
    (h : (f (w.threads t)).ownedMutexStack = (w.threads t).ownedMutexStack) (u : Int) :
    ((w.modThread t f).threads u).ownedMutexStack = (w.threads u).ownedMutexStack :=
  World.modThread_field (·.ownedMutexStack) h u

theorem World.advance_stack (w : World) (t u : Int) :
    ((w.advance t).threads u).ownedMutexStack = (w.threads u).ownedMutexStack :=
  World.modThread_stack (f := (·.advance)) rfl u

theorem advance_holdings (w : World) (t : Int) : (w.advance t).holdings sc = w.holdings sc :=
  holdings_eq (fun _ => rfl) (World.advance_stack w t)

theorem World.enqueue_stack (w : World) (tid r : Int) (state : ThreadState) (u : Int) :
    ((w.enqueue tid r state).threads u).ownedMutexStack = (w.threads u).ownedMutexStack := by
  rw [World.enqueue_threads]
  split
  · subst u; rfl
  · rfl

theorem World.arm_stack (w : World) (tid : Int) (c : Option Int) (u : Int) :
    ((w.arm tid c).threads u).ownedMutexStack = (w.threads u).ownedMutexStack := by
  rw [World.arm_threads]
  split
  · subst u; rfl
  · rfl

theorem lowered_stack (sc : Scenario) (w : World) (tid r u : Int) :
    ((lowered sc w tid r).threads u).ownedMutexStack = if u = tid then
      (w.threads tid).ownedMutexStack.dropLast else (w.threads u).ownedMutexStack := by
  unfold lowered
  rw [World.modThread_modThread, World.modThread_threads]
  split <;> rfl

/-- The mutex a thread unlocks is popped, … -/
theorem unlock_leaves {w : World} {tid r : Int} (htid : sc.IsThread tid)
    (htop : (w.threads tid).ownedTopIs r = true) :
    (w.holdings sc).Step (((lowered sc w tid r).modResource r fun m => { m with owner := -1 }).holdings
      sc) := by
  refine holdings_leave htid (fun s => ?_) htop fun u => ?_
  · rw [World.modResource_resources]
    split <;> rfl
  · rw [World.modResource_threads]
    exact lowered_stack sc w tid r u

/-- … and pushed again by the waiter it is handed to. -/
theorem handOver_enters {v : World} {r woken : Int} {i : Nat} (hr : sc.IsResource r)
    (ht : sc.IsThread woken)
    (hroom : (v.threads woken).ownedMutexStack.count < smashMaxResources) :
    ((v.modResource r fun m => { m with owner := -1 }).holdings sc).Step
      ((((v.waiterRemove r i).modResource r fun m => { m with owner := woken }).modThread woken
        fun t => (t.resume.advance).ownedPush r).holdings sc) := by
  refine holdings_enter ht hr (by rw [World.modResource_self]) (fun s => ?_) fun u => ?_
  · rw [World.modThread_resources, World.modResource_resources, World.modResource_resources]
    split
    · rfl
    · exact World.waiterRemove_owner v r i s
  · rw [World.modThread_threads]
    split
    · have hpush := Thread.ownedPush_of_room (t := (v.threads woken).resume.advance) (r := r) hroom
      exact (congrArg LiveArray.toList hpush).trans (LiveArray.toList_push _ _)
    · rfl

/-- **A core action is a sequence of moves of the holdings.** -/
theorem Act.holdings {tid : Int} {a : Action} {w w' : World} (h : Act sc tid a w w')
    (hv : sc.Valid) (hinv : CoreInv sc w) (htid : sc.IsThread tid)
    (hready : (w.threads tid).state = .ready) (hcore : a.type.core = true)
    (hr : a.type.operand ≠ none → sc.IsResource a.resourceId) :
    Roster.Steps (w.holdings sc) (w'.holdings sc) := by
  have hsame : ∀ {v : World}, (∀ r, (v.resources r).owner = (w.resources r).owner) →
      (∀ t, (v.threads t).ownedMutexStack = (w.threads t).ownedMutexStack) →
      Roster.Steps (w.holdings sc) (v.holdings sc) := by
    intro v hown hstack
    rw [holdings_eq hown hstack]
  cases h with
  | @bookkeep f _ hstand _ =>
    exact hsame (fun _ => rfl) (World.modThread_stack hstand.ownedMutexStack)
  | exit =>
    exact hsame (fun _ => rfl) (World.modThread_stack (f := fun t => { t with state := .done }) rfl)
  | lifecycle | take | signal =>
    refine hsame (fun s => ?_) (World.advance_stack _ tid)
    rw [World.advance_resources]
    apply World.modResource_owner
    rfl
  | acquire hk hfree =>
    have hop := hr (by rw [(ActionType.wait_of_locks hk).2]; simp)
    have hroom := hinv.room_stack hv htid hop (by rw [hfree]; have := htid.1; omega)
    refine .single (holdings_enter htid hop hfree (fun s => ?_) fun u => ?_)
    · rw [World.advance_resources, World.modThread_resources, World.modResource_resources]
      split <;> rfl
    · rw [World.advance_stack, World.modThread_threads]
      split
      · rw [World.modResource_threads, Thread.ownedPush_of_room hroom, LiveArray.toList_push]
      · rfl
  | blockMutex =>
    refine hsame (fun s => ?_) fun u => ?_
    · rw [World.arm_resources, boost_resources, World.enqueue_owner]
    · rw [World.arm_stack, boost_field (·.ownedMutexStack) fun _ _ => rfl, World.enqueue_stack]
  | blockSem =>
    refine hsame (fun s => ?_) fun u => ?_
    · rw [World.arm_resources, World.enqueue_owner]
    · rw [World.arm_stack, World.enqueue_stack]
  | grant =>
    refine hsame (World.waiterRemove_owner w _ _) fun u => ?_
    rw [World.advance_stack]
    exact World.modThread_stack (f := fun t => t.resume.advance) rfl u
  | unlock hk hown htop =>
    have hop := hr (by rw [hk]; simp [ActionType.operand])
    have hleave := unlock_leaves htid htop
    by_cases hlive : 0 < ((lowered sc w tid a.resourceId).resources a.resourceId).waiters.count
    · rw [handOver_of_waiters hlive]
      -- The best waiter is blocked, so it is not the thread that unlocks.
      generalize hbest : (lowered sc w tid a.resourceId).bestWaiter a.resourceId = best
      generalize hwoken : ((lowered sc w tid a.resourceId).resources a.resourceId).waiters.cell best
        = woken
      have hmem : woken ∈ (w.resources a.resourceId).waiters.toList := by
        rw [← hwoken, ← hbest]
        exact LiveArray.cell_mem (bestWaiter_lt hlive)
      have hthread := ((hinv.mem_waiters hop).mp hmem).1
      have hne := hinv.ne_of_waits hop hready hmem
      have hroom : ((lowered sc w tid a.resourceId).threads woken).ownedMutexStack.count
          < smashMaxResources := by
        rw [lowered_stack, if_neg hne]
        exact hinv.room_stack hv hthread hop (by rw [hown]; exact Ne.symm hne)
      refine .tail (.single hleave) ?_
      rw [advance_holdings]
      exact handOver_enters hop hthread hroom
    · rw [handOver_of_empty hlive, advance_holdings]
      exact .single hleave
  | condWait _ hk | condSignal hk | condLost hk | condBroadcast hk | mailWake hk =>
    rw [hk] at hcore
    exact absurd hcore (by decide)
  | mail hk | mailBlock hk =>
    rw [ActionType.mails_of_core hcore] at hk
    exact absurd hk (by decide)

/-- A core action leaves every other resource alone. -/
theorem Act.resource_of_ne {tid : Int} {a : Action} {w w' : World} (h : Act sc tid a w w')
    (hcore : a.type.core = true) {s : Int} (hs : s ≠ a.resourceId) :
    w'.resources s = w.resources s := by
  cases h with
  | bookkeep | exit => rfl
  | lifecycle | acquire | take | signal => simp [World.modResource_of_ne _ hs]
  | grant => simp [World.grantSem, World.waiterRemove, World.modResource_of_ne _ hs]
  | blockMutex | blockSem => simp [World.enqueue, World.modResource_of_ne _ hs]
  | unlock =>
    by_cases hlive : 0 < ((lowered sc w tid a.resourceId).resources a.resourceId).waiters.count
    · rw [handOver_of_waiters hlive]
      simp [World.waiterRemove, World.modResource_of_ne _ hs, lowered]
    · rw [handOver_of_empty hlive]
      simp [World.modResource_of_ne _ hs, lowered]
  | condWait _ hk | condSignal hk | condLost hk | condBroadcast hk | mailWake hk =>
    rw [hk] at hcore
    exact absurd hcore (by decide)
  | mail hk | mailBlock hk =>
    rw [ActionType.mails_of_core hcore] at hk
    exact absurd hk (by decide)

/-- A core action leaves nobody waiting for a mutex it frees or a unit it adds. -/
theorem Act.idle {tid : Int} {a : Action} {w w' : World} (h : Act sc tid a w w')
    (hinv : CoreInv sc w) (htid : sc.IsThread tid) (hcore : a.type.core = true)
    (hop : ∀ type, a.type.operand = some type →
      sc.IsResource a.resourceId ∧ sc.resTypes a.resourceId = type)
    (hr : sc.IsResource a.resourceId) :
    (sc.resTypes a.resourceId = .mutex → (w'.resources a.resourceId).owner = -1 →
      (w'.resources a.resourceId).waiters.count = 0) ∧
    (sc.resTypes a.resourceId = .semaphore → 0 < (w'.resources a.resourceId).count →
      (w'.resources a.resourceId).waiters.count = 0) := by
  have hold : (sc.resTypes a.resourceId = .mutex → (w.resources a.resourceId).owner = -1 →
      (w.resources a.resourceId).waiters.count = 0) ∧
      (sc.resTypes a.resourceId = .semaphore → 0 < (w.resources a.resourceId).count →
        (w.resources a.resourceId).waiters.count = 0) := ⟨hinv.free _ hr, hinv.unit _ hr⟩
  cases h with
  | bookkeep | exit => exact hold
  | lifecycle =>
    rw [World.advance_resources, World.modResource_self]
    exact hold
  | acquire hk =>
    rw [World.advance_resources, World.modThread_resources, World.modResource_self]
    refine ⟨fun _ hown => ?_, fun htype => ?_⟩
    · have : tid = -1 := hown
      have := htid.1
      omega
    · rw [(hop _ (ActionType.wait_of_locks hk).2).2] at htype
      exact absurd htype (by decide)
  | blockMutex hk howned =>
    rw [World.arm_resources, boost_resources, World.enqueue, World.modThread_resources,
      World.modResource_self]
    refine ⟨fun _ hown => absurd hown howned, fun htype => ?_⟩
    rw [(hop _ (ActionType.wait_of_locks hk).2).2] at htype
    exact absurd htype (by decide)
  | take hk hunit =>
    rw [World.advance_resources, World.modResource_self]
    refine ⟨fun htype => ?_, fun htype _ => hold.2 htype hunit⟩
    rw [(hop _ (ActionType.wait_of_waits hk).2).2] at htype
    exact absurd htype (by decide)
  | blockSem hk hunit =>
    rw [World.arm_resources, World.enqueue, World.modThread_resources, World.modResource_self]
    refine ⟨fun htype => ?_, fun _ hpos => ?_⟩
    · rw [(hop _ (ActionType.wait_of_waits hk).2).2] at htype
      exact absurd htype (by decide)
    · have : 0 < (w.resources a.resourceId).count := hpos
      omega
  | grant hk hlive =>
    refine ⟨fun htype => ?_, fun htype hpos => ?_⟩
    · rw [(hop .semaphore (by rw [hk]; rfl)).2] at htype
      exact absurd htype (by decide)
    · -- Somebody waited, so there was no unit, and a grant adds none.
      simp only [World.advance_resources, World.grantSem, World.modThread_resources,
        World.waiterRemove, World.modResource_self] at hpos
      exact absurd (hold.2 htype hpos) (by omega)
  | signal hk hempty =>
    rw [World.advance_resources, World.modResource_self]
    exact ⟨fun _ _ => hempty, fun _ _ => hempty⟩
  | unlock hk hown htop =>
    have htype := (hop .mutex (by rw [hk]; rfl)).2
    rw [htype]
    refine ⟨fun _ hfree => ?_, fun h => absurd h (by decide)⟩
    by_cases hlive : 0 < ((lowered sc w tid a.resourceId).resources a.resourceId).waiters.count
    · rw [handOver_of_waiters hlive, World.advance_resources, World.modThread_resources,
        World.modResource_self] at hfree
      have hmem := LiveArray.cell_mem (bestWaiter_lt hlive)
      have hthread := ((hinv.mem_waiters hr).mp hmem).1.1
      have : ((lowered sc w tid a.resourceId).resources a.resourceId).waiters.cell
          ((lowered sc w tid a.resourceId).bestWaiter a.resourceId) = -1 := hfree
      omega
    · rw [handOver_of_empty hlive, World.advance_resources, World.modResource_self]
      show (w.resources a.resourceId).waiters.count = 0
      have : ¬ 0 < (w.resources a.resourceId).waiters.count := hlive
      omega
  | condWait _ hk | condSignal hk | condLost hk | condBroadcast hk | mailWake hk =>
    rw [hk] at hcore
    exact absurd hcore (by decide)
  | mail hk | mailBlock hk =>
    rw [ActionType.mails_of_core hcore] at hk
    exact absurd hk (by decide)

/-! ## Over every run -/

theorem CoreInv.step {w : World} (hc : sc.Core) (hinv : CoreInv sc w) {tid : Int}
    (htid : sc.IsThread tid) (hok : (w.executeStep sc tid).fault = none) :
    CoreInv sc (w.executeStep sc tid).world := by
  have hmove := executeStep_move hok
  rw [hinv.tick_eq] at hmove
  obtain ⟨huntimed, hparking⟩ := hinv.parked.step hc.toMatching
    (fun t ht pc a hat => ActionType.countdown_of_core (hc.core t ht pc a hat)) htid hok
  generalize (w.executeStep sc tid).world = w' at hmove huntimed hparking ⊢
  cases hmove with
  | idle => exact hinv
  | finish =>
    have hhold : ((w.modThread tid fun t => { t with state := .done }).holdings sc)
        = w.holdings sc :=
      holdings_eq (fun _ => rfl) (World.modThread_stack (f := fun t => { t with state := .done }) rfl)
    exact ⟨huntimed, hparking, by rw [hhold]; exact hinv.holdings, hinv.free, hinv.unit⟩
  | @act a _ hready hat hrange hact =>
    have hcore := hc.core tid htid _ _ hat
    have hop := hc.operand tid htid _ _ hat
    have hhold := hact.holdings hc.valid hinv htid hready hcore fun h => by
      obtain ⟨type, htype⟩ := Option.ne_none_iff_exists'.mp h
      exact (hop type htype).1
    refine ⟨huntimed, hparking, hinv.holdings.steps hhold, fun r hr => ?_, fun r hr => ?_⟩
    · by_cases hra : r = a.resourceId
      · subst hra
        exact (hact.idle hinv htid hcore hop hr).1
      · rw [hact.resource_of_ne hcore hra]
        exact hinv.free r hr
    · by_cases hra : r = a.resourceId
      · subst hra
        exact (hact.idle hinv htid hcore hop hr).2
      · rw [hact.resource_of_ne hcore hra]
        exact hinv.unit r hr

theorem reset_holdings (w : World) : (w.reset sc).holdings sc = ⟨fun _ => none, fun _ => []⟩ := by
  refine Roster.ext (funext fun r => ?_) (funext fun t => ?_)
  · by_cases hr : sc.IsResource r
    · simp [World.holdings, World.reset, hr, Resource.reset]
    · simp [World.holdings, hr]
  · by_cases ht : sc.IsThread t
    · simp [World.holdings, World.reset, ht, Thread.reset]
    · simp [World.holdings, ht]

theorem CoreInv.reset (w : World) : CoreInv sc (w.reset sc) := by
  have hparked : Parked sc (w.reset sc) := .reset w
  refine ⟨hparked.untimed, hparked.sound, ?_, fun r hr _ _ => ?_, fun r hr _ _ => ?_⟩
  · rw [reset_holdings]
    exact ⟨fun _ _ => by simp, fun _ => List.nodup_nil⟩
  · simp [World.reset, hr, Resource.reset]
  · simp [World.reset, hr, Resource.reset]

theorem core_reach (hc : sc.Core) {w : World} (h : (callSystem sc).Reach w) : CoreInv sc w := by
  induction h with
  | init hi =>
    obtain ⟨before, rfl⟩ := hi
    exact CoreInv.reset before
  | step _ hst ih =>
    obtain ⟨htid, hok, rfl⟩ := hst
    exact ih.step hc htid hok

/-! ## Integrity -/

/-- Owners and stacks agree, blocked threads and queues agree, nobody waits for what is to be had,
and there is room for every entry. -/
structure Integrity (sc : Scenario) (w : World) : Prop where
  owner_iff : ∀ r, sc.IsResource r → sc.resTypes r = .mutex → ∀ t,
    (0 ≤ t ∧ (w.resources r).owner = t) ↔ (sc.IsThread t ∧ r ∈ (w.threads t).ownedMutexStack.toList)
  owned_once : ∀ r t, sc.IsThread t → r ∈ (w.threads t).ownedMutexStack.toList →
    (w.threads t).ownedMutexStack.toList.count r = 1 ∧
      ∀ u, sc.IsThread u → u ≠ t → r ∉ (w.threads u).ownedMutexStack.toList
  waits_iff : ∀ r t, sc.IsThread t → ((sc.IsResource r ∧ t ∈ (w.resources r).waiters.toList) ↔
    ((w.threads t).blocked = true ∧ (w.threads t).blockedOn = r))
  waits_only : ∀ r, sc.IsResource r → ∀ t ∈ (w.resources r).waiters.toList, sc.IsThread t
  waits_once : ∀ r t, sc.IsResource r → t ∈ (w.resources r).waiters.toList →
    (w.resources r).waiters.toList.count t = 1 ∧
      ∀ s, sc.IsResource s → s ≠ r → t ∉ (w.resources s).waiters.toList
  free_idle : ∀ r, sc.IsResource r → sc.resTypes r = .mutex → (w.resources r).owner = -1 →
    (w.resources r).waiters.toList = []
  unit_idle : ∀ r, sc.IsResource r → sc.resTypes r = .semaphore → 0 < (w.resources r).count →
    (w.resources r).waiters.toList = []
  /-- The overflow test of a wait is false for whoever can run it. -/
  queue_room : ∀ t, sc.Ready w t → ∀ r, sc.IsResource r →
    (w.resources r).waiters.count < smashMaxWaiters
  /-- `owned_push` stores the entry for whoever does not own the mutex yet. -/
  stack_room : ∀ t, sc.IsThread t → ∀ r, sc.IsResource r → (w.resources r).owner ≠ t →
    ((w.threads t).ownedPush r).ownedMutexStack = (w.threads t).ownedMutexStack.push r

/-- **Owners, stacks, queues and blocked threads agree** in every reached state of a core
scenario. -/
theorem core_integrity (hc : sc.Core) {w : World} (h : (callSystem sc).Reach w) :
    Integrity sc w := by
  have hinv := core_reach hc h
  refine ⟨fun r hr _ t => ?_, fun r t ht hmem => ⟨?_, fun u hu hne hmem' => ?_⟩, fun r t ht => ?_,
    fun r hr t hmem => ((hinv.mem_waiters hr).mp hmem).1, fun r t hr hmem => ⟨?_, fun s hs hne hmem' => ?_⟩,
    fun r hr htype hfree => LiveArray.toList_eq_nil.mpr (hinv.free r hr htype hfree),
    fun r hr htype hunit => LiveArray.toList_eq_nil.mpr (hinv.unit r hr htype hunit),
    fun t ht r hr => hinv.room_queue hc.valid ht hr,
    fun t ht r hr hown => Thread.ownedPush_of_room (hinv.room_stack hc.valid ht hr hown)⟩
  · constructor
    · rintro ⟨hpos, hown⟩
      have ht : sc.IsThread t := hown ▸ hinv.owner_isThread hr (by omega)
      exact ⟨ht, (hinv.mem_stack ht).mpr ⟨hr, hown⟩⟩
    · rintro ⟨ht, hmem⟩
      exact ⟨ht.1, ((hinv.mem_stack ht).mp hmem).2⟩
  · exact List.count_eq_one_of_mem (hinv.nodup_stack ht) hmem
  · have hown := ((hinv.mem_stack ht).mp hmem).2
    have hown' := ((hinv.mem_stack hu).mp hmem').2
    exact hne (hown'.symm.trans hown)
  · constructor
    · rintro ⟨hr, hmem⟩
      exact ((hinv.mem_waiters hr).mp hmem).2
    · rintro ⟨hb, rfl⟩
      have hr := hinv.home ht hb
      exact ⟨hr, (hinv.mem_waiters hr).mpr ⟨ht, hb, rfl⟩⟩
  · exact List.count_eq_one_of_mem (hinv.nodup_waiters hr) hmem
  · have hon := ((hinv.mem_waiters hr).mp hmem).2.2
    have hon' := ((hinv.mem_waiters hs).mp hmem').2.2
    exact hne (hon'.symm.trans hon)

theorem abbaDeadlock_matching : abbaDeadlock.Matching :=
  Scenario.matching_of_steps (by decide) (by decide)

theorem abbaDeadlock_core : abbaDeadlock.Core where
  toMatching := abbaDeadlock_matching
  core := forall_actionAt (P := fun _ a => a.type.core = true) (by decide)
  lifecycle := forall_actionAt (P := fun _ a => a.type = .objectInit ∨ a.type = .objectDestroy →
    abbaDeadlock.IsResource a.resourceId) (by decide)

/-- In the deadlock: each thread owns one mutex and waits for the other. -/
theorem core_integrity_abba :
    Integrity abbaDeadlock ((startWorld abbaDeadlock).calls abbaDeadlock [0, 1, 0, 1]) :=
  core_integrity abbaDeadlock_core (reach_calls (by decide +kernel))

end Smash
