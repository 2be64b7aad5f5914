import Smash.Proof.LockOrder
import Smash.Proof.Sources

/-!
# Steps as edits

In a scenario of untimed locks, unlocks, waits and signals a step that does not fail is, apart from
priorities, three writes: to the resource of the action, to the thread that runs it, and to the waiter it
wakes. Which writes they are depends on that resource and on which waiter is the best one, and on nothing
else (`Action.edit`). `World.erase` forgets priorities, and `executeStep_erase` is the refinement: the step
on the live state is the edit on the erased one. Edits with different targets commute (`edit_comm`).
-/

set_option autoImplicit false

namespace Smash

variable {sc : Scenario}

/-! ## Scenarios of locks and waits -/

def ActionType.lockOrWait (a : ActionType) : Bool :=
  a = .mutexLock || a = .mutexUnlock || a = .semWait || a = .semSignal

/-- Untimed locks and unlocks of mutexes, waits for and signals to semaphores. -/
structure Scenario.LocksAndWaits (sc : Scenario) : Prop extends sc.Matching where
  only : ∀ t, sc.IsThread t → ∀ pc a, sc.actionAt t pc = some a → a.type.lockOrWait = true

theorem ActionType.lockOrWait_cases {a : ActionType} (h : a.lockOrWait = true) :
    a = .mutexLock ∨ a = .mutexUnlock ∨ a = .semWait ∨ a = .semSignal := by
  simpa [ActionType.lockOrWait, or_assoc] using h

theorem Scenario.LocksAndWaits.core (hl : sc.LocksAndWaits) : sc.Core where
  toMatching := hl.toMatching
  core t ht pc a hat := by
    rcases ActionType.lockOrWait_cases (hl.only t ht pc a hat) with hk | hk | hk | hk <;>
      (rw [hk]; rfl)
  lifecycle t ht pc a hat htype := by
    rcases ActionType.lockOrWait_cases (hl.only t ht pc a hat) with hk | hk | hk | hk <;>
      simp [hk] at htype

/-- Every action names a resource. -/
theorem Scenario.Core.isResource_of_lockOrWait (hc : sc.Core) {t : Int} (ht : sc.IsThread t)
    {pc : Nat} {a : Action} (hat : sc.actionAt t pc = some a) (hk : a.type.lockOrWait = true) :
    sc.IsResource a.resourceId := by
  obtain ⟨type, htype⟩ : ∃ type, a.type.operand = some type := by
    rcases ActionType.lockOrWait_cases hk with hk | hk | hk | hk <;> exact ⟨_, by rw [hk]; rfl⟩
  exact (hc.operand t ht pc a hat type htype).1

theorem Scenario.LocksAndWaits.isResource (hl : sc.LocksAndWaits) {t : Int} (ht : sc.IsThread t)
    {pc : Nat} {a : Action} (hat : sc.actionAt t pc = some a) : sc.IsResource a.resourceId := by
  exact hl.core.isResource_of_lockOrWait ht hat (hl.only t ht pc a hat)

/-! ## Forgetting priorities -/

/-- The live state with every priority zero. -/
def World.erase (w : World) : World where
  threads t := { w.threads t with priority := 0 }
  resources := w.resources

/-- A write that neither reads nor writes the priority. -/
def Blind (f : Thread → Thread) : Prop := ∀ t q, f { t with priority := q } = { f t with priority := q }

theorem erase_modThread {f : Thread → Thread} (hf : Blind f) (w : World) (t : Int) :
    (w.modThread t f).erase = w.erase.modThread t f := by
  refine World.ext (funext fun u => ?_) rfl
  show { (w.modThread t f).threads u with priority := 0 } = (w.erase.modThread t f).threads u
  rw [World.modThread_threads, World.modThread_threads]
  split
  · exact (hf _ 0).symm
  · rfl

/-- A write of the priority alone is forgotten. -/
theorem erase_modThread_priority (w : World) (t q : Int) :
    (w.modThread t fun x => { x with priority := q }).erase = w.erase := by
  refine World.ext (funext fun u => ?_) rfl
  show { (w.modThread t fun x => { x with priority := q }).threads u with priority := 0 }
    = { w.threads u with priority := 0 }
  rw [World.modThread_threads]
  split
  · subst u; rfl
  · rfl

theorem erase_modResource (w : World) (r : Int) (f : Resource → Resource) :
    (w.modResource r f).erase = w.erase.modResource r f := rfl

theorem erase_boost (p : Int) (fuel : Nat) (cur : Int) (w : World) :
    (boost sc p fuel cur w).erase = w.erase := by
  refine World.ext (funext fun u => ?_) (by exact boost_resources p fuel cur w)
  exact boost_field (fun t => { t with priority := (0 : Int) }) fun _ _ => rfl

theorem blind_advance : Blind Thread.advance := fun _ _ => rfl

theorem blind_block (state : ThreadState) (r : Int) : Blind (·.block state r) := fun _ _ => rfl

theorem blind_ownedPop : Blind Thread.ownedPop := fun _ _ => rfl

theorem blind_resume : Blind Thread.resume := fun _ _ => rfl

theorem blind_ownedPush (r : Int) : Blind (·.ownedPush r) := by
  intro t q
  unfold Thread.ownedPush
  dsimp only
  split <;> rfl

theorem Blind.comp {f g : Thread → Thread} (hf : Blind f) (hg : Blind g) : Blind fun t => g (f t) :=
  fun t q => by
    show g (f { t with priority := q }) = { g (f t) with priority := q }
    rw [hf, hg]

/-! ## Edits -/

/-- One write to a resource, one to the thread that runs, one to the thread it wakes. -/
structure Edit where
  tid : Int
  onTid : Thread → Thread
  resId : Int
  onRes : Resource → Resource
  woken : Int
  onWoken : Thread → Thread

def World.edit (w : World) (e : Edit) : World :=
  ((w.modResource e.resId e.onRes).modThread e.woken e.onWoken).modThread e.tid e.onTid

/-- What an action writes: `m` is its resource, `best` the index of the waiter to wake. A thread that
wakes nobody writes to itself twice. -/
def Action.edit (a : Action) (tid : Int) (m : Resource) (best : Nat) : Edit :=
  let quiet (onTid : Thread → Thread) (onRes : Resource → Resource) : Edit :=
    ⟨tid, onTid, a.resourceId, onRes, tid, id⟩
  match a.type with
  | .mutexLock =>
    if m.owner = -1 then
      quiet (fun t => (t.ownedPush a.resourceId).advance) fun m => { m with owner := tid }
    else quiet (·.block .blockedMutex a.resourceId) fun m => { m with waiters := m.waiters.push tid }
  | .mutexUnlock =>
    if 0 < m.waiters.count then
      ⟨tid, fun t => t.ownedPop.advance, a.resourceId,
        fun m' => { m' with waiters := m'.waiters.swapRemove best, owner := m.waiters.cell best },
        m.waiters.cell best, fun t => (t.resume.advance).ownedPush a.resourceId⟩
    else quiet (fun t => t.ownedPop.advance) fun m => { m with owner := -1 }
  | .semWait =>
    if 0 < m.count then quiet (·.advance) fun m => { m with count := m.count - 1 }
    else quiet (·.block .blockedSem a.resourceId) fun m => { m with waiters := m.waiters.push tid }
  | .semSignal =>
    if 0 < m.waiters.count then
      ⟨tid, (·.advance), a.resourceId, fun m => { m with waiters := m.waiters.swapRemove best },
        m.waiters.cell best, fun t => t.resume.advance⟩
    else quiet (·.advance) fun m => { m with count := m.count + 1 }
  | _ => quiet (fun t => { t with state := .done }) id

theorem nextAction_of_some {w : World} {t : Int} {a : Action}
    (hat : sc.actionAt t (w.threads t).pc = some a) : threadNextAction sc w t = a := by
  simp [threadNextAction, hat]

/-- Past its last step the next action of a thread is `ACT_DONE`, on no resource. -/
theorem nextAction_of_none {w : World} {t : Int} (hat : sc.actionAt t (w.threads t).pc = none) :
    threadNextAction sc w t = ⟨.done, -1, 0⟩ := by
  simp [threadNextAction, hat]

/-- The writes of a thread's next action. -/
def World.nextEdit (sc : Scenario) (w : World) (tid : Int) : Edit :=
  let a := threadNextAction sc w tid
  a.edit tid (w.resources a.resourceId) (w.bestWaiter a.resourceId)

theorem World.modThread_comm (w : World) {t u : Int} (h : t ≠ u) (f g : Thread → Thread) :
    (w.modThread t f).modThread u g = (w.modThread u g).modThread t f := by
  refine World.ext (funext fun v => ?_) rfl
  simp only [World.modThread_threads]
  by_cases hv : v = t
  · subst hv
    simp [h]
  · by_cases hu : v = u
    · subst hu
      simp [Ne.symm h]
    · simp [hv, hu]

theorem World.modResource_comm (w : World) {r s : Int} {f g : Resource → Resource}
    (h : r ≠ s ∨ f = id) : (w.modResource r f).modResource s g = (w.modResource s g).modResource r f := by
  refine World.ext rfl (funext fun v => ?_)
  simp only [World.modResource_resources]
  rcases h with h | rfl
  · by_cases hv : v = r
    · subst hv
      simp [h]
    · by_cases hu : v = s
      · subst hu
        simp [Ne.symm h]
      · simp [hv, hu]
  · by_cases hv : v = r
    · subst hv
      by_cases hs : v = s
      · subst hs
        simp
      · simp [hs]
    · by_cases hu : v = s
      · subst hu
        simp [hv]
      · simp [hv, hu]

/-- **Edits with different targets commute.** -/
theorem edit_comm (w : World) {e e' : Edit} (hres : e.resId ≠ e'.resId ∨ e.onRes = id)
    (htid : e.tid ≠ e'.tid) (hleft : e.tid ≠ e'.woken) (hright : e.woken ≠ e'.tid)
    (hwoken : e.woken ≠ e'.woken) : (w.edit e).edit e' = (w.edit e').edit e := by
  have hswap : ∀ (v : World) (t r : Int) (f : Thread → Thread) (g : Resource → Resource),
      (v.modThread t f).modResource r g = (v.modResource r g).modThread t f := fun _ _ _ _ _ => rfl
  unfold World.edit
  rw [hswap, hswap, World.modResource_comm _ hres, World.modThread_comm _ hleft,
    World.modThread_comm _ hwoken, World.modThread_comm _ htid, World.modThread_comm _ hright,
    hswap, hswap]

/-! ## A step is an edit -/

/-- The best waiter depends on the queue and on the priorities in it. -/
theorem bestWaiter_congr {v w : World} {r : Int} (hres : v.resources r = w.resources r)
    (hprio : ∀ u ∈ (w.resources r).waiters.toList, v.prio u = w.prio u) :
    v.bestWaiter r = w.bestWaiter r := by
  unfold World.bestWaiter
  rw [hres]
  exact bestIdx_congr fun i hi => hprio _ (LiveArray.cell_mem hi)

/-- The thread that unlocks is not among the waiters, so its own priority does not matter. -/
theorem bestWaiter_lowered {w : World} (hinv : CoreInv sc w) {tid r : Int} (hr : sc.IsResource r)
    (hready : (w.threads tid).state = .ready) :
    (lowered sc w tid r).bestWaiter r = w.bestWaiter r := by
  refine bestWaiter_congr rfl fun u hu => ?_
  rw [prio_lowered, Function.update_of_ne (hinv.ne_of_waits hr hready hu)]

theorem erase_enqueue (w : World) (tid r : Int) (state : ThreadState) :
    (w.enqueue tid r state).erase = w.erase.enqueue tid r state := by
  unfold World.enqueue
  rw [erase_modThread (blind_block state r)]
  rfl

theorem erase_advance (w : World) (tid : Int) : (w.advance tid).erase = w.erase.advance tid :=
  erase_modThread blind_advance w tid

theorem erase_lowered (w : World) (tid r : Int) :
    (lowered sc w tid r).erase = w.erase.modThread tid (·.ownedPop) := by
  unfold lowered
  rw [erase_modThread_priority, erase_modThread blind_ownedPop]

/-- A write to the same thread twice, the first time of nothing. -/
theorem edit_quiet (w : World) (tid r : Int) (f : Thread → Thread) (g : Resource → Resource) :
    w.edit ⟨tid, f, r, g, tid, id⟩ = (w.modResource r g).modThread tid f := by
  unfold World.edit
  rw [World.modThread_modThread]
  rfl

theorem erase_unlock {w : World} (hinv : CoreInv sc w) {tid : Int} {a : Action}
    (hk : a.type = .mutexUnlock) (hready : (w.threads tid).state = .ready)
    (hr : sc.IsResource a.resourceId) :
    ((handOver (lowered sc w tid a.resourceId) a.resourceId).1.advance tid).erase
      = w.erase.edit (a.edit tid (w.resources a.resourceId) (w.bestWaiter a.resourceId)) := by
  have hblind : Blind fun t => (t.resume.advance).ownedPush a.resourceId :=
    (blind_resume.comp blind_advance).comp (blind_ownedPush _)
  simp only [Action.edit, hk]
  by_cases hlive : 0 < (w.resources a.resourceId).waiters.count
  · have hlive' : 0 < ((lowered sc w tid a.resourceId).resources a.resourceId).waiters.count := hlive
    have hne := hinv.ne_of_waits hr hready (LiveArray.cell_mem (bestWaiter_lt hlive))
    rw [handOver_of_waiters hlive', bestWaiter_lowered hinv hr hready, if_pos hlive, erase_advance,
      erase_modThread hblind, erase_modResource]
    generalize w.bestWaiter a.resourceId = best at hne ⊢
    have hwoken : ((lowered sc w tid a.resourceId).resources a.resourceId).waiters.cell best
        = (w.resources a.resourceId).waiters.cell best := rfl
    have herase : ((lowered sc w tid a.resourceId).waiterRemove a.resourceId best).erase
        = (w.erase.modThread tid (·.ownedPop)).waiterRemove a.resourceId best :=
      congrArg (World.waiterRemove · a.resourceId best) (erase_lowered w tid a.resourceId)
    rw [hwoken, herase]
    generalize (w.resources a.resourceId).waiters.cell best = woken at hne ⊢
    -- The pop comes before the hand-over, and the writes to the resource are made one by one.
    have hres : ((w.erase.modThread tid (·.ownedPop)).waiterRemove a.resourceId best).modResource
        a.resourceId (fun m => { m with owner := woken })
        = (w.erase.modResource a.resourceId fun m =>
            { m with waiters := m.waiters.swapRemove best, owner := woken }).modThread tid
              (·.ownedPop) := by
      refine World.ext rfl (funext fun s => ?_)
      simp only [World.waiterRemove, World.modThread_resources, World.modResource_resources]
      split <;> simp_all
    rw [hres, World.modThread_comm _ (Ne.symm hne)]
    exact World.modThread_modThread _ tid _ _
  · have hlive' : ¬ 0 < ((lowered sc w tid a.resourceId).resources a.resourceId).waiters.count := hlive
    rw [handOver_of_empty hlive', if_neg hlive, erase_advance, edit_quiet, erase_modResource,
      erase_lowered]
    exact World.modThread_modThread
      (w.erase.modResource a.resourceId fun m => { m with owner := -1 }) tid (·.ownedPop) (·.advance)

/-- An action of the four types is an edit, apart from priorities. -/
theorem dispatch_erase {w : World} (hinv : CoreInv sc w) {tid : Int}
    (hready : (w.threads tid).state = .ready) {a : Action} (honly : a.type.lockOrWait = true)
    (hr : sc.IsResource a.resourceId) (hok : (w.dispatch sc tid a).fault = none) :
    (w.dispatch sc tid a).world.erase
      = w.erase.edit (a.edit tid (w.resources a.resourceId) (w.bestWaiter a.resourceId)) := by
  have hact := dispatch_act hok
  generalize (w.dispatch sc tid a).world = w' at hact ⊢
  rcases ActionType.lockOrWait_cases honly with hk | hk | hk | hk
  · simp only [Action.edit, hk]
    rcases hact.lock_cases hk with ⟨hfree, rfl⟩ | ⟨hown, _, rfl⟩
    · rw [if_pos hfree, edit_quiet, erase_advance, erase_modThread (blind_ownedPush _)]
      exact World.modThread_modThread _ tid _ _
    · rw [if_neg hown, edit_quiet, erase_boost, erase_enqueue]
      rfl
  · obtain ⟨_, _, rfl⟩ := hact.unlock_cases hk
    exact erase_unlock hinv hk hready hr
  · simp only [Action.edit, hk]
    rcases hact.wait_cases hk with ⟨hunit, rfl⟩ | ⟨hunit, rfl⟩
    · rw [if_pos hunit, edit_quiet, erase_advance]
      rfl
    · rw [if_neg hunit, edit_quiet, erase_enqueue]
      rfl
  · simp only [Action.edit, hk]
    rcases hact.signal_cases hk with ⟨hlive, rfl⟩ | ⟨hlive, rfl⟩
    · rw [if_pos hlive, erase_advance, World.grantSem, erase_modThread (blind_resume.comp blind_advance)]
      rfl
    · rw [if_neg hlive, edit_quiet, erase_advance]
      rfl

/-- **A step is an edit**, apart from priorities. -/
theorem executeStep_erase (hl : sc.LocksAndWaits) {w : World} (hinv : CoreInv sc w) {tid : Int}
    (htid : sc.IsThread tid) (hready : (w.threads tid).state = .ready)
    (hok : (w.executeStep sc tid).fault = none) :
    (w.executeStep sc tid).world.erase = w.erase.edit (w.nextEdit sc tid) := by
  rcases executeStep_cases_of_tick hinv.tick_eq hok
    with ⟨hidle, _⟩ | ⟨_, hat, hw'⟩ | ⟨a, _, hat, _, hfault, hw'⟩
  · exact absurd hready hidle
  · simp only [World.nextEdit, nextAction_of_none hat, Action.edit]
    rw [hw', edit_quiet, erase_modThread fun _ _ => rfl]
    refine congrArg (World.modThread · tid _) ?_
    exact World.ext rfl (funext fun s => by simp [World.modResource])
  · simp only [World.nextEdit, nextAction_of_some hat]
    rw [hw']
    exact dispatch_erase hinv hready (hl.only tid htid _ a hat) (hl.isResource htid hat) hfault

end Smash
