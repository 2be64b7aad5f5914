import Smash.Proof.Commute
import Smash.Proof.Completion

/-!
# What the steps behind a thread decide

A thread of a core scenario runs its steps in order, and whatever a thread keeps to itself (its context, the
depth of its stack, the mutexes it owns in the order in which it took them) is written only by its own steps,
each time the same way. So these fields are a function of its `pc`: `innerAfter`, which runs through the
step list and looks at nothing else. `reach_inner` says so of every reached state.

The proof goes over the writes of a step. `Action.coreEdit` extends `Action.edit` to every action of a core
scenario, and `dispatch_core` is the refinement.
-/

set_option autoImplicit false

namespace Smash

variable {sc : Scenario}

/-! ## Every core action is an edit -/

/-- What an action that touches no resource writes to its thread before the thread moves on. -/
def Action.keep (a : Action) (t : Thread) : Thread :=
  match a.type with
  | .sysLock => { t with sysLockDepth := t.sysLockDepth + 1, execCtx := .sysLock }
  | .sysUnlock =>
    { t with
      sysLockDepth := t.sysLockDepth - 1
      execCtx := if 0 < t.sysLockDepth - 1 then .sysLock else .thread }
  | .isrEnter => { t with isrDepth := t.isrDepth + 1, execCtx := .isr }
  | .isrExit =>
    { t with
      isrDepth := t.isrDepth - 1
      execCtx := if t.isrDepth - 1 = 0 then (if 0 < t.sysLockDepth then .sysLock else .thread)
        else t.execCtx }
  | .call =>
    { t with
      stackDepth := t.stackDepth + argOr a.arg 1
      stackWatermark := if t.stackWatermark < t.stackDepth + argOr a.arg 1 then
        t.stackDepth + argOr a.arg 1 else t.stackWatermark }
  | .ret =>
    { t with stackDepth := if t.stackDepth - argOr a.arg 1 < 0 then 0 else t.stackDepth - argOr a.arg 1 }
  | _ => t

/-- The writes of a core action. -/
def Action.coreEdit (a : Action) (tid : Int) (m : Resource) (best : Nat) : Edit :=
  match a.type with
  | .mutexLock | .mutexUnlock | .semWait | .semSignal | .done => a.edit tid m best
  | .objectInit => ⟨tid, (·.advance), a.resourceId, fun m => { m with alive := true }, tid, id⟩
  | .objectDestroy => ⟨tid, (·.advance), a.resourceId, fun m => { m with alive := false }, tid, id⟩
  | _ => ⟨tid, fun t => (a.keep t).advance, a.resourceId, id, tid, id⟩

theorem coreEdit_of_bookkeeping {a : Action} (hk : a.type.bookkeeping = true) (tid : Int) (m : Resource)
    (best : Nat) : a.coreEdit tid m best
      = ⟨tid, fun t => (a.keep t).advance, a.resourceId, id, tid, id⟩ := by
  obtain ⟨type, r, arg⟩ := a
  cases type <;> first | rfl | exact absurd hk (by simp [ActionType.bookkeeping])

theorem coreEdit_of_lockOrWait {a : Action} (hk : a.type.lockOrWait = true) (tid : Int) (m : Resource)
    (best : Nat) : a.coreEdit tid m best = a.edit tid m best := by
  rcases ActionType.lockOrWait_cases hk with h | h | h | h <;> simp only [Action.coreEdit, h]

theorem modResource_id (w : World) (r : Int) : w.modResource r id = w :=
  World.ext rfl (funext fun s => by simp [World.modResource])

theorem blind_keep (a : Action) : Blind a.keep := by
  intro t q
  unfold Action.keep
  split <;> rfl

/-- An action that touches no resource. -/
theorem dispatch_keep {w : World} {tid : Int} {a : Action} (hk : a.type.bookkeeping = true)
    (hcore : a.type.core = true) (hok : (w.dispatch sc tid a).fault = none) :
    (w.dispatch sc tid a).world = (w.modThread tid a.keep).advance tid := by
  obtain ⟨type, r, arg⟩ := a
  change type.bookkeeping = true at hk
  change type.core = true at hcore
  cases type with
  | nop | yield => exact congrArg (World.advance · tid) (World.modThread_id w tid).symm
  | sysLock | ret => rfl
  | sysUnlock | isrEnter | isrExit | call =>
    simp only [World.dispatch, actSysUnlock, actIsrEnter, actIsrExit, actCall] at hok ⊢
    split at hok
    · exact absurd hok (by simp)
    · rw [if_neg ‹_›]
      rfl
  | condWaitTimeout | mbPostTimeout | mbFetchTimeout => exact absurd hcore (by decide)
  | _ => exact absurd hk (by decide)

/-- The actions of a core scenario by what they write. -/
theorem ActionType.core_cases {a : ActionType} (h : a.core = true) :
    a.bookkeeping = true ∨ a = .objectInit ∨ a = .objectDestroy ∨ a = .done ∨ a.lockOrWait = true := by
  cases a <;> first | exact absurd h (by decide) | decide

/-- **A step of a core scenario is an edit**, apart from priorities. -/
theorem dispatch_core (hc : sc.Core) {w : World} (hinv : CoreInv sc w) {tid : Int}
    (htid : sc.IsThread tid) (hready : (w.threads tid).state = .ready) {a : Action}
    (hat : sc.actionAt tid (w.threads tid).pc = some a) (hok : (w.dispatch sc tid a).fault = none) :
    (w.dispatch sc tid a).world.erase
      = w.erase.edit (a.coreEdit tid (w.resources a.resourceId) (w.bestWaiter a.resourceId)) := by
  have hcore := hc.core tid htid _ a hat
  rcases ActionType.core_cases hcore with hk | hk | hk | hk | hk
  · rw [dispatch_keep hk hcore hok, coreEdit_of_bookkeeping hk, edit_quiet, modResource_id, erase_advance,
      erase_modThread (blind_keep a)]
    exact World.modThread_modThread _ tid _ _
  · have hw' : (w.dispatch sc tid a).world = (w.modResource a.resourceId
        fun m => { m with alive := true }).advance tid := by simp [World.dispatch, hk, actObjectInit]
    rw [hw', erase_advance, erase_modResource]
    simp only [Action.coreEdit, hk]
    rw [edit_quiet]
    rfl
  · have halive : (w.resources a.resourceId).alive = true := by
      cases hdead : (w.resources a.resourceId).alive with
      | true => rfl
      | false => simp [World.dispatch, hk, actObjectDestroy, hdead] at hok
    have hw' : (w.dispatch sc tid a).world = (w.modResource a.resourceId
        fun m => { m with alive := false }).advance tid := by
      simp [World.dispatch, hk, actObjectDestroy, halive]
    rw [hw', erase_advance, erase_modResource]
    simp only [Action.coreEdit, hk]
    rw [edit_quiet]
    rfl
  · have hempty : ¬ 0 < (w.threads tid).ownedMutexStack.count := by
      intro hheld
      simp [World.dispatch, hk, actDone, hheld] at hok
    have hw' : (w.dispatch sc tid a).world = w.modThread tid fun t => { t with state := .done } := by
      simp [World.dispatch, hk, actDone, hempty]
    rw [hw', erase_modThread fun _ _ => rfl]
    simp only [Action.coreEdit, hk, Action.edit]
    rw [edit_quiet, modResource_id]
  · rw [coreEdit_of_lockOrWait hk]
    exact dispatch_erase hinv hready hk (hc.isResource_of_lockOrWait htid hat hk) hok

/-! ## What an edit does to a thread -/

theorem edit_threads (w : World) (e : Edit) (u : Int) : (w.edit e).threads u =
    if u = e.tid then e.onTid (if u = e.woken then e.onWoken (w.threads u) else w.threads u)
    else if u = e.woken then e.onWoken (w.threads u) else w.threads u := by
  unfold World.edit
  have hwoken : ((w.modResource e.resId e.onRes).modThread e.woken e.onWoken).threads u
      = if u = e.woken then e.onWoken (w.threads u) else w.threads u := by
    by_cases hu : u = e.woken
    · subst hu
      rw [World.modThread_self, if_pos rfl]
      rfl
    · rw [World.modThread_of_ne _ hu, if_neg hu]
      rfl
  by_cases hu : u = e.tid
  · subst hu
    rw [World.modThread_self, if_pos rfl, hwoken]
  · rw [World.modThread_of_ne _ hu, if_neg hu, hwoken]

/-- Of an edit that wakes nobody only the thread that runs is written. -/
theorem edit_quiet_threads (w : World) (tid r : Int) (f : Thread → Thread) (g : Resource → Resource)
    (u : Int) : (w.edit ⟨tid, f, r, g, tid, id⟩).threads u
      = if u = tid then f (w.threads u) else w.threads u := by
  rw [edit_threads]
  split
  · simp
  · rfl

/-! ## What a thread keeps to itself -/

/-- The fields that a thread's own steps decide. -/
structure Inner where
  context : Context
  stackDepth : Int
  owned : List Int

def Thread.inner (t : Thread) : Inner := ⟨t.context, t.stackDepth, t.ownedMutexStack.toList⟩

/-- What passing an action makes of them. -/
def Action.onInner (a : Action) (i : Inner) : Inner where
  context := a.type.nest i.context
  stackDepth :=
    match a.type with
    | .call => i.stackDepth + argOr a.arg 1
    | .ret => if i.stackDepth - argOr a.arg 1 < 0 then 0 else i.stackDepth - argOr a.arg 1
    | _ => i.stackDepth
  owned :=
    match a.type with
    | .mutexLock => i.owned ++ [a.resourceId]
    | .mutexUnlock => i.owned.dropLast
    | _ => i.owned

/-- What the first `n` of these steps make of them. -/
def innerAfter (steps : Nat → Action) : Nat → Inner
  | 0 => ⟨⟨.thread, 0, 0⟩, 0, []⟩
  | n + 1 => (steps n).onInner (innerAfter steps n)

/-- What a step of `tid` makes of thread `u`. It stays where it is, and is READY there if it was and another
thread ran, or it passes the action that it stands at and is READY; of the READY threads only `tid` itself
passes. -/
inductive Paces (sc : Scenario) (tid u : Int) (t t' : Thread) : Prop
  | stays : t'.pc = t.pc → t'.inner = t.inner → (t'.state = .ready ↔ t.state = .ready ∧ u ≠ tid) →
      Paces sc tid u t t'
  | passes (b : Action) : sc.actionAt u t.pc = some b → t'.pc = t.pc + 1 →
      t'.inner = b.onInner t.inner → t'.state = .ready → (t.state = .ready → u = tid) →
      Paces sc tid u t t'

theorem keep_inner {a : Action} (hk : a.type.bookkeeping = true) (t : Thread) : (a.keep t).inner = a.onInner t.inner := by
  obtain ⟨type, r, arg⟩ := a
  cases type <;> first | rfl | exact absurd hk (by simp [ActionType.bookkeeping])

theorem keep_pc (a : Action) (t : Thread) : (a.keep t).pc = t.pc := by
  unfold Action.keep
  split <;> rfl

theorem keep_state (a : Action) (t : Thread) : (a.keep t).state = t.state := by
  unfold Action.keep
  split <;> rfl

theorem inner_push {t : Thread} {r : Int} (hroom : t.ownedMutexStack.count < smashMaxResources) :
    (t.ownedPush r).inner = ⟨t.context, t.stackDepth, t.ownedMutexStack.toList ++ [r]⟩ := by
  unfold Thread.ownedPush
  rw [if_pos hroom]
  exact congrArg (Inner.mk t.context t.stackDepth) (LiveArray.toList_push _ _)

theorem inner_pop {t : Thread} {r : Int} (htop : t.ownedTopIs r = true) :
    t.ownedPop.inner = ⟨t.context, t.stackDepth, t.ownedMutexStack.toList.dropLast⟩ := by
  have hpos : 0 < t.ownedMutexStack.count := by
    simp only [Thread.ownedTopIs, Bool.and_eq_true, decide_eq_true_eq] at htop
    omega
  rw [LiveArray.toList_dropLast hpos, List.dropLast_concat]
  rfl

/-- Passing an action of these types changes nothing that the thread keeps to itself. -/
theorem onInner_of_plain {a : Action} (hk : a.type = .semWait ∨ a.type = .semSignal ∨
    a.type = .objectInit ∨ a.type = .objectDestroy) (i : Inner) : a.onInner i = i := by
  unfold Action.onInner
  rcases hk with hk | hk | hk | hk <;> rw [hk] <;> rfl

theorem onInner_lock {a : Action} (hk : a.type = .mutexLock) (i : Inner) :
    a.onInner i = ⟨i.context, i.stackDepth, i.owned ++ [a.resourceId]⟩ := by
  unfold Action.onInner
  rw [hk]
  rfl

theorem onInner_unlock {a : Action} (hk : a.type = .mutexUnlock) (i : Inner) :
    a.onInner i = ⟨i.context, i.stackDepth, i.owned.dropLast⟩ := by
  unfold Action.onInner
  rw [hk]
  rfl

section paces

variable (hc : sc.Core) {w : World} (hw : (callSystem sc).Reach w)
include hc hw

theorem not_ready_of_waits {r u : Int} (hr : sc.IsResource r)
    (hmem : u ∈ (w.resources r).waiters.toList) : (w.threads u).state ≠ .ready :=
  Thread.not_ready_of_blocked (((core_reach hc hw).mem_waiters hr).mp hmem).2.1

/-- A waiter passes the lock that it stands at when it is handed the mutex, … -/
theorem paces_handed (tid : Int) {r u : Int} {t : Thread} (hpc : t.pc = (w.threads u).pc)
    (hinner : t.inner = (w.threads u).inner) (hroom : t.ownedMutexStack.count < smashMaxResources)
    (hr : sc.IsResource r) (htype : sc.resTypes r = .mutex)
    (hmem : u ∈ (w.resources r).waiters.toList) :
    Paces sc tid u (w.threads u) ((t.resume.advance).ownedPush r) := by
  obtain ⟨b, hbt, hbr, hlock⟩ := mutex_waiter_standsAt hc hw hr htype hmem
  refine .passes b hbt ?_ ?_ (Thread.ownedPush_fields _ r).1
    fun hready => absurd hready (not_ready_of_waits hc hw hr hmem)
  · rw [pc_ownedPush, ← hpc]
    rfl
  · have hpush : ((t.resume.advance).ownedPush r).inner = _ := inner_push hroom
    rw [hpush, onInner_lock hlock, hbr, ← hinner]
    rfl

/-- … and the wait when it is granted a unit. -/
theorem paces_granted (tid : Int) {r u : Int} {t : Thread} (hpc : t.pc = (w.threads u).pc)
    (hinner : t.inner = (w.threads u).inner) (hr : sc.IsResource r)
    (htype : sc.resTypes r = .semaphore) (hmem : u ∈ (w.resources r).waiters.toList) :
    Paces sc tid u (w.threads u) t.resume.advance := by
  obtain ⟨b, hbt, _, hwait⟩ := sem_waiter_standsAt hc hw hr htype hmem
  refine .passes b hbt (by rw [← hpc]; rfl) ?_ rfl
    fun hready => absurd hready (not_ready_of_waits hc hw hr hmem)
  rw [onInner_of_plain (.inl hwait), ← hinner]
  rfl

omit hc hw in
/-- A step that writes only the thread that runs, … -/
theorem paces_quiet {tid : Int} {f : Thread → Thread} {r : Int} {g : Resource → Resource}
    (hself : Paces sc tid tid (w.threads tid) (f (w.erase.threads tid))) (u : Int) :
    Paces sc tid u (w.threads u) ((w.erase.edit ⟨tid, f, r, g, tid, id⟩).threads u) := by
  rw [edit_quiet_threads]
  split
  · subst u
    exact hself
  · exact .stays rfl rfl ⟨fun h => ⟨h, ‹_›⟩, And.left⟩

/-- … and one that writes a waiter of `r` as well. -/
theorem paces_woken {tid r woken : Int} (hready : (w.threads tid).state = .ready) (hr : sc.IsResource r)
    (hmem : woken ∈ (w.resources r).waiters.toList) {f f' : Thread → Thread} {s : Int}
    {g : Resource → Resource} (hself : Paces sc tid tid (w.threads tid) (f (w.erase.threads tid)))
    (hwoken : woken ≠ tid → Paces sc tid woken (w.threads woken) (f' (w.erase.threads woken))) (u : Int) :
    Paces sc tid u (w.threads u) ((w.erase.edit ⟨tid, f, s, g, woken, f'⟩).threads u) := by
  have hne : tid ≠ woken := Ne.symm ((core_reach hc hw).ne_of_waits hr hready hmem)
  rw [edit_threads]
  by_cases hu : u = tid
  · subst hu
    rw [if_pos rfl, if_neg hne]
    exact hself
  · rw [if_neg hu]
    split
    · subst u
      exact hwoken hu
    · exact .stays rfl rfl ⟨fun h => ⟨h, hu⟩, And.left⟩

/-- **What an action makes of each thread.** -/
theorem dispatch_paces {tid : Int} (htid : sc.IsThread tid)
    (hready : (w.threads tid).state = .ready) {a : Action}
    (hat : sc.actionAt tid (w.threads tid).pc = some a) (hok : (w.dispatch sc tid a).fault = none)
    (u : Int) : Paces sc tid u (w.threads u) ((w.dispatch sc tid a).world.erase.threads u) := by
  have hinv := core_reach hc hw
  have hcore := hc.core tid htid _ a hat
  have hop := hc.operand tid htid _ a hat
  have hact := dispatch_act hok
  have hpass : ∀ {t'}, t'.pc = (w.threads tid).pc + 1 → t'.inner = a.onInner (w.threads tid).inner →
      t'.state = .ready → Paces sc tid tid (w.threads tid) t' := fun hpc hinner hawake =>
    .passes a hat hpc hinner hawake fun _ => rfl
  have hstop : ∀ {t'}, t'.pc = (w.threads tid).pc → t'.inner = (w.threads tid).inner →
      t'.state ≠ .ready → Paces sc tid tid (w.threads tid) t' := fun hpc hinner hasleep =>
    .stays hpc hinner (iff_of_false hasleep fun h => h.2 rfl)
  rw [dispatch_core hc hinv htid hready hat hok]
  generalize (w.dispatch sc tid a).world = w' at hact
  rcases ActionType.core_cases hcore with hk | hk | hk | hk | hk
  · rw [coreEdit_of_bookkeeping hk]
    refine paces_quiet ?_ u
    exact hpass (congrArg (· + 1) (keep_pc a _)) (keep_inner hk _) ((keep_state a _).trans hready)
  · simp only [Action.coreEdit, hk]
    exact paces_quiet (hpass rfl (onInner_of_plain (by simp [hk]) _).symm hready) u
  · simp only [Action.coreEdit, hk]
    exact paces_quiet (hpass rfl (onInner_of_plain (by simp [hk]) _).symm hready) u
  · simp only [Action.coreEdit, Action.edit, hk]
    exact paces_quiet (hstop rfl rfl (by simp)) u
  rw [coreEdit_of_lockOrWait hk]
  rcases ActionType.lockOrWait_cases hk with hk | hk | hk | hk
  · simp only [Action.edit, hk]
    split
    · have hr := (hop .mutex (by rw [hk]; rfl)).1
      have hroom := hinv.room_stack hc.valid htid hr (by have := htid.1; omega)
      refine paces_quiet ?_ u
      refine hpass (congrArg (· + 1) (pc_ownedPush _ _)) ?_ ((Thread.ownedPush_fields _ _).1.trans hready)
      have hpush : ((w.erase.threads tid).ownedPush a.resourceId).inner = _ := inner_push hroom
      rw [onInner_lock hk]
      exact hpush
    · exact paces_quiet (hstop rfl rfl (by simp [Thread.block])) u
  · obtain ⟨hown, htop, _⟩ := hact.unlock_cases hk
    obtain ⟨hr, htype⟩ := hop .mutex (by rw [hk]; rfl)
    have hself : Paces sc tid tid (w.threads tid) (w.erase.threads tid).ownedPop.advance := by
      refine hpass rfl ?_ hready
      have hpop : (w.erase.threads tid).ownedPop.inner = _ := inner_pop htop
      rw [onInner_unlock hk]
      exact hpop
    simp only [Action.edit, hk]
    split
    · rename_i hlive
      have hmem := LiveArray.cell_mem (bestWaiter_lt hlive)
      refine paces_woken hc hw hready hr hmem hself (fun hne => ?_) u
      have hroom := hinv.room_stack hc.valid ((hinv.mem_waiters hr).mp hmem).1 hr
        (by rw [hown]; exact Ne.symm hne)
      exact paces_handed hc hw tid rfl rfl hroom hr htype hmem
    · exact paces_quiet hself u
  · simp only [Action.edit, hk]
    split
    · exact paces_quiet (hpass rfl (onInner_of_plain (.inl hk) _).symm hready) u
    · exact paces_quiet (hstop rfl rfl (by simp [Thread.block])) u
  · obtain ⟨hr, htype⟩ := hop .semaphore (by rw [hk]; rfl)
    have hself : Paces sc tid tid (w.threads tid) (w.erase.threads tid).advance :=
      hpass rfl (onInner_of_plain (.inr (.inl hk)) _).symm hready
    simp only [Action.edit, hk]
    split
    · rename_i hlive
      have hmem := LiveArray.cell_mem (bestWaiter_lt hlive)
      refine paces_woken hc hw hready hr hmem hself (fun _ => ?_) u
      exact paces_granted hc hw tid rfl rfl hr htype hmem
    · exact paces_quiet hself u

theorem executeStep_paces {tid : Int} (htid : sc.IsThread tid)
    (hok : (w.executeStep sc tid).fault = none) (u : Int) :
    Paces sc tid u (w.threads u) ((w.executeStep sc tid).world.threads u) := by
  rcases executeStep_cases_of_tick (core_reach hc hw).tick_eq hok
    with ⟨hidle, hw'⟩ | ⟨_, _, hw'⟩ | ⟨a, hready, hat, _, hfault, hw'⟩
  · rw [hw']
    exact .stays rfl rfl ⟨fun h => ⟨h, fun hu => hidle (hu ▸ h)⟩, And.left⟩
  · rw [hw', World.modThread_threads]
    split
    · subst u
      exact .stays rfl rfl (iff_of_false (by simp) fun h => h.2 rfl)
    · exact .stays rfl rfl ⟨fun h => ⟨h, ‹_›⟩, And.left⟩
  · rw [hw']
    cases dispatch_paces hc hw htid hready hat hfault u with
    | stays hpc hinner hready => exact .stays hpc hinner hready
    | passes b hbt hpc hinner hawake hself => exact .passes b hbt hpc hinner hawake hself

/-- **What a thread keeps to itself is decided by the steps behind it.** -/
theorem reach_inner {t : Int} (ht : sc.IsThread t) :
    (w.threads t).inner = innerAfter (sc.steps t) (w.threads t).pc := by
  induction hw with
  | init hi =>
    obtain ⟨before, rfl⟩ := hi
    simp only [World.reset, if_pos ht, Thread.reset, Thread.inner, LiveArray.toList_clear]
    rfl
  | step hr hst ih =>
    obtain ⟨htid, hok, rfl⟩ := hst
    cases executeStep_paces hc hr htid hok t with
    | stays hpc hinner => rw [hpc, hinner, ih]
    | passes b hbt hpc hinner =>
      rw [hpc, hinner, ih, innerAfter, (steps_of_actionAt hbt).1]

end paces

end Smash
