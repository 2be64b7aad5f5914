import Smash.Proof.Edits

/-!
# Independent actions

`smash_dpor_dependent` compares the resources that two actions name. An action reaches further than that:
a lock that blocks lifts priorities along a chain of owners, and the choice an unlock or a signal makes
among its waiters depends on priorities. When the first lifts a waiter over the one that the second would
wake, one `Overtakes` the other, and the order of the two decides who is woken. There is no other case:
two independent actions commute if and only if neither overtakes the other (`stepsCommute_iff`).
-/

set_option autoImplicit false

namespace Smash

open Inheritance

variable {sc : Scenario}

/-! ## What an edit writes -/

section edit

variable {w : World} {e : Edit}

theorem edit_threads_of_ne {u : Int} (htid : u ≠ e.tid) (hwoken : u ≠ e.woken) :
    (w.edit e).threads u = w.threads u := by
  unfold World.edit
  rw [World.modThread_of_ne _ htid, World.modThread_of_ne _ hwoken]
  rfl

theorem edit_threads_woken (h : e.woken ≠ e.tid) :
    (w.edit e).threads e.woken = e.onWoken (w.threads e.woken) := by
  unfold World.edit
  rw [World.modThread_of_ne _ h, World.modThread_self]
  rfl

theorem edit_resources_of_ne {s : Int} (h : s ≠ e.resId) :
    (w.edit e).resources s = w.resources s := by
  unfold World.edit
  rw [World.modThread_resources, World.modThread_resources, World.modResource_of_ne _ h]

theorem edit_resource_field {α : Type} (g : Resource → α) (h : ∀ m, g (e.onRes m) = g m) (s : Int) :
    g ((w.edit e).resources s) = g (w.resources s) :=
  World.modResource_field g (h _) s

end edit

/-- The action wakes a waiter of its resource. -/
def Action.wakes (a : Action) (m : Resource) : Prop :=
  (a.type = .mutexUnlock ∨ a.type = .semSignal) ∧ 0 < m.waiters.count

section action

variable (a : Action) (tid : Int) (m : Resource) (best : Nat)

@[simp] theorem Action.edit_tid : (a.edit tid m best).tid = tid := by
  unfold Action.edit
  dsimp only
  repeat' split
  all_goals rfl

@[simp] theorem Action.edit_resId : (a.edit tid m best).resId = a.resourceId := by
  unfold Action.edit
  dsimp only
  repeat' split
  all_goals rfl

variable {a tid m best}

/-- Which waiter is the best one matters only to an action that wakes it. -/
theorem Action.edit_of_not_wakes (h : ¬ a.wakes m) (best' : Nat) :
    a.edit tid m best' = a.edit tid m best := by
  unfold Action.edit
  dsimp only
  split
  · rfl
  · rw [if_neg fun hlive => h ⟨.inl ‹_›, hlive⟩, if_neg fun hlive => h ⟨.inl ‹_›, hlive⟩]
  · rfl
  · rw [if_neg fun hlive => h ⟨.inr ‹_›, hlive⟩, if_neg fun hlive => h ⟨.inr ‹_›, hlive⟩]
  · rfl

theorem Action.edit_woken_of_not_wakes (h : ¬ a.wakes m) : (a.edit tid m best).woken = tid := by
  unfold Action.edit
  dsimp only
  split
  · split <;> rfl
  · rw [if_neg fun hlive => h ⟨.inl ‹_›, hlive⟩]
  · split <;> rfl
  · rw [if_neg fun hlive => h ⟨.inr ‹_›, hlive⟩]
  · rfl

/-- The best waiter is woken, and made READY. -/
theorem Action.edit_woken (h : a.wakes m) : (a.edit tid m best).woken = m.waiters.cell best ∧
    ∀ t, ((a.edit tid m best).onWoken t).state = .ready := by
  unfold Action.edit
  obtain ⟨hk | hk, hlive⟩ := h
  · simp only [hk, if_pos hlive]
    refine ⟨trivial, fun t => ?_⟩
    exact (Thread.ownedPush_fields t.resume.advance a.resourceId).1
  · simp only [hk, if_pos hlive]
    exact ⟨trivial, fun _ => rfl⟩

end action

/-! ## When a step fails -/

/-- Nobody is in an interrupt or in a lock section, and no object is destroyed. -/
structure Calm (sc : Scenario) (w : World) : Prop where
  context : ∀ t, sc.IsThread t → (w.threads t).execCtx = .thread
  alive : ∀ r, sc.IsResource r → (w.resources r).alive = true

theorem Calm.step (hl : sc.LocksAndWaits) {w : World} (hinv : CoreInv sc w) {tid : Int}
    (htid : sc.IsThread tid) (hok : (w.executeStep sc tid).fault = none) (h : Calm sc w) :
    Calm sc (w.executeStep sc tid).world := by
  rcases executeStep_cases_of_tick hinv.tick_eq hok
    with ⟨_, hw'⟩ | ⟨_, _, hw'⟩ | ⟨a, _, hat, _, hfault, hw'⟩
  · rw [hw']
    exact h
  · rw [hw']
    refine ⟨fun t ht => ?_, h.alive⟩
    refine Eq.trans ?_ (h.context t ht)
    apply World.modThread_field (·.execCtx)
    rfl
  · rw [hw']
    have hact := dispatch_act hfault
    obtain ⟨hbusy, hlife⟩ : a.type.bookkeeping = false ∧
        ¬ (a.type = .objectInit ∨ a.type = .objectDestroy) := by
      rcases ActionType.lockOrWait_cases (hl.only tid htid _ a hat) with hk | hk | hk | hk <;>
        simp [hk, ActionType.bookkeeping]
    refine ⟨fun t ht => ?_, fun r hr => (hact.alive hlife r).trans (h.alive r hr)⟩
    exact (congrArg Context.execCtx (hact.context hbusy t)).trans (h.context t ht)

theorem reach_calm (hl : sc.LocksAndWaits) {w : World} (h : (callSystem sc).Reach w) :
    Calm sc w := by
  induction h with
  | init hi =>
    obtain ⟨before, rfl⟩ := hi
    refine ⟨fun t ht => ?_, fun r hr => ?_⟩
    · simp [World.reset, ht, Thread.reset]
    · simp [World.reset, hr, Resource.reset]
  | step hr hst ih =>
    obtain ⟨htid, hok, rfl⟩ := hst
    exact ih.step hl (core_reach hl.core hr) htid hok

/-- What the next action of a READY thread needs in order not to fail. -/
def World.permits (sc : Scenario) (w : World) (tid : Int) : Prop :=
  let a := threadNextAction sc w tid
  match a.type with
  | .mutexLock => (w.resources a.resourceId).owner ≠ tid
  | .mutexUnlock => (w.resources a.resourceId).owner = tid ∧
      (w.threads tid).ownedTopIs a.resourceId = true
  | _ => True

theorem executeStep_ok_iff (hl : sc.LocksAndWaits) {w : World} (hw : (callSystem sc).Reach w)
    {tid : Int} (hready : sc.Ready w tid) :
    (w.executeStep sc tid).fault = none ↔ w.permits sc tid := by
  have hinv := core_reach hl.core hw
  have hcalm := reach_calm hl hw
  obtain ⟨htid, hstate⟩ := hready
  cases hat : sc.actionAt tid (w.threads tid).pc with
  | none =>
    have hok : (w.executeStep sc tid).fault = none :=
      executeStep_ok hl.valid htid hinv.tick_eq fun _ a ha => by simp [hat] at ha
    simp [World.permits, nextAction_of_none hat, hok]
  | some a =>
    have hr := hl.isResource htid hat
    have hroom := hinv.room_queue hl.valid ⟨htid, hstate⟩ hr
    have hctx := hcalm.context tid htid
    have halive := hcalm.alive _ hr
    rw [(executeStep_act hstate hat (.inr hr)).2, hinv.tick_eq]
    unfold World.permits
    rw [nextAction_of_some hat]
    rcases ActionType.lockOrWait_cases (hl.only tid htid _ a hat) with hk | hk | hk | hk
    · simp only [World.dispatch, hk, Outcome.finish_fault, Outcome.advanceIfTrue_fault]
      rw [mutexLock_fault hroom]
      have := htid.1
      refine ⟨fun h => ?_, fun h => ⟨halive, hctx, .inr h⟩⟩
      rcases h.2.2 with hfree | hne
      · omega
      · exact hne
    · have hfault : (w.dispatch sc tid a).fault = (mutexUnlock sc w tid a.resourceId).fault := by
        simp [World.dispatch, hk]
      rw [hfault, mutexUnlock_fault]
      simp only [hk]
      exact ⟨fun h => h.2, fun h => ⟨halive, h⟩⟩
    · simp only [World.dispatch, hk, Outcome.finish_fault, Outcome.advanceIfTrue_fault]
      rw [semWait_fault hroom]
      exact ⟨fun _ => trivial, fun _ => ⟨halive, hctx⟩⟩
    · have hfault : (w.dispatch sc tid a).fault = (semSignal w tid a.resourceId).fault := by
        simp [World.dispatch, hk]
      rw [hfault, semSignal_fault]
      simp only [hk]
      exact ⟨fun _ => trivial, fun _ => halive⟩

/-! ## What a step leaves to the other thread -/

/-- The thread `q` and the resource that its next action names are the same, up to its priority. -/
structure SameFor (sc : Scenario) (w w' : World) (q : Int) : Prop where
  thread : w'.erase.threads q = w.erase.threads q
  resource : w'.resources (threadNextAction sc w q).resourceId
    = w.resources (threadNextAction sc w q).resourceId

namespace SameFor

variable {w w' : World} {q : Int}

theorem field {α : Type} (g : Thread → α) (hg : ∀ t p, g { t with priority := p } = g t)
    (h : SameFor sc w w' q) : g (w'.threads q) = g (w.threads q) := by
  have herased : g (w'.erase.threads q) = g (w.erase.threads q) := congrArg g h.thread
  exact (hg _ 0).symm.trans (herased.trans (hg _ 0))

theorem state (h : SameFor sc w w' q) : (w'.threads q).state = (w.threads q).state :=
  h.field (·.state) fun _ _ => rfl

theorem ready (h : SameFor sc w w' q) (hready : sc.Ready w q) : sc.Ready w' q :=
  ⟨hready.1, h.state.trans hready.2⟩

theorem next (h : SameFor sc w w' q) : threadNextAction sc w' q = threadNextAction sc w q := by
  have hpc : (w'.threads q).pc = (w.threads q).pc := h.field (·.pc) fun _ _ => rfl
  unfold threadNextAction
  rw [hpc]

theorem permits_iff (h : SameFor sc w w' q) : w'.permits sc q ↔ w.permits sc q := by
  have htop : ∀ r, (w'.threads q).ownedTopIs r = (w.threads q).ownedTopIs r := fun r =>
    h.field (·.ownedTopIs r) fun _ _ => rfl
  unfold World.permits
  dsimp only
  rw [h.next, h.resource, htop]

/-- The same writes, as long as the same waiter is the best one. -/
theorem nextEdit (h : SameFor sc w w' q)
    (hbest : (threadNextAction sc w q).wakes (w.resources (threadNextAction sc w q).resourceId) →
      w'.bestWaiter (threadNextAction sc w q).resourceId
        = w.bestWaiter (threadNextAction sc w q).resourceId) :
    w'.nextEdit sc q = w.nextEdit sc q := by
  unfold World.nextEdit
  dsimp only
  rw [h.next, h.resource]
  by_cases hwakes : (threadNextAction sc w q).wakes
    (w.resources (threadNextAction sc w q).resourceId)
  · rw [hbest hwakes]
  · exact Action.edit_of_not_wakes hwakes _

end SameFor

theorem nextDependent_comm (w : World) (p q : Int) :
    nextDependent sc w p q = nextDependent sc w q p := by
  unfold nextDependent dependent
  dsimp only
  rw [Bool.and_comm]
  by_cases heq : (threadNextAction sc w p).resourceId = (threadNextAction sc w q).resourceId
  · rw [heq]
  · rw [if_pos (.inl heq), if_pos (.inl (Ne.symm heq))]

/-- The next action of a thread is one of its list, or the one past the end. -/
theorem nextAction_cases (hl : sc.LocksAndWaits) {w : World} {t : Int} (ht : sc.IsThread t) :
    (threadNextAction sc w t).type.lockOrWait = true ∧
        sc.IsResource (threadNextAction sc w t).resourceId ∨
      threadNextAction sc w t = ⟨.done, -1, 0⟩ := by
  cases hat : sc.actionAt t (w.threads t).pc with
  | none => exact .inr (nextAction_of_none hat)
  | some a =>
    rw [nextAction_of_some hat]
    exact .inl ⟨hl.only t ht _ a hat, hl.isResource ht hat⟩

theorem nextAction_isResource (hl : sc.LocksAndWaits) {w : World} {t : Int} (ht : sc.IsThread t)
    (h : (threadNextAction sc w t).type ≠ .done) :
    sc.IsResource (threadNextAction sc w t).resourceId := by
  rcases nextAction_cases hl (w := w) ht with ⟨_, hr⟩ | hdone
  · exact hr
  · exact absurd (congrArg Action.type hdone) h

/-- Independent actions name different resources, unless one of the threads is past its last step. -/
theorem resource_ne_of_independent (hl : sc.LocksAndWaits) {w : World} {p q : Int}
    (hp : sc.IsThread p) (hind : nextDependent sc w p q = false) :
    (threadNextAction sc w p).resourceId ≠ (threadNextAction sc w q).resourceId ∨
      threadNextAction sc w p = ⟨.done, -1, 0⟩ := by
  rcases nextAction_cases hl (w := w) hp with ⟨hkind, hr⟩ | hdone
  · refine .inl fun heq => ?_
    have hbusy : (threadNextAction sc w p).type.idle = false := by
      rcases ActionType.lockOrWait_cases hkind with hk | hk | hk | hk <;> rw [hk] <;> rfl
    have := hr.1
    unfold nextDependent dependent at hind
    dsimp only at hind
    rw [if_neg (by omega), hbusy] at hind
    exact absurd hind (by simp)
  · exact .inr hdone

@[simp] theorem nextEdit_tid (w : World) (t : Int) : (w.nextEdit sc t).tid = t :=
  Action.edit_tid ..

@[simp] theorem nextEdit_resId (w : World) (t : Int) :
    (w.nextEdit sc t).resId = (threadNextAction sc w t).resourceId :=
  Action.edit_resId ..

theorem nextEdit_quiet {w : World} {t : Int}
    (h : ¬ (threadNextAction sc w t).wakes (w.resources (threadNextAction sc w t).resourceId)) :
    (w.nextEdit sc t).woken = t :=
  Action.edit_woken_of_not_wakes h

/-- Who is woken waits for the resource of the action. -/
theorem wakes_mem {w : World} {t : Int}
    (h : (threadNextAction sc w t).wakes (w.resources (threadNextAction sc w t).resourceId)) :
    (w.nextEdit sc t).woken ∈ (w.resources (threadNextAction sc w t).resourceId).waiters.toList := by
  unfold World.nextEdit
  rw [(Action.edit_woken h).1]
  exact LiveArray.cell_mem (bestWaiter_lt h.2)

/-- An action that wakes somebody names a resource. -/
theorem wakes_isResource (hl : sc.LocksAndWaits) {w : World} {t : Int} (ht : sc.IsThread t)
    (h : (threadNextAction sc w t).wakes (w.resources (threadNextAction sc w t).resourceId)) :
    sc.IsResource (threadNextAction sc w t).resourceId := by
  refine nextAction_isResource hl ht fun hdone => ?_
  rcases h.1 with hk | hk <;> exact absurd (hk.symm.trans hdone) (by decide)

theorem nextEdit_woken_ne (hl : sc.LocksAndWaits) {w : World} (hinv : CoreInv sc w) {p q : Int}
    (hp : sc.IsThread p) (hq : (w.threads q).state = .ready) (hne : p ≠ q) :
    (w.nextEdit sc p).woken ≠ q := by
  by_cases hwakes : (threadNextAction sc w p).wakes
    (w.resources (threadNextAction sc w p).resourceId)
  · exact hinv.ne_of_waits (wakes_isResource hl hp hwakes) hq (wakes_mem hwakes)
  · rw [nextEdit_quiet hwakes]
    exact hne

/-- **A step leaves the other thread, and the resource it stands at, as they are.** -/
theorem executeStep_sameFor (hl : sc.LocksAndWaits) {w : World} (hinv : CoreInv sc w) {p q : Int}
    (hp : sc.Ready w p) (hq : sc.Ready w q) (hne : p ≠ q) (hind : nextDependent sc w p q = false)
    (hok : (w.executeStep sc p).fault = none) : SameFor sc w (w.executeStep sc p).world q := by
  have herase := executeStep_erase hl hinv hp.1 hp.2 hok
  have hwoken := nextEdit_woken_ne hl hinv hp.1 hq.2 hne
  refine ⟨?_, ?_⟩
  · rw [herase]
    refine edit_threads_of_ne ?_ (Ne.symm hwoken)
    rw [nextEdit_tid]
    exact Ne.symm hne
  · have hres : ∀ s, (w.executeStep sc p).world.resources s = (w.erase.edit (w.nextEdit sc p)).resources s :=
      fun s => by rw [← herase]; rfl
    rw [hres]
    rcases resource_ne_of_independent hl hp.1 hind with hr | hdone
    · refine edit_resources_of_ne ?_
      rw [nextEdit_resId]
      exact Ne.symm hr
    · refine edit_resource_field id (fun m => ?_) _
      simp [World.nextEdit, hdone, Action.edit]

/-! ## What a step does to the priorities of the others -/

/-- The next action is a lock of a mutex that has an owner. -/
def World.locksTaken (sc : Scenario) (w : World) (p : Int) : Prop :=
  (threadNextAction sc w p).type = .mutexLock ∧
    (w.resources (threadNextAction sc w p).resourceId).owner ≠ -1

theorem executeStep_of_locksTaken (hl : sc.LocksAndWaits) {w : World} (hinv : CoreInv sc w) {p : Int}
    (hp : sc.Ready w p) (hok : (w.executeStep sc p).fault = none) (h : w.locksTaken sc p) :
    (w.executeStep sc p).world = boost sc (w.threads p).priority sc.threadCount.toNat
      (w.resources (threadNextAction sc w p).resourceId).owner
      (w.enqueue p (threadNextAction sc w p).resourceId .blockedMutex) := by
  obtain ⟨hk, hown⟩ := h
  cases hat : sc.actionAt p (w.threads p).pc with
  | none =>
    rw [nextAction_of_none hat] at hk
    exact absurd hk (by simp)
  | some a =>
    rw [nextAction_of_some hat] at hk hown ⊢
    obtain ⟨hworld, hfault⟩ := executeStep_act hp.2 hat (.inr (hl.isResource hp.1 hat))
    rw [hinv.tick_eq] at hworld hfault
    rw [hworld]
    rcases (dispatch_act (hfault.symm.trans hok)).lock_cases hk with ⟨hfree, _⟩ | ⟨_, _, hv⟩
    · exact absurd hfree hown
    · exact hv

/-- Any other step leaves the priorities of the others alone. -/
theorem prio_of_not_locksTaken (hl : sc.LocksAndWaits) {w : World} (hinv : CoreInv sc w) {p : Int}
    (hp : sc.Ready w p) (hok : (w.executeStep sc p).fault = none) (h : ¬ w.locksTaken sc p) {u : Int}
    (hu : u ≠ p) : (w.executeStep sc p).world.prio u = w.prio u := by
  cases hat : sc.actionAt p (w.threads p).pc with
  | none =>
    rcases executeStep_cases_of_tick hinv.tick_eq hok with ⟨hidle, _⟩ | ⟨_, _, hw'⟩ | ⟨a, _, hat', _⟩
    · exact absurd hp.2 hidle
    · rw [hw', prio_modThread rfl]
    · rw [hat] at hat'
      exact absurd hat' (by simp)
  | some a =>
    unfold World.locksTaken at h
    rw [nextAction_of_some hat] at h
    obtain ⟨hworld, hfault⟩ := executeStep_act hp.2 hat (.inr (hl.isResource hp.1 hat))
    rw [hinv.tick_eq] at hworld hfault
    rw [hworld]
    have hact := dispatch_act (hfault.symm.trans hok)
    rcases ActionType.lockOrWait_cases (hl.only p hp.1 _ a hat) with hk | hk | hk | hk
    · rcases hact.lock_cases hk with ⟨_, hv⟩ | ⟨hown, _⟩
      · rw [hv, prio_advance, prio_modThread (f := (·.ownedPush a.resourceId)) (prio_ownedPush _ _)]
        rfl
      · exact absurd ⟨hk, hown⟩ h
    · obtain ⟨_, _, hv⟩ := hact.unlock_cases hk
      rw [hv, prio_advance, prio_handOver, prio_lowered, Function.update_of_ne hu]
    · rcases hact.wait_cases hk with ⟨_, hv⟩ | ⟨_, hv⟩
      · rw [hv, prio_advance, prio_modResource]
      · rw [hv, prio_enqueue]
    · rcases hact.signal_cases hk with ⟨_, hv⟩ | ⟨_, hv⟩
      · rw [hv, prio_advance, World.grantSem, prio_modThread rfl, prio_waiterRemove]
      · rw [hv, prio_advance, prio_modResource]

section block

variable {w : World} (hinv : CoreInv sc w) {p r : Int} (hp : sc.IsThread p) (hr : sc.IsResource r)
  (hown : (w.resources r).owner ≠ -1)
include hinv hp hr hown

/-- A lock that blocks lifts threads that hold up the owner of the mutex, and to the priority of the one
that blocks, … -/
theorem prio_lifted (u : Int) :
    let w' := boost sc (w.threads p).priority sc.threadCount.toNat (w.resources r).owner
      (w.enqueue p r .blockedMutex)
    w'.prio u = w.prio u ∨ (w'.prio u = w.prio p ∧ w.prio u < w.prio p ∧
      Reaches (w.heldUpBy sc) (w.resources r).owner u) := by
  dsimp only
  rw [prio_block hinv hp hr hown]
  refine (raise_cases _ _ _ _ _ u).imp id fun ⟨hlift, hbelow, hreach⟩ => ⟨hlift, hbelow, ?_⟩
  exact (Reaches.of_update hreach).elim id id

/-- … and all of them. -/
theorem le_prio_lifted (hc : sc.Core) (hw' : (callSystem sc).Reach (boost sc (w.threads p).priority
      sc.threadCount.toNat (w.resources r).owner (w.enqueue p r .blockedMutex)))
    (hready : (w.threads p).state = .ready) {u : Int}
    (hreach : Reaches (w.heldUpBy sc) (w.resources r).owner u) :
    w.prio p ≤ (boost sc (w.threads p).priority sc.threadCount.toNat (w.resources r).owner
      (w.enqueue p r .blockedMutex)).prio u := by
  have hself := prio_lifted hinv hp hr hown p
  have hheld := heldUpBy_block hinv hp hr hown
  have hle : ∀ u', Reaches _ p u' → _ ≤ _ := fun u' =>
    prio_le_of_reaches (heldUpBy_edges hc hw') (reach_prioExact hc hw') (u := p) (t := u')
  generalize boost sc (w.threads p).priority sc.threadCount.toNat (w.resources r).owner
    (w.enqueue p r .blockedMutex) = w' at hself hheld hle ⊢
  dsimp only at hself
  have hchain : Reaches (w'.heldUpBy sc) p u := by
    rw [hheld]
    refine .head (Function.update_self ..) (hreach.mono fun a b hab => ?_)
    rw [Function.update_of_ne]
    · exact hab
    · rintro rfl
      rw [heldUpBy_ready hready] at hab
      exact absurd hab (by simp)
  have hmine : w'.prio p = w.prio p := hself.elim id And.left
  rw [← hmine]
  exact hle u hchain

end block

/-! ## Overtaking -/

/-- Neither step fails, but that of `p` blocks on a mutex and lifts a waiter over the one that the step of
`q` would wake. -/
structure Overtakes (sc : Scenario) (w : World) (p q : Int) : Prop where
  taken : w.locksTaken sc p
  permits : w.permits sc p
  wakes : (threadNextAction sc w q).wakes (w.resources (threadNextAction sc w q).resourceId)
  permits' : w.permits sc q
  lifts :
    let s := (threadNextAction sc w q).resourceId
    let waiters := (w.resources s).waiters
    let best := w.bestWaiter s
    ∃ i < waiters.count, i ≠ best ∧
      Reaches (w.heldUpBy sc) (w.resources (threadNextAction sc w p).resourceId).owner
        (waiters.cell i) ∧
      (w.prio (waiters.cell best) < w.prio p ∨ w.prio (waiters.cell best) = w.prio p ∧ i < best)

theorem nextAction_operand (hl : sc.LocksAndWaits) {w : World} {t : Int} (ht : sc.IsThread t)
    {type : ResourceType} (h : (threadNextAction sc w t).type.operand = some type) :
    sc.resTypes (threadNextAction sc w t).resourceId = type := by
  cases hat : sc.actionAt t (w.threads t).pc with
  | none =>
    rw [nextAction_of_none hat] at h
    exact absurd h (by simp [ActionType.operand])
  | some a =>
    rw [nextAction_of_some hat] at h ⊢
    exact (hl.operand t ht _ a hat type h).2

section chain

variable (hl : sc.LocksAndWaits) {w : World} (hw : (callSystem sc).Reach w) {q : Int}
  (hq : sc.Ready w q)
  (hwakes : (threadNextAction sc w q).wakes (w.resources (threadNextAction sc w q).resourceId))
  (hpermits : w.permits sc q)
include hl hw hq hwakes hpermits

/-- Whoever waits for what `q` lets go of is held up by `q` or by nobody. -/
theorem heldUpBy_waiter {x t : Int}
    (hx : x ∈ (w.resources (threadNextAction sc w q).resourceId).waiters.toList)
    (h : w.heldUpBy sc x = some t) : t = q := by
  have hinv := core_reach hl.core hw
  have hs := wakes_isResource hl hq.1 hwakes
  obtain ⟨_, r, hr, htype, hown, hmem⟩ := (heldUpBy_eq_some hl.core hw).mp h
  have hrs : r = (threadNextAction sc w q).resourceId :=
    ((hinv.mem_waiters hr).mp hmem).2.2.symm.trans ((hinv.mem_waiters hs).mp hx).2.2
  subst hrs
  rcases hwakes.1 with hk | hk
  · unfold World.permits at hpermits
    simp only [hk] at hpermits
    exact hown.symm.trans hpermits.1
  · have hsem : sc.resTypes (threadNextAction sc w q).resourceId = .semaphore :=
      nextAction_operand hl hq.1 (by rw [hk]; rfl)
    rw [htype] at hsem
    exact absurd hsem (by decide)

/-- So no chain passes two of them. -/
theorem reaches_waiter {x y : Int}
    (hx : x ∈ (w.resources (threadNextAction sc w q).resourceId).waiters.toList)
    (hy : y ∈ (w.resources (threadNextAction sc w q).resourceId).waiters.toList)
    (h : Reaches (w.heldUpBy sc) x y) : x = y := by
  rcases Relation.ReflTransGen.cases_head h with heq | ⟨t, hxt, hty⟩
  · exact heq
  obtain rfl := heldUpBy_waiter hl hw hq hwakes hpermits hx hxt
  -- The chain ends at `q`, which is READY.
  rcases Relation.ReflTransGen.cases_head hty with heq | ⟨u, htu, _⟩
  · exact absurd heq.symm ((core_reach hl.core hw).ne_of_waits (wakes_isResource hl hq.1 hwakes) hq.2 hy)
  · rw [heldUpBy_ready hq.2] at htu
    exact absurd htu (by simp)

end chain

/-- A lock names a resource. -/
theorem World.locksTaken.isResource (hl : sc.LocksAndWaits) {w : World} {t : Int}
    (h : w.locksTaken sc t) (ht : sc.IsThread t) :
    sc.IsResource (threadNextAction sc w t).resourceId := by
  refine nextAction_isResource hl ht fun hdone => ?_
  exact absurd (h.1.symm.trans hdone) (by decide)

section choice

variable (hl : sc.LocksAndWaits) {w : World} (hw : (callSystem sc).Reach w) {p q : Int}
  (hp : sc.Ready w p) (hq : sc.Ready w q) (hne : p ≠ q) (hind : nextDependent sc w p q = false)
  (hok : (w.executeStep sc p).fault = none)
include hl hw hp hq hne hind hok

/-- **Without overtaking the same waiter is woken**, … -/
theorem bestWaiter_of_not_overtakes (hpermits : w.permits sc q)
    (hwakes : (threadNextAction sc w q).wakes (w.resources (threadNextAction sc w q).resourceId))
    (hnot : ¬ Overtakes sc w p q) :
    (w.executeStep sc p).world.bestWaiter (threadNextAction sc w q).resourceId
      = w.bestWaiter (threadNextAction sc w q).resourceId := by
  have hinv := core_reach hl.core hw
  have hsame := (executeStep_sameFor hl hinv hp hq hne hind hok).resource
  by_cases htaken : w.locksTaken sc p
  · have hlift := prio_lifted hinv hp.1 (htaken.isResource hl hp.1) htaken.2
    rw [← executeStep_of_locksTaken hl hinv hp hok htaken] at hlift
    dsimp only at hlift
    show bestIdx (fun i => (w.executeStep sc p).world.prio _) _ = bestIdx (fun i => w.prio _) _
    rw [hsame]
    refine bestIdx_keep (fun i _ => ?_) fun i hi hib => ?_
    · rcases hlift ((w.resources (threadNextAction sc w q).resourceId).waiters.cell i) with
        heq | ⟨heq, hlt, _⟩
      · exact le_of_eq heq.symm
      · exact le_of_lt (lt_of_lt_of_eq hlt heq.symm)
    · rcases hlift ((w.resources (threadNextAction sc w q).resourceId).waiters.cell i) with
        heq | ⟨heq, _, hreach⟩
      · exact .inl heq
      · right
        have hno := fun hbetter => hnot ⟨htaken, (executeStep_ok_iff hl hw hp).mp hok, hwakes, hpermits,
          i, hi, hib, hreach, hbetter⟩
        rw [heq]
        refine ⟨le_of_not_gt fun hlt => hno (.inl hlt), fun htie => ?_⟩
        exact Nat.lt_of_le_of_ne (Nat.le_of_not_gt fun hlt => hno (.inr ⟨htie.symm, hlt⟩)) (Ne.symm hib)
  · exact bestWaiter_congr hsame fun u hu => prio_of_not_locksTaken hl hinv hp hok htaken
      (hinv.ne_of_waits (wakes_isResource hl hq.1 hwakes) hp.2 hu)

/-- … and with it another one is. -/
theorem bestWaiter_of_overtakes (hover : Overtakes sc w p q) :
    (w.executeStep sc p).world.bestWaiter (threadNextAction sc w q).resourceId
      ≠ w.bestWaiter (threadNextAction sc w q).resourceId := by
  have hinv := core_reach hl.core hw
  have hsame := (executeStep_sameFor hl hinv hp hq hne hind hok).resource
  have hw' : (callSystem sc).Reach (w.executeStep sc p).world := .step hw ⟨hp.1, hok, rfl⟩
  obtain ⟨htaken, _, hwakes, hpermits, i, hi, hib, hreach, hbetter⟩ := hover
  have hr := htaken.isResource hl hp.1
  rw [executeStep_of_locksTaken hl hinv hp hok htaken] at hsame hw' ⊢
  have hlift := prio_lifted hinv hp.1 hr htaken.2
  have hle := le_prio_lifted hinv hp.1 hr htaken.2 hl.core hw' hp.2 hreach
  generalize boost sc (w.threads p).priority sc.threadCount.toNat
    (w.resources (threadNextAction sc w p).resourceId).owner
    (w.enqueue p (threadNextAction sc w p).resourceId .blockedMutex) = w' at hsame hw' hlift hle ⊢
  dsimp only at hlift
  have hbest := LiveArray.cell_mem (bestWaiter_lt hwakes.2)
  -- The best waiter is not lifted itself.
  have hkeep : w'.prio ((w.resources (threadNextAction sc w q).resourceId).waiters.cell
      (w.bestWaiter (threadNextAction sc w q).resourceId))
      = w.prio ((w.resources (threadNextAction sc w q).resourceId).waiters.cell
        (w.bestWaiter (threadNextAction sc w q).resourceId)) := by
    rcases hlift ((w.resources (threadNextAction sc w q).resourceId).waiters.cell
      (w.bestWaiter (threadNextAction sc w q).resourceId)) with heq | ⟨_, _, hreach'⟩
    · exact heq
    · have hs := wakes_isResource hl hq.1 hwakes
      have heq := (Relation.ReflTransGen.total_of_right_unique
        (fun _ _ _ h h' => Option.some.inj (h.symm.trans h')) hreach hreach').elim
        (reaches_waiter hl hw hq hwakes hpermits (LiveArray.cell_mem hi) hbest)
        fun h => (reaches_waiter hl hw hq hwakes hpermits hbest (LiveArray.cell_mem hi) h).symm
      exact absurd (LiveArray.cell_inj (hinv.nodup_waiters hs) hi (bestWaiter_lt hwakes.2) heq) hib
  show bestIdx (fun i => w'.prio _) _ ≠ bestIdx (fun i => w.prio _) _
  rw [hsame]
  refine bestIdx_ne hi hkeep ?_
  rcases hbetter with hlt | ⟨htie, hearly⟩
  · exact .inl (lt_of_lt_of_le hlt hle)
  · exact (lt_or_eq_of_le (le_of_eq_of_le htie hle)).imp id fun heq => ⟨heq, hearly⟩

end choice

/-! ## Two steps in either order -/

/-- Threads that differ at most in dead cells of the stack. -/
def Thread.SameLive (t t' : Thread) : Prop :=
  t.ownedMutexStack.toList = t'.ownedMutexStack.toList ∧
    { t with ownedMutexStack := t'.ownedMutexStack } = t'

theorem Thread.SameLive.state {t t' : Thread} (h : t.SameLive t') : t.state = t'.state :=
  (congrArg Thread.state h.2 :)

/-- Resources that differ at most in dead cells of the queue. -/
def Resource.SameLive (m m' : Resource) : Prop :=
  m.waiters.toList = m'.waiters.toList ∧ { m with waiters := m'.waiters } = m'

def World.SameLive (sc : Scenario) (w w' : World) : Prop :=
  (∀ t, sc.IsThread t → (w.threads t).SameLive (w'.threads t)) ∧
    ∀ r, sc.IsResource r → (w.resources r).SameLive (w'.resources r)

/-- The two threads can run in either order: both fail, or neither and the same state is left. -/
def StepsCommute (sc : Scenario) (e : Engine) (p q : Int) : Prop :=
  (e.calls sc [p, q]).failed = (e.calls sc [q, p]).failed ∧
    ((e.calls sc [p, q]).failed = false →
      (e.calls sc [p, q]).world.SameLive sc (e.calls sc [q, p]).world)

theorem calls_failed {e : Engine} (hf : e.failed = false) (p q : Int) :
    (e.calls sc [p, q]).failed = false ↔ (e.world.executeStep sc p).fault = none ∧
      ((e.world.executeStep sc p).world.executeStep sc q).fault = none := by
  simp [Engine.calls, Engine.executeStep, Engine.apply, hf]

/-- Reached states that agree apart from priorities agree. -/
theorem sameLive_of_erase (hc : sc.Core) {w w' : World} (hw : (callSystem sc).Reach w)
    (hw' : (callSystem sc).Reach w') (h : w.erase = w'.erase) : w.SameLive sc w' := by
  have hheld : w.erase.heldUpBy sc = w'.erase.heldUpBy sc := by rw [h]
  refine ⟨fun t ht => ?_, fun r _ => ?_⟩
  · have hthread : w.threads t = w'.threads t := by
      have hrest : { w.threads t with priority := 0 } = { w'.threads t with priority := 0 } :=
        congrArg (World.threads · t) h
      have hprio := prio_determined hc hw' hw hheld ht
      calc w.threads t = { { w.threads t with priority := 0 } with priority := (w.threads t).priority } := rfl
        _ = { { w'.threads t with priority := 0 } with priority := (w'.threads t).priority } := by
          rw [hrest, hprio]
        _ = w'.threads t := rfl
    rw [hthread]
    exact ⟨rfl, rfl⟩
  · have hres : w.erase.resources r = w'.erase.resources r := by rw [h]
    have hres : w.resources r = w'.resources r := hres
    rw [hres]
    exact ⟨rfl, rfl⟩

section pair

variable (hl : sc.LocksAndWaits) {w : World} (hw : (callSystem sc).Reach w) {p q : Int}
  (hp : sc.Ready w p) (hq : sc.Ready w q) (hne : p ≠ q) (hind : nextDependent sc w p q = false)
include hl hw hp hq hne hind

/-- Neither order fails, or both do. -/
theorem both_ok_iff : ((w.executeStep sc p).fault = none ∧
    ((w.executeStep sc p).world.executeStep sc q).fault = none) ↔
      w.permits sc p ∧ w.permits sc q := by
  rw [executeStep_ok_iff hl hw hp]
  refine and_congr_right fun hpermits => ?_
  have hok := (executeStep_ok_iff hl hw hp).mpr hpermits
  have hsame := executeStep_sameFor hl (core_reach hl.core hw) hp hq hne hind hok
  rw [executeStep_ok_iff hl (.step hw ⟨hp.1, hok, rfl⟩) (hsame.ready hq)]
  exact hsame.permits_iff

theorem erase_both (hpermits : w.permits sc p) (hpermits' : w.permits sc q) :
    ((w.executeStep sc p).world.executeStep sc q).world.erase
      = (w.erase.edit (w.nextEdit sc p)).edit ((w.executeStep sc p).world.nextEdit sc q) := by
  obtain ⟨hok, hok'⟩ := (both_ok_iff hl hw hp hq hne hind).mpr ⟨hpermits, hpermits'⟩
  have hinv := core_reach hl.core hw
  have hready := (executeStep_sameFor hl hinv hp hq hne hind hok).ready hq
  rw [executeStep_erase hl (core_reach hl.core (.step hw ⟨hp.1, hok, rfl⟩)) hq.1 hready.2 hok',
    executeStep_erase hl hinv hp.1 hp.2 hok]

/-- The two threads wake different ones. -/
theorem nextEdit_wokens : (w.nextEdit sc p).woken ≠ (w.nextEdit sc q).woken := by
  have hinv := core_reach hl.core hw
  by_cases hwakes : (threadNextAction sc w p).wakes
    (w.resources (threadNextAction sc w p).resourceId)
  · have hmem := wakes_mem hwakes
    have hr := wakes_isResource hl hp.1 hwakes
    by_cases hwakes' : (threadNextAction sc w q).wakes
      (w.resources (threadNextAction sc w q).resourceId)
    · have hmem' := wakes_mem hwakes'
      have hs := wakes_isResource hl hq.1 hwakes'
      intro heq
      rw [← heq] at hmem'
      -- Nobody waits for two resources.
      have hrs := ((hinv.mem_waiters hr).mp hmem).2.2.symm.trans ((hinv.mem_waiters hs).mp hmem').2.2
      rcases resource_ne_of_independent hl hp.1 hind with hne' | hdone
      · exact hne' hrs
      · rw [hdone] at hwakes
        exact absurd hwakes.1 (by simp)
    · rw [nextEdit_quiet hwakes']
      exact hinv.ne_of_waits hr hq.2 hmem
  · rw [nextEdit_quiet hwakes]
    exact Ne.symm (nextEdit_woken_ne hl hinv hq.1 hp.2 (Ne.symm hne))

/-- The edits of the two threads have different targets. -/
theorem nextEdit_comm (v : World) : (v.edit (w.nextEdit sc p)).edit (w.nextEdit sc q)
    = (v.edit (w.nextEdit sc q)).edit (w.nextEdit sc p) := by
  have hinv := core_reach hl.core hw
  have hwoken := nextEdit_woken_ne hl hinv hp.1 hq.2 hne
  have hwoken' := nextEdit_woken_ne hl hinv hq.1 hp.2 (Ne.symm hne)
  refine edit_comm v ?_ ?_ ?_ ?_ (nextEdit_wokens hl hw hp hq hne hind)
  · refine (resource_ne_of_independent hl hp.1 hind).imp (fun h => ?_) fun h => ?_
    · rw [nextEdit_resId, nextEdit_resId]
      exact h
    · simp [World.nextEdit, h, Action.edit]
  · rw [nextEdit_tid, nextEdit_tid]
    exact hne
  · rw [nextEdit_tid]
    exact Ne.symm hwoken'
  · rw [nextEdit_tid]
    exact hwoken

/-- Without overtaking the second step writes what it would have written first. -/
theorem nextEdit_of_not_overtakes (hpermits : w.permits sc p) (hpermits' : w.permits sc q)
    (hnot : ¬ Overtakes sc w p q) :
    (w.executeStep sc p).world.nextEdit sc q = w.nextEdit sc q := by
  have hok := (executeStep_ok_iff hl hw hp).mpr hpermits
  refine (executeStep_sameFor hl (core_reach hl.core hw) hp hq hne hind hok).nextEdit fun hwakes => ?_
  exact bestWaiter_of_not_overtakes hl hw hp hq hne hind hok hpermits' hwakes hnot

/-- With it, it wakes another waiter, and the best one of before goes on waiting, … -/
theorem blocked_of_overtakes (hover : Overtakes sc w p q) :
    (((w.executeStep sc p).world.executeStep sc q).world.threads (w.nextEdit sc q).woken).blocked
      = true := by
  have hinv := core_reach hl.core hw
  have hwakes := hover.wakes
  have hs := wakes_isResource hl hq.1 hwakes
  have hmem := wakes_mem hwakes
  have hok := (executeStep_ok_iff hl hw hp).mpr hover.permits
  have hsame := executeStep_sameFor hl hinv hp hq hne hind hok
  have hbest := bestWaiter_of_overtakes hl hw hp hq hne hind hok hover
  have herase := erase_both hl hw hp hq hne hind hover.permits hover.permits'
  generalize (w.executeStep sc p).world = w₁ at hsame hbest herase ⊢
  have hquiet : ¬ (threadNextAction sc w p).wakes
      (w.resources (threadNextAction sc w p).resourceId) := by
    rintro ⟨hk, _⟩
    rw [hover.taken.1] at hk
    exact absurd hk (by simp)
  have hother : (w.nextEdit sc q).woken ≠ (w₁.nextEdit sc q).woken := by
    have hlt : w₁.bestWaiter (threadNextAction sc w q).resourceId
        < (w.resources (threadNextAction sc w q).resourceId).waiters.count := by
      rw [← hsame.resource]
      exact bestWaiter_lt (hsame.resource ▸ hwakes.2)
    rw [World.nextEdit, World.nextEdit, hsame.next, hsame.resource, (Action.edit_woken hwakes).1,
      (Action.edit_woken hwakes).1]
    exact fun heq => hbest
      (LiveArray.cell_inj (hinv.nodup_waiters hs) (bestWaiter_lt hwakes.2) hlt heq).symm
  have hstay : (w₁.executeStep sc q).world.erase.threads (w.nextEdit sc q).woken
      = w.erase.threads (w.nextEdit sc q).woken := by
    rw [herase, edit_threads_of_ne _ hother, edit_threads_of_ne]
    · rw [nextEdit_tid]
      exact hinv.ne_of_waits hs hp.2 hmem
    · rw [nextEdit_quiet hquiet]
      exact hinv.ne_of_waits hs hp.2 hmem
    · rw [nextEdit_tid]
      exact hinv.ne_of_waits hs hq.2 hmem
  exact (congrArg Thread.blocked hstay).trans ((hinv.mem_waiters hs).mp hmem).2.1

/-- … where the other order wakes it. -/
theorem ready_of_overtakes (hover : Overtakes sc w p q) :
    (((w.executeStep sc q).world.executeStep sc p).world.threads (w.nextEdit sc q).woken).state
      = .ready := by
  have hinv := core_reach hl.core hw
  have hwakes := hover.wakes
  have hs := wakes_isResource hl hq.1 hwakes
  have hmem := wakes_mem hwakes
  have hok := (executeStep_ok_iff hl hw hq).mpr hover.permits'
  have hind' : nextDependent sc w q p = false := (nextDependent_comm w q p).trans hind
  have hsame := executeStep_sameFor hl hinv hq hp (Ne.symm hne) hind' hok
  have herase := erase_both hl hw hq hp (Ne.symm hne) hind' hover.permits' hover.permits
  generalize (w.executeStep sc q).world = w₁ at hsame herase ⊢
  have hquiet : ¬ (threadNextAction sc w₁ p).wakes
      (w₁.resources (threadNextAction sc w₁ p).resourceId) := by
    rintro ⟨hk, _⟩
    rw [hsame.next, hover.taken.1] at hk
    exact absurd hk (by simp)
  have hwoken : (w₁.executeStep sc p).world.erase.threads (w.nextEdit sc q).woken
      = (w.nextEdit sc q).onWoken (w.erase.threads (w.nextEdit sc q).woken) := by
    rw [herase, edit_threads_of_ne, edit_threads_woken]
    · rw [nextEdit_tid]
      exact hinv.ne_of_waits hs hq.2 hmem
    · rw [nextEdit_tid]
      exact hinv.ne_of_waits hs hp.2 hmem
    · rw [nextEdit_quiet hquiet]
      exact hinv.ne_of_waits hs hp.2 hmem
  exact (congrArg Thread.state hwoken).trans ((Action.edit_woken hwakes).2 _)

end pair

/-- **Without overtaking the two orders leave the same state**, … -/
theorem sameLive_of_not_overtakes (hl : sc.LocksAndWaits) {w : World} (hw : (callSystem sc).Reach w)
    {p q : Int} (hp : sc.Ready w p) (hq : sc.Ready w q) (hne : p ≠ q)
    (hind : nextDependent sc w p q = false) (hpermits : w.permits sc p) (hpermits' : w.permits sc q)
    (hnot : ¬ Overtakes sc w p q) (hnot' : ¬ Overtakes sc w q p) :
    ((w.executeStep sc p).world.executeStep sc q).world.SameLive sc
      ((w.executeStep sc q).world.executeStep sc p).world := by
  have hind' : nextDependent sc w q p = false := (nextDependent_comm w q p).trans hind
  obtain ⟨hok₁, hok₂⟩ := (both_ok_iff hl hw hp hq hne hind).mpr ⟨hpermits, hpermits'⟩
  obtain ⟨hok₁', hok₂'⟩ := (both_ok_iff hl hw hq hp (Ne.symm hne) hind').mpr ⟨hpermits', hpermits⟩
  refine sameLive_of_erase hl.core (.step (.step hw ⟨hp.1, hok₁, rfl⟩) ⟨hq.1, hok₂, rfl⟩)
    (.step (.step hw ⟨hq.1, hok₁', rfl⟩) ⟨hp.1, hok₂', rfl⟩) ?_
  rw [erase_both hl hw hp hq hne hind hpermits hpermits',
    erase_both hl hw hq hp (Ne.symm hne) hind' hpermits' hpermits,
    nextEdit_of_not_overtakes hl hw hp hq hne hind hpermits hpermits' hnot,
    nextEdit_of_not_overtakes hl hw hq hp (Ne.symm hne) hind' hpermits' hpermits hnot']
  exact nextEdit_comm hl hw hp hq hne hind w.erase

/-- … and with it they do not. -/
theorem states_ne_of_overtakes (hl : sc.LocksAndWaits) {w : World} (hw : (callSystem sc).Reach w)
    {p q : Int} (hp : sc.Ready w p) (hq : sc.Ready w q) (hne : p ≠ q)
    (hind : nextDependent sc w p q = false) (hover : Overtakes sc w p q) : ∃ t, sc.IsThread t ∧
      (((w.executeStep sc p).world.executeStep sc q).world.threads t).state
        ≠ (((w.executeStep sc q).world.executeStep sc p).world.threads t).state := by
  have hs := wakes_isResource hl hq.1 hover.wakes
  have ht := (((core_reach hl.core hw).mem_waiters hs).mp (wakes_mem hover.wakes)).1
  refine ⟨_, ht, fun heq => ?_⟩
  have hblocked := blocked_of_overtakes hl hw hp hq hne hind hover
  have hready := heq.trans (ready_of_overtakes hl hw hp hq hne hind hover)
  exact absurd hready (Thread.not_ready_of_blocked hblocked)

/-- **Independent actions commute if and only if neither overtakes the other.** -/
theorem stepsCommute_iff (hl : sc.LocksAndWaits) {e : Engine} (hw : (callSystem sc).Reach e.world)
    (hf : e.failed = false) {p q : Int} (hp : sc.Ready e.world p) (hq : sc.Ready e.world q)
    (hne : p ≠ q) (hind : nextDependent sc e.world p q = false) :
    StepsCommute sc e p q ↔ ¬ Overtakes sc e.world p q ∧ ¬ Overtakes sc e.world q p := by
  have hind' : nextDependent sc e.world q p = false := (nextDependent_comm _ q p).trans hind
  have hboth := (calls_failed hf p q).trans (both_ok_iff hl hw hp hq hne hind)
  have hboth' := (calls_failed hf q p).trans (both_ok_iff hl hw hq hp (Ne.symm hne) hind')
  constructor
  · rintro ⟨_, hsame⟩
    refine ⟨fun hover => ?_, fun hover => ?_⟩
    · obtain ⟨t, ht, hstates⟩ := states_ne_of_overtakes hl hw hp hq hne hind hover
      exact hstates ((hsame (hboth.mpr ⟨hover.permits, hover.permits'⟩)).1 t ht).state
    · obtain ⟨t, ht, hstates⟩ := states_ne_of_overtakes hl hw hq hp (Ne.symm hne) hind' hover
      exact hstates ((hsame (hboth.mpr ⟨hover.permits', hover.permits⟩)).1 t ht).state.symm
  · rintro ⟨hnot, hnot'⟩
    refine ⟨?_, fun hok => ?_⟩
    · rw [Bool.eq_iff_iff, ← not_iff_not, Bool.not_eq_true, Bool.not_eq_true, hboth, hboth']
      exact and_comm
    · obtain ⟨hpermits, hpermits'⟩ := hboth.mp hok
      exact sameLive_of_not_overtakes hl hw hp hq hne hind hpermits hpermits' hnot hnot'

/-- Thread 0 owns a mutex that 1 and 2 wait for, and 2 is the more urgent. Thread 1 owns the other one, and
3 is about to lock it. -/
def lateLock : Scenario :=
  { Scenario.ofSteps
      [[⟨.mutexLock, 1, 0⟩, ⟨.mutexUnlock, 1, 0⟩],
        [⟨.mutexLock, 0, 0⟩, ⟨.mutexLock, 1, 0⟩, ⟨.mutexUnlock, 1, 0⟩, ⟨.mutexUnlock, 0, 0⟩],
        [⟨.mutexLock, 1, 0⟩, ⟨.mutexUnlock, 1, 0⟩],
        [⟨.mutexLock, 0, 0⟩, ⟨.mutexUnlock, 0, 0⟩]]
      [.mutex, .mutex] [] with
    priorities := fun t => [1, 5, 10, 20].getD t.toNat 0 }

theorem lateLock_locksAndWaits : lateLock.LocksAndWaits where
  toMatching := Scenario.matching_of_steps (by decide) (by decide)
  only := forall_actionAt (P := fun _ a => a.type.lockOrWait = true) (by decide)

/-- The engine when both mutexes are taken and two threads wait for the second. -/
def lateLockEngine : Engine := (Engine.zero.reset lateLock).calls lateLock [0, 1, 1, 2]

theorem calls_world (e : Engine) (ts : List Int) : (e.calls sc ts).world = e.world.calls sc ts := by
  induction ts generalizing e with
  | nil => rfl
  | cons t ts ih => exact ih (e.executeStep sc t)

theorem lateLockEngine_reach : (callSystem lateLock).Reach lateLockEngine.world := by
  unfold lateLockEngine
  rw [calls_world]
  exact reach_calls (by decide +kernel)

theorem stepsCommute_iff_lateLock : StepsCommute lateLock lateLockEngine 3 0 ↔
    ¬ Overtakes lateLock lateLockEngine.world 3 0 ∧ ¬ Overtakes lateLock lateLockEngine.world 0 3 :=
  stepsCommute_iff lateLock_locksAndWaits lateLockEngine_reach (by decide +kernel) (by decide +kernel)
    (by decide +kernel) (by decide) (by decide +kernel)

/-- Thread 1 is woken in one order and goes on waiting in the other. -/
theorem lateLock_reorders : ¬ ∀ sc : Scenario, sc.LocksAndWaits → ∀ e : Engine,
    (callSystem sc).Reach e.world → e.failed = false → ∀ p q, sc.Ready e.world p → sc.Ready e.world q →
      p ≠ q → nextDependent sc e.world p q = false → StepsCommute sc e p q := by
  intro h
  have hcommute := h lateLock lateLock_locksAndWaits lateLockEngine lateLockEngine_reach
    (by decide +kernel) 3 0 (by decide +kernel) (by decide +kernel) (by decide) (by decide +kernel)
  have hstate := ((hcommute.2 (by decide +kernel)).1 1 (by decide)).state
  exact absurd hstate (by decide +kernel)

end Smash
