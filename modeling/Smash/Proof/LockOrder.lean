import Smash.Proof.CircularWait
import Smash.Proof.Context
import Smash.Proof.Exhaustive
import Smash.Proof.Priority
import Smash.Proof.Progress

/-!
# Consistent lock ordering

A scenario is `LockOrdered` when every thread takes its mutexes in increasing order, lets go of the newest
first, and ends with none. The discipline is a statement about step lists (`heldAfter`), and the one
invariant is that it is also one about states: the stack of owned mutexes is what the list says should be
held at the thread's `pc` (`OrderInv`). So no call fails, no check does, and a thread that waits for a mutex
waits for one that can run: of the mutexes waited for, the owner of the greatest waits for none.
-/

set_option autoImplicit false

namespace Smash

variable {sc : Scenario}

/-! ## The discipline -/

/-- What is held after an action, newest first; `none` when it breaks the discipline. -/
def heldStep (held : List Int) (a : Action) : Option (List Int) :=
  match a.type with
  | .mutexLock => if ∀ r ∈ held, r < a.resourceId then some (a.resourceId :: held) else none
  | .mutexUnlock =>
    match held with
    | [] => none
    | top :: rest => if top = a.resourceId then some rest else none
  | _ => some held

/-- What is held after the first `n` of these steps. -/
def heldAfter (steps : Nat → Action) : Nat → Option (List Int)
  | 0 => some []
  | n + 1 => (heldAfter steps n).bind fun held => heldStep held (steps n)

/-- Mutexes only, and each thread takes them in increasing order, gives them back in reverse, and keeps
none. -/
structure Scenario.LockOrdered (sc : Scenario) : Prop where
  valid : sc.Valid
  mutexes : ∀ r, sc.IsResource r → sc.resTypes r = .mutex
  actions : ∀ t, sc.IsThread t → ∀ pc a, sc.actionAt t pc = some a →
    ((a.type = .mutexLock ∨ a.type = .mutexUnlock) ∧ sc.IsResource a.resourceId) ∨
      a.type = .nop ∨ a.type = .yield
  nested : ∀ t, sc.IsThread t → heldAfter (sc.steps t) (sc.stepCount t).toNat = some []

theorem heldAfter_isSome {steps : Nat → Action} {m n : Nat} (h : (heldAfter steps n).isSome = true)
    (hle : m ≤ n) : (heldAfter steps m).isSome = true := by
  induction n, hle using Nat.le_induction with
  | base => exact h
  | succ n _ ih =>
    refine ih ?_
    rw [heldAfter] at h
    cases hn : heldAfter steps n with
    | none => simp [hn] at h
    | some held => rfl

theorem heldStep_lock {held held' : List Int} {a : Action} (h : heldStep held a = some held')
    (hk : a.type = .mutexLock) : held' = a.resourceId :: held ∧ ∀ r ∈ held, r < a.resourceId := by
  unfold heldStep at h
  rw [hk] at h
  simp only [Option.ite_none_right_eq_some, Option.some.injEq] at h
  exact ⟨h.2.symm, h.1⟩

theorem heldStep_unlock {held held' : List Int} {a : Action} (h : heldStep held a = some held')
    (hk : a.type = .mutexUnlock) : held = a.resourceId :: held' := by
  unfold heldStep at h
  rw [hk] at h
  cases held with
  | nil => exact absurd h (by simp)
  | cons top rest =>
    simp only [Option.ite_none_right_eq_some, Option.some.injEq] at h
    rw [h.1, h.2]

theorem heldStep_pass {held : List Int} {a : Action} (hk : a.type = .nop ∨ a.type = .yield) :
    heldStep held a = some held := by
  unfold heldStep
  rcases hk with hk | hk <;> rw [hk]

namespace Scenario.LockOrdered

theorem mutexOnly (ho : sc.LockOrdered) : sc.MutexOnly where
  valid := ho.valid
  operand t ht pc a hat type htype := by
    rcases ho.actions t ht pc a hat with ⟨hk, hr⟩ | hk | hk
    · rcases hk with hk | hk <;> (rw [hk] at htype; cases htype; exact ⟨hr, ho.mutexes _ hr⟩)
    all_goals
      rw [hk] at htype
      exact absurd htype (by simp [ActionType.operand])
  only t ht pc a hat := by
    rcases ho.actions t ht pc a hat with ⟨hk | hk, _⟩ | hk | hk <;> (rw [hk]; rfl)

/-- The discipline goes through at every step of the list. -/
theorem heldStep_actionAt (ho : sc.LockOrdered) {t : Int} (ht : sc.IsThread t) {pc : Nat} {a : Action}
    (hat : sc.actionAt t pc = some a) {held : List Int} (hheld : heldAfter (sc.steps t) pc = some held) :
    ∃ held', heldStep held a = some held' ∧ heldAfter (sc.steps t) (pc + 1) = some held' := by
  unfold Scenario.actionAt at hat
  split at hat
  · cases hat
    have hsome : (heldAfter (sc.steps t) (sc.stepCount t).toNat).isSome = true := by
      rw [ho.nested t ht]
      rfl
    have hnext := heldAfter_isSome hsome (show pc + 1 ≤ (sc.stepCount t).toNat by omega)
    rw [heldAfter, hheld, Option.bind_some] at hnext
    obtain ⟨held', hstep⟩ := Option.isSome_iff_exists.mp hnext
    exact ⟨held', hstep, by rw [heldAfter, hheld, Option.bind_some, hstep]⟩
  · exact absurd hat (by simp)

end Scenario.LockOrdered

/-! ## The invariant -/

/-- Every thread holds what its step list says, and nothing else is out of the ordinary. -/
structure OrderInv (sc : Scenario) (w : World) : Prop where
  held : ∀ t, sc.IsThread t →
    heldAfter (sc.steps t) (w.threads t).pc = some (w.threads t).ownedMutexStack.toList.reverse
  pc_le : ∀ t, sc.IsThread t → ((w.threads t).pc : Int) ≤ sc.stepCount t
  finished : ∀ t, sc.IsThread t → (w.threads t).state = .done → ((w.threads t).pc : Int) = sc.stepCount t
  context : ∀ t, sc.IsThread t → (w.threads t).context = ⟨.thread, 0, 0⟩
  stackDepth : ∀ t, sc.IsThread t → (w.threads t).stackDepth = 0
  alive : ∀ r, sc.IsResource r → (w.resources r).alive = true

namespace OrderInv

variable {w : World}

/-- A thread that is DONE owns nothing. -/
theorem done_stack (ho : sc.LockOrdered) (h : OrderInv sc w) {t : Int} (ht : sc.IsThread t)
    (hdone : (w.threads t).state = .done) : (w.threads t).ownedMutexStack.toList = [] := by
  have hheld := h.held t ht
  have hpc : (w.threads t).pc = (sc.stepCount t).toNat := by
    have := h.finished t ht hdone
    omega
  rw [hpc, ho.nested t ht, Option.some.injEq] at hheld
  exact List.reverse_eq_nil_iff.mp hheld.symm

theorem doneOwnNothing (ho : sc.LockOrdered) (h : OrderInv sc w) (hinv : CoreInv sc w) :
    DoneOwnNothing sc w := by
  intro r hr _ t ht hdone hown
  have hmem := (hinv.mem_stack ht).mpr ⟨hr, hown⟩
  rw [h.done_stack ho ht hdone] at hmem
  exact absurd hmem (List.not_mem_nil)

/-- The mutex that a lock names is greater than all that are held, … -/
theorem lock_gt (ho : sc.LockOrdered) (h : OrderInv sc w) {t : Int} (ht : sc.IsThread t) {a : Action}
    (hat : sc.actionAt t (w.threads t).pc = some a) (hk : a.type = .mutexLock) :
    ∀ r ∈ (w.threads t).ownedMutexStack.toList, r < a.resourceId := by
  obtain ⟨held', hstep, _⟩ := ho.heldStep_actionAt ht hat (h.held t ht)
  intro r hr
  exact (heldStep_lock hstep hk).2 r (List.mem_reverse.mpr hr)

/-- … and the one that an unlock names is the newest. -/
theorem unlock_top (ho : sc.LockOrdered) (h : OrderInv sc w) {t : Int} (ht : sc.IsThread t) {a : Action}
    (hat : sc.actionAt t (w.threads t).pc = some a) (hk : a.type = .mutexUnlock) :
    (w.threads t).ownedTopIs a.resourceId = true := by
  obtain ⟨held', hstep, _⟩ := ho.heldStep_actionAt ht hat (h.held t ht)
  have htop := heldStep_unlock hstep hk
  have hpos : 0 < (w.threads t).ownedMutexStack.count := by
    rw [← LiveArray.length_toList, ← List.length_reverse, htop]
    simp
  rw [LiveArray.toList_dropLast hpos, List.reverse_append] at htop
  simp only [List.reverse_singleton, List.singleton_append, List.cons.injEq] at htop
  simp only [Thread.ownedTopIs, Bool.and_eq_true, decide_eq_true_eq]
  exact ⟨by omega, htop.1⟩

end OrderInv

/-! ## No call fails -/

/-- While the clock stands still, a call fails only in the action it runs. -/
theorem executeStep_ok {w : World} {tid : Int} (hv : sc.Valid) (htid : sc.IsThread tid)
    (htick : (w.tick sc).1 = w) (hok : (w.threads tid).state = .ready → ∀ a,
      sc.actionAt tid (w.threads tid).pc = some a → (w.dispatch sc tid a).fault = none) :
    (w.executeStep sc tid).fault = none := by
  by_cases hready : (w.threads tid).state = .ready
  · cases hat : sc.actionAt tid (w.threads tid).pc with
    | none =>
      unfold World.executeStep World.runThread
      dsimp only
      rw [htick, if_neg (by simp [hready]), hat]
      rfl
    | some a =>
      rw [(executeStep_act hready hat (hv.bounds.resourceId_ok tid htid _ a hat)).2, htick]
      exact hok hready a hat
  · unfold World.executeStep World.runThread
    dsimp only
    rw [htick, if_pos hready]
    rfl

theorem OrderInv.ok (ho : sc.LockOrdered) {w : World} (h : OrderInv sc w) (hinv : CoreInv sc w)
    {tid : Int} (htid : sc.IsThread tid) : (w.executeStep sc tid).fault = none := by
  refine executeStep_ok ho.valid htid hinv.tick_eq fun hready a hat => ?_
  rcases ho.actions tid htid _ a hat with ⟨hk | hk, hr⟩ | hk | hk
  · -- Relocking would be out of order.
    have hown : (w.resources a.resourceId).owner ≠ tid := fun hown => by
      have := h.lock_gt ho htid hat hk _ ((hinv.mem_stack htid).mpr ⟨hr, hown⟩)
      omega
    have hlock : (mutexLock sc w tid a.resourceId).fault = none :=
      (mutexLock_fault (hinv.room_queue ho.valid ⟨htid, hready⟩ hr)).mpr
        ⟨h.alive _ hr, congrArg Context.execCtx (h.context tid htid), .inr hown⟩
    simp only [World.dispatch, hk, Outcome.finish_fault, Outcome.advanceIfTrue_fault]
    exact hlock
  · have htop := h.unlock_top ho htid hat hk
    have hmem : a.resourceId ∈ (w.threads tid).ownedMutexStack.toList := by
      simp only [Thread.ownedTopIs, Bool.and_eq_true, decide_eq_true_eq] at htop
      rw [← htop.2]
      exact LiveArray.cell_mem (by omega)
    have hunlock : (mutexUnlock sc w tid a.resourceId).fault = none :=
      mutexUnlock_fault.mpr ⟨h.alive _ hr, ((hinv.mem_stack htid).mp hmem).2, htop⟩
    simp only [World.dispatch, hk]
    exact hunlock
  · simp [World.dispatch, hk]
  · simp [World.dispatch, hk]

/-! ## What a call does to a thread -/

/-- What a call on `tid` makes of thread `u`, as far as `OrderInv` goes. -/
inductive Turn (sc : Scenario) (w : World) (tid u : Int) (t' : Thread) : Prop
  | waits : t'.pc = (w.threads u).pc → t'.ownedMutexStack = (w.threads u).ownedMutexStack →
      (t'.state = .done → (w.threads u).state = .done) → Turn sc w tid u t'
  | finishes : t'.pc = (w.threads u).pc → t'.ownedMutexStack = (w.threads u).ownedMutexStack →
      sc.actionAt u (w.threads u).pc = none → Turn sc w tid u t'
  | moves (a : Action) : sc.actionAt u (w.threads u).pc = some a → t'.pc = (w.threads u).pc + 1 →
      t'.state = .ready →
      (∀ held', heldStep (w.threads u).ownedMutexStack.toList.reverse a = some held' →
        held' = t'.ownedMutexStack.toList.reverse) → Turn sc w tid u t'

theorem Turn.same {w : World} {tid u : Int} {t' : Thread} (h : t' = w.threads u) :
    Turn sc w tid u t' := by
  subst h
  exact .waits rfl rfl id

/-- The thread `u`, standing at a lock of `r`, has got it. -/
theorem Turn.takes {w : World} {tid u r : Int} {t' : Thread} {a : Action}
    (hat : sc.actionAt u (w.threads u).pc = some a) (hk : a.type = .mutexLock) (hr : a.resourceId = r)
    (hpc : t'.pc = (w.threads u).pc + 1) (hstate : t'.state = .ready)
    (hstack : t'.ownedMutexStack = (w.threads u).ownedMutexStack.push r) : Turn sc w tid u t' := by
  refine .moves a hat hpc hstate fun held' hstep => ?_
  rw [(heldStep_lock hstep hk).1, hstack, LiveArray.toList_push, List.reverse_append, hr]
  rfl

theorem turn_acquire {w : World} (hv : sc.Valid) (hinv : CoreInv sc w) {tid : Int}
    (htid : sc.IsThread tid) {a : Action} (hready : (w.threads tid).state = .ready)
    (hat : sc.actionAt tid (w.threads tid).pc = some a) (hk : a.type = .mutexLock)
    (hr : sc.IsResource a.resourceId) (hfree : (w.resources a.resourceId).owner = -1) (u : Int) :
    Turn sc w tid u ((((w.modResource a.resourceId fun m => { m with owner := tid }).modThread tid
      (·.ownedPush a.resourceId)).advance tid).threads u) := by
  have hroom := hinv.room_stack hv htid hr (by rw [hfree]; have := htid.1; omega)
  rw [World.advance_threads]
  by_cases hu : u = tid
  · subst hu
    rw [if_pos rfl, World.modThread_self, World.modResource_threads]
    obtain ⟨hstate, _, hpc, _⟩ := Thread.ownedPush_fields (w.threads u) a.resourceId
    exact .takes hat hk rfl (congrArg (· + 1) hpc) (hstate.trans hready) (Thread.ownedPush_of_room hroom)
  · rw [if_neg hu, World.modThread_of_ne _ hu]
    exact .same rfl

theorem turn_block {w : World} {tid r p cur : Int} {fuel : Nat} (u : Int) :
    Turn sc w tid u ((boost sc p fuel cur (w.enqueue tid r .blockedMutex)).threads u) := by
  refine .waits ?_ ?_ fun hdone => ?_
  · rw [boost_field (·.pc) fun _ _ => rfl]
    exact congrFun (pcs_enqueue w tid r .blockedMutex) u
  · rw [boost_field (·.ownedMutexStack) fun _ _ => rfl, World.enqueue_stack]
  · rw [boost_field (·.state) fun _ _ => rfl, World.enqueue_threads] at hdone
    split at hdone
    · exact absurd hdone (by simp [Thread.block])
    · exact hdone

/-- The thread that unlocks moves on without its newest mutex. -/
theorem turn_pops {w : World} {tid : Int} {a : Action} (hready : (w.threads tid).state = .ready)
    (hat : sc.actionAt tid (w.threads tid).pc = some a) (hk : a.type = .mutexUnlock)
    (htop : (w.threads tid).ownedTopIs a.resourceId = true) :
    Turn sc w tid tid ((lowered sc w tid a.resourceId).threads tid).advance := by
  have hlow := lowered_fields sc w tid a.resourceId tid
  refine .moves a hat (congrArg (· + 1) hlow.2.2.1) (hlow.1.trans hready) fun held' hstep => ?_
  have hheld := heldStep_unlock hstep hk
  have hpos : 0 < (w.threads tid).ownedMutexStack.count := by
    simp only [Thread.ownedTopIs, Bool.and_eq_true, decide_eq_true_eq] at htop
    omega
  rw [LiveArray.toList_dropLast hpos, List.reverse_append] at hheld
  have hdrop : ((lowered sc w tid a.resourceId).threads tid).advance.ownedMutexStack
      = (w.threads tid).ownedMutexStack.dropLast :=
    (lowered_stack sc w tid a.resourceId tid).trans (if_pos rfl)
  rw [hdrop]
  exact (List.cons.inj hheld).2.symm

/-- A waiter that is given the mutex moves on past the lock it stands at. -/
theorem turn_granted (ho : sc.LockOrdered) {w : World} (hw : (callSystem sc).Reach w) {tid u : Int}
    {a : Action} (hr : sc.IsResource a.resourceId) (hown : (w.resources a.resourceId).owner = tid)
    (hne : u ≠ tid) (hmem : u ∈ (w.resources a.resourceId).waiters.toList) :
    Turn sc w tid u (((((lowered sc w tid a.resourceId).threads u).resume).advance).ownedPush
      a.resourceId) := by
  have hinv := core_reach ho.mutexOnly.core hw
  have hlow := lowered_fields sc w tid a.resourceId u
  have hstack : ((lowered sc w tid a.resourceId).threads u).ownedMutexStack
      = (w.threads u).ownedMutexStack := (lowered_stack sc w tid a.resourceId u).trans (if_neg hne)
  obtain ⟨hu, hb, hon⟩ := (hinv.mem_waiters hr).mp hmem
  obtain ⟨b, hbat, hbk, _, hbon⟩ := ho.mutexOnly.standsAt_lock hw hu hb
  have hroom : ((lowered sc w tid a.resourceId).threads u).ownedMutexStack.count
      < smashMaxResources := by
    rw [hstack]
    exact hinv.room_stack ho.valid hu hr (by rw [hown]; exact Ne.symm hne)
  have hpush : ((((lowered sc w tid a.resourceId).threads u).resume.advance).ownedPush
      a.resourceId).ownedMutexStack = _ := Thread.ownedPush_of_room hroom
  obtain ⟨hstate, _, hpc, _⟩ := Thread.ownedPush_fields
    (((lowered sc w tid a.resourceId).threads u).resume.advance) a.resourceId
  refine .takes hbat hbk (hbon.symm.trans hon) ?_ (hstate.trans rfl) ?_
  · exact hpc.trans (congrArg (· + 1) hlow.2.2.1)
  · exact hpush.trans (congrArg (·.push a.resourceId) hstack)

theorem turn_unlock (ho : sc.LockOrdered) {w : World} (hw : (callSystem sc).Reach w) {tid : Int}
    {a : Action} (hready : (w.threads tid).state = .ready)
    (hat : sc.actionAt tid (w.threads tid).pc = some a) (hk : a.type = .mutexUnlock)
    (hr : sc.IsResource a.resourceId) (hown : (w.resources a.resourceId).owner = tid)
    (htop : (w.threads tid).ownedTopIs a.resourceId = true) (u : Int) :
    Turn sc w tid u (((handOver (lowered sc w tid a.resourceId) a.resourceId).1.advance tid).threads
      u) := by
  have hself := turn_pops hready hat hk htop
  have hother : u ≠ tid → Turn sc w tid u ((lowered sc w tid a.resourceId).threads u) := by
    intro hne
    have hlow := lowered_fields sc w tid a.resourceId u
    refine .waits hlow.2.2.1 ((lowered_stack sc w tid a.resourceId u).trans (if_neg hne))
      fun hdone => ?_
    rw [← hlow.1]
    exact hdone
  rw [World.advance_threads]
  by_cases hlive : 0 < ((lowered sc w tid a.resourceId).resources a.resourceId).waiters.count
  · rw [handOver_of_waiters hlive]
    have hmem := LiveArray.cell_mem (bestWaiter_lt hlive)
    generalize ((lowered sc w tid a.resourceId).resources a.resourceId).waiters.cell
      ((lowered sc w tid a.resourceId).bestWaiter a.resourceId) = woken at hmem ⊢
    have hne := (core_reach ho.mutexOnly.core hw).ne_of_waits hr hready hmem
    by_cases hut : u = tid
    · subst hut
      rw [if_pos rfl, World.modThread_of_ne _ (Ne.symm hne)]
      exact hself
    rw [if_neg hut]
    by_cases huw : u = woken
    · subst huw
      rw [World.modThread_self]
      exact turn_granted ho hw hr hown hut hmem
    · rw [World.modThread_of_ne _ huw]
      exact hother hut
  · rw [handOver_of_empty hlive]
    by_cases hut : u = tid
    · subst hut
      rw [if_pos rfl]
      exact hself
    · rw [if_neg hut]
      exact hother hut

theorem turn_pass {w : World} {tid : Int} {a : Action} (hready : (w.threads tid).state = .ready)
    (hat : sc.actionAt tid (w.threads tid).pc = some a) (hk : a.type = .nop ∨ a.type = .yield)
    (u : Int) : Turn sc w tid u ((w.advance tid).threads u) := by
  rw [World.advance_threads]
  by_cases hu : u = tid
  · subst hu
    rw [if_pos rfl]
    refine .moves a hat rfl hready fun held' hstep => ?_
    rw [heldStep_pass hk, Option.some.injEq] at hstep
    exact hstep.symm
  · rw [if_neg hu]
    exact .same rfl

/-- **What a call does to a thread** of a lock-ordered scenario. -/
theorem executeStep_turn (ho : sc.LockOrdered) {w : World} (hw : (callSystem sc).Reach w) {tid : Int}
    (htid : sc.IsThread tid) (hok : (w.executeStep sc tid).fault = none) (u : Int) :
    Turn sc w tid u ((w.executeStep sc tid).world.threads u) := by
  have hinv := core_reach ho.mutexOnly.core hw
  rcases executeStep_cases_of_tick hinv.tick_eq hok
    with ⟨_, hw'⟩ | ⟨_, hat, hw'⟩ | ⟨a, hready, hat, _, hfault, hw'⟩
  · rw [hw']
    exact .same rfl
  · rw [hw', World.modThread_threads]
    split
    · subst u
      exact .finishes rfl rfl hat
    · exact .same rfl
  · rw [hw']
    have hact := dispatch_act hfault
    rcases ho.actions tid htid _ a hat with ⟨hk | hk, hr⟩ | hk | hk
    · rcases hact.lock_cases hk with ⟨hfree, hv⟩ | ⟨_, _, hv⟩
      · rw [hv]
        exact turn_acquire ho.valid hinv htid hready hat hk hr hfree u
      · rw [hv]
        exact turn_block u
    · obtain ⟨hown, htop, hv⟩ := hact.unlock_cases hk
      rw [hv]
      exact turn_unlock ho hw hready hat hk hr hown htop u
    · have hv : (w.dispatch sc tid a).world = w.advance tid := by simp [World.dispatch, hk]
      rw [hv]
      exact turn_pass hready hat (.inl hk) u
    · have hv : (w.dispatch sc tid a).world = w.advance tid := by simp [World.dispatch, hk]
      rw [hv]
      exact turn_pass hready hat (.inr hk) u

/-! ## What no call touches -/

/-- **A call leaves contexts, stack depths and lives of objects alone.** -/
theorem executeStep_rest (ho : sc.LockOrdered) {w : World} (hinv : CoreInv sc w) {tid : Int}
    (htid : sc.IsThread tid) (hok : (w.executeStep sc tid).fault = none) :
    (∀ u, ((w.executeStep sc tid).world.threads u).rest = (w.threads u).rest) ∧
    ∀ s, ((w.executeStep sc tid).world.resources s).alive = (w.resources s).alive := by
  rcases executeStep_cases_of_tick hinv.tick_eq hok
    with ⟨_, hw'⟩ | ⟨_, _, hw'⟩ | ⟨a, _, hat, _, hfault, hw'⟩
  · rw [hw']
    exact ⟨fun _ => rfl, fun _ => rfl⟩
  · rw [hw']
    refine ⟨fun u => ?_, fun _ => rfl⟩
    apply World.modThread_field
    rfl
  · rw [hw']
    have hact := dispatch_act hfault
    have hpass : (w.dispatch sc tid a).world = w.advance tid →
        (∀ u, ((w.dispatch sc tid a).world.threads u).rest = (w.threads u).rest) ∧
        ∀ s, ((w.dispatch sc tid a).world.resources s).alive = (w.resources s).alive := by
      intro hv
      rw [hv]
      exact ⟨rest_advance w tid, fun _ => rfl⟩
    rcases ho.actions tid htid _ a hat with ⟨hk | hk, hr⟩ | hk | hk
    · exact ⟨hact.rest (by rw [hk]; rfl), hact.alive (by simp [hk])⟩
    · exact ⟨hact.rest (by rw [hk]; rfl), hact.alive (by simp [hk])⟩
    · exact hpass (by simp [World.dispatch, hk])
    · exact hpass (by simp [World.dispatch, hk])

/-! ## Over every run -/

theorem OrderInv.step (ho : sc.LockOrdered) {w : World} (hw : (callSystem sc).Reach w)
    (h : OrderInv sc w) {tid : Int} (htid : sc.IsThread tid)
    (hok : (w.executeStep sc tid).fault = none) : OrderInv sc (w.executeStep sc tid).world := by
  obtain ⟨hrest, halive⟩ := executeStep_rest ho (core_reach ho.mutexOnly.core hw) htid hok
  have hturn := executeStep_turn ho hw htid hok
  generalize (w.executeStep sc tid).world = w' at hrest halive hturn ⊢
  -- A thread past its last step stands at the end of its list.
  have hend : ∀ t, sc.IsThread t → sc.actionAt t (w.threads t).pc = none →
      ((w.threads t).pc : Int) = sc.stepCount t := fun t ht hat => by
    have hle := h.pc_le t ht
    simp only [Scenario.actionAt, ite_eq_right_iff, reduceCtorEq, imp_false] at hat
    omega
  have hlt : ∀ t a, sc.actionAt t (w.threads t).pc = some a →
      ((w.threads t).pc : Int) < sc.stepCount t := fun t a hat => by
    unfold Scenario.actionAt at hat
    split at hat
    · assumption
    · exact absurd hat (by simp)
  refine ⟨fun t ht => ?_, fun t ht => ?_, fun t ht hdone => ?_, fun t ht => ?_, fun t ht => ?_,
    fun r hr => ?_⟩
  · cases hturn t with
    | waits hpc hstack => rw [hpc, hstack]; exact h.held t ht
    | finishes hpc hstack => rw [hpc, hstack]; exact h.held t ht
    | moves a hat hpc _ hheld =>
      obtain ⟨held', hstep, hnext⟩ := ho.heldStep_actionAt ht hat (h.held t ht)
      rw [hpc, hnext, hheld held' hstep]
  · cases hturn t with
    | waits hpc => rw [hpc]; exact h.pc_le t ht
    | finishes hpc => rw [hpc]; exact h.pc_le t ht
    | moves a hat hpc =>
      have := hlt t a hat
      rw [hpc]
      omega
  · cases hturn t with
    | waits hpc _ hkeep => rw [hpc]; exact h.finished t ht (hkeep hdone)
    | finishes hpc _ hat => rw [hpc]; exact hend t ht hat
    | moves a _ _ hstate =>
      rw [hstate] at hdone
      exact absurd hdone (by decide)
  · exact (congrArg Prod.fst (hrest t)).trans (h.context t ht)
  · exact (congrArg Prod.snd (hrest t)).trans (h.stackDepth t ht)
  · rw [halive]
    exact h.alive r hr

theorem orderInv_reach (ho : sc.LockOrdered) {w : World} (h : (callSystem sc).Reach w) :
    OrderInv sc w := by
  induction h with
  | init hi =>
    obtain ⟨before, rfl⟩ := hi
    have hthread : ∀ t, sc.IsThread t →
        (before.reset sc).threads t = (before.threads t).reset sc t := fun t ht => if_pos ht
    refine ⟨fun t ht => ?_, fun t ht => ?_, fun t ht hdone => ?_, fun t ht => ?_, fun t ht => ?_,
      fun r hr => ?_⟩
    · rw [hthread t ht]
      rfl
    · rw [hthread t ht]
      exact ho.valid.bounds.stepCount_nonneg t ht
    · rw [hthread t ht] at hdone
      exact absurd hdone (by simp [Thread.reset])
    · rw [hthread t ht]
      rfl
    · rw [hthread t ht]
      rfl
    · simp [World.reset, hr, Resource.reset]
  | step hr hst ih =>
    obtain ⟨htid, hok, rfl⟩ := hst
    exact ih.step ho hr htid hok

/-! ## No check fails -/

/-- A waiter's id is a thread's, so a queue is no longer than there are threads. -/
theorem CoreInv.count_le (hv : sc.Valid) {w : World} (h : CoreInv sc w) {r : Int}
    (hr : sc.IsResource r) : (w.resources r).waiters.count ≤ smashMaxWaiters := by
  have hsub : (w.resources r).waiters.toList ⊆ sc.threadIds := fun u hu =>
    Scenario.mem_threadIds.mpr ((h.mem_waiters hr).mp hu).1
  have hlen := (List.subperm_of_subset (h.nodup_waiters hr) hsub).length_le
  rw [LiveArray.length_toList, Scenario.threadIds, length_upTo] at hlen
  have := hv.bounds.threadCount_le
  show _ ≤ 16
  omega

theorem lockOrdered_checkMutex (ho : sc.LockOrdered) {w : World} (hw : (callSystem sc).Reach w) :
    checkMutexIntegrity sc w = none := by
  have h := orderInv_reach ho hw
  have hinv := core_reach ho.mutexOnly.core hw
  refine List.findSome?_eq_none_iff.mpr fun r hr => ?_
  have hr := Scenario.mem_resourceIds.mp hr
  have hfree := hinv.free r hr (ho.mutexes r hr)
  have hcount := hinv.count_le ho.valid hr
  have howner : (w.resources r).owner ≠ -1 → sc.IsThread (w.resources r).owner :=
    hinv.owner_isThread hr
  dsimp only
  rw [if_neg (by rw [reach_type hw hr, ho.mutexes r hr]; simp), if_neg, if_neg, if_neg, if_neg (by omega)]
  · refine List.findSome?_eq_none_iff.mpr fun k hk => ?_
    have hcell := LiveArray.cell_mem (List.mem_range.mp hk)
    obtain ⟨hthread, hb, _⟩ := (hinv.mem_waiters hr).mp hcell
    have hstate := (ho.mutexOnly.blocked hw hthread hb).1
    have := hthread.1
    have := hthread.2
    dsimp only
    rw [if_neg (by omega), if_neg (by simp [hstate])]
  · rintro ⟨hown, hpos⟩
    have := hfree hown
    omega
  · rintro ⟨hpos, hdone⟩
    exact h.doneOwnNothing ho hinv r hr (ho.mutexes r hr) _ (howner (by omega)) hdone rfl
  · intro hout
    by_cases hown : (w.resources r).owner = -1
    · have := ho.valid.bounds.threadCount_pos
      omega
    · have := (howner hown).2
      omega

/-- **No check of `smash_check_all` fails.** -/
theorem lockOrdered_checkAll (ho : sc.LockOrdered) {w : World} (hw : (callSystem sc).Reach w) :
    checkAll sc w = none := by
  have h := orderInv_reach ho hw
  have hinv := core_reach ho.mutexOnly.core hw
  have hsem : checkSemIntegrity sc w = none := by
    refine List.findSome?_eq_none_iff.mpr fun r hr => ?_
    have hr := Scenario.mem_resourceIds.mp hr
    exact if_pos (by rw [reach_type hw hr, ho.mutexes r hr]; simp)
  have howned : checkOwnedMutexIntegrity sc w = none := by
    refine List.findSome?_eq_none_iff.mpr fun t ht => ?_
    have ht := Scenario.mem_threadIds.mp ht
    refine List.findSome?_eq_none_iff.mpr fun k hk => ?_
    obtain ⟨hr, hown⟩ := (hinv.mem_stack ht).mp (LiveArray.cell_mem (List.mem_range.mp hk))
    have := hr.1
    have := hr.2
    dsimp only
    rw [if_neg (by omega), if_neg (by simp [hown])]
  have hcontext : checkContextSafety sc w = none := by
    refine List.findSome?_eq_none_iff.mpr fun t ht => ?_
    have hctx := h.context t (Scenario.mem_threadIds.mp ht)
    have hsys : (w.threads t).sysLockDepth = 0 := congrArg Context.sysLockDepth hctx
    have hisr : (w.threads t).isrDepth = 0 := congrArg Context.isrDepth hctx
    simp [hsys, hisr]
  have hdepth : checkStackDepth sc w = none := by
    refine List.findSome?_eq_none_iff.mpr fun t ht => ?_
    have hzero := h.stackDepth t (Scenario.mem_threadIds.mp ht)
    dsimp only
    split
    · rfl
    · exact if_neg (by omega)
  simp [checkAll, lockOrdered_checkMutex ho hw, hsem, howned, hcontext, hdepth,
    reach_checkPriorityInversion ho.mutexOnly.core hw]

/-! ## No deadlock -/

/-- Of the mutexes waited for, the owner of a great one waits for a greater one. -/
theorem not_blocked_of_stuck (ho : sc.LockOrdered) {w : World} (hw : (callSystem sc).Reach w)
    (hstuck : Stuck sc w) {t : Int} (ht : sc.IsThread t) : (w.threads t).blocked = false := by
  have h := orderInv_reach ho hw
  have hinv := core_reach ho.mutexOnly.core hw
  rw [Bool.eq_false_iff]
  intro hb
  -- Induction on how many ids there are above the one it waits for.
  induction hn : (sc.resourceCount - (w.threads t).blockedOn).toNat using Nat.strong_induction_on
    generalizing t with
  | _ n ih =>
    obtain ⟨u, hu, hub, hedge⟩ := waits_for_blocked ho.mutexOnly hw hstuck (h.doneOwnNothing ho hinv) ht hb
    obtain ⟨_, hr, _, _, hown⟩ := waitsFor_eq_true.mp hedge
    obtain ⟨a, hat, hk, _, hon⟩ := ho.mutexOnly.standsAt_lock hw hu hub
    have hlt := h.lock_gt ho hu hat hk _ ((hinv.mem_stack hu).mpr ⟨hr, hown⟩)
    rw [← hon] at hlt
    have hcount := hr.2
    exact ih _ (by omega) hu hub rfl

theorem lockOrdered_allDone (ho : sc.LockOrdered) {w : World} (hw : (callSystem sc).Reach w)
    (hstuck : Stuck sc w) : allDone sc w = true := by
  rw [allDone_iff]
  intro t ht
  have hnot := not_blocked_of_stuck ho hw hstuck ht
  cases hs : (w.threads t).state with
  | done => rfl
  | ready => exact absurd ⟨ht, hs⟩ (hstuck t)
  | blockedMutex => simp [Thread.blocked, hs] at hnot
  | blockedSem => simp [Thread.blocked, hs] at hnot

/-! ## The engine and the explorer -/

/-- The engine after calls on the threads of `ts`, in order. -/
def Engine.calls (sc : Scenario) (e : Engine) (ts : List Int) : Engine :=
  ts.foldl (fun e t => e.executeStep sc t) e

theorem lockOrdered_calls (ho : sc.LockOrdered) {e : Engine} (hw : (callSystem sc).Reach e.world)
    (hf : e.failed = false) {ts : List Int} (hts : ∀ t ∈ ts, sc.IsThread t) :
    (callSystem sc).Reach (e.calls sc ts).world ∧ (e.calls sc ts).failed = false := by
  induction ts generalizing e with
  | nil => exact ⟨hw, hf⟩
  | cons t ts ih =>
    have ht := hts t List.mem_cons_self
    have hok := (orderInv_reach ho hw).ok ho (core_reach ho.mutexOnly.core hw) ht
    have hw' : (callSystem sc).Reach (e.executeStep sc t).world := .step hw ⟨ht, hok, rfl⟩
    have hf' : (e.executeStep sc t).failed = false := by
      simp [Engine.executeStep, Engine.apply, hf, hok]
    exact ih hw' hf' fun u hu => hts u (List.mem_cons_of_mem _ hu)

theorem lockOrdered_stepFails (ho : sc.LockOrdered) {w : World} (hw : (callSystem sc).Reach w) {t : Int}
    (ht : sc.IsThread t) : stepFails sc w t = false := by
  have hok := (orderInv_reach ho hw).ok ho (core_reach ho.mutexOnly.core hw) ht
  have hcheck := lockOrdered_checkAll ho (.step hw ⟨ht, hok, rfl⟩)
  simp [stepFails, hok, hcheck]

/-- **Consistent lock ordering is safe**: no call ever fails, no check does, nobody is stuck before all are
DONE, and the explorer finds nothing. -/
theorem lockOrdered_safe (ho : sc.LockOrdered) :
    (∀ (e : Engine) (ts : List Int), (∀ t ∈ ts, sc.IsThread t) →
      ((e.reset sc).calls sc ts).failed = false ∧
        checkAll sc ((e.reset sc).calls sc ts).world = none ∧
        (Stuck sc ((e.reset sc).calls sc ts).world →
          allDone sc ((e.reset sc).calls sc ts).world = true)) ∧
    ∀ (cfg : Config) (stack : Nat → Saved),
      (explore sc cfg stack).deadlocks = 0 ∧ (explore sc cfg stack).violations = 0 := by
  refine ⟨fun e ts hts => ?_, fun cfg stack => ⟨?_, ?_⟩⟩
  · have hinit : (callSystem sc).Reach (e.reset sc).world := .init ⟨e.world, rfl⟩
    obtain ⟨hw, hf⟩ := lockOrdered_calls ho hinit rfl hts
    exact ⟨hf, lockOrdered_checkAll ho hw, lockOrdered_allDone ho hw⟩
  · by_contra hpos
    obtain ⟨v, hmem, hk⟩ := (explore_deadlocks_pos ho.valid cfg stack).mp (Nat.pos_of_ne_zero hpos)
    obtain ⟨w, hrun, hstuck, hnot⟩ := deadlockSchedule_of_visit ho.valid hmem hk
    rw [lockOrdered_allDone ho (cleanSystem_reach hrun.reach) hstuck] at hnot
    exact absurd hnot (by decide)
  · by_contra hpos
    obtain ⟨v, hmem, hk⟩ := (explore_violations_pos ho.valid cfg stack).mp (Nat.pos_of_ne_zero hpos)
    obtain ⟨s, t, w, _, hrun, hready, hfails⟩ := violationSchedule_of_visit ho.valid hmem hk
    rw [lockOrdered_stepFails ho (cleanSystem_reach hrun.reach) hready.1] at hfails
    exact absurd hfails (by decide)

/-- `safe_ordering` of `test_invariants.c`. -/
def safeOrdering : Scenario :=
  .ofSteps
    [[⟨.mutexLock, 0, 0⟩, ⟨.mutexLock, 1, 0⟩, ⟨.mutexUnlock, 1, 0⟩, ⟨.mutexUnlock, 0, 0⟩],
      [⟨.mutexLock, 0, 0⟩, ⟨.mutexLock, 1, 0⟩, ⟨.mutexUnlock, 1, 0⟩, ⟨.mutexUnlock, 0, 0⟩]]
    [.mutex, .mutex] []

theorem safeOrdering_lockOrdered : safeOrdering.LockOrdered where
  valid := by decide
  mutexes := Scenario.forall_isResource (by decide)
  actions := forall_actionAt (P := fun _ a =>
    ((a.type = .mutexLock ∨ a.type = .mutexUnlock) ∧ safeOrdering.IsResource a.resourceId) ∨
      a.type = .nop ∨ a.type = .yield) (by decide)
  nested := Scenario.forall_isThread (by decide)

theorem lockOrdered_safe_safeOrdering :
    (∀ (e : Engine) (ts : List Int), (∀ t ∈ ts, safeOrdering.IsThread t) →
      ((e.reset safeOrdering).calls safeOrdering ts).failed = false ∧
        checkAll safeOrdering ((e.reset safeOrdering).calls safeOrdering ts).world = none ∧
        (Stuck safeOrdering ((e.reset safeOrdering).calls safeOrdering ts).world →
          allDone safeOrdering ((e.reset safeOrdering).calls safeOrdering ts).world = true)) ∧
    ∀ (cfg : Config) (stack : Nat → Saved),
      (explore safeOrdering cfg stack).deadlocks = 0 ∧
        (explore safeOrdering cfg stack).violations = 0 :=
  lockOrdered_safe safeOrdering_lockOrdered

end Smash
