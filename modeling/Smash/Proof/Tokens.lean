import Mathlib.Algebra.BigOperators.Group.Finset.Basic
import Smash.Proof.Priority
import Smash.Proof.Progress

/-!
# Semaphore tokens

A wait takes a unit in one of two ways: its own step finds one, or a later signal grants it and moves the
sleeper's `pc`. Either way a `pc` passes a wait exactly when a unit is gone, and a signal exactly when one
is given. `Action.worth` is what passing an action adds to a semaphore; the count is the initial count plus
the worth of everything passed (`tokens_conserved`).
-/

set_option autoImplicit false

namespace Smash

variable {sc : Scenario}

/-! ## Counting steps -/

/-- The action of thread `t` at `pc` is `type` on `r`. -/
def Scenario.runsAt (sc : Scenario) (type : ActionType) (r t : Int) (pc : Nat) : Bool :=
  (sc.actionAt t pc).any fun a => a.type = type ∧ a.resourceId = r

/-- The steps `type` on `r` that lie before each thread's `pc`, summed over the threads. -/
def Scenario.passed (sc : Scenario) (type : ActionType) (r : Int) (pcs : Int → Nat) : Nat :=
  ∑ t ∈ sc.threadSet, (List.range (pcs t)).countP (sc.runsAt type r t)

/-- A `pc` that moves on passes one step. -/
theorem passed_next {type : ActionType} {r t : Int} {pcs : Int → Nat} (ht : sc.IsThread t) :
    sc.passed type r (Function.update pcs t (pcs t + 1))
      = sc.passed type r pcs + if sc.runsAt type r t (pcs t) then 1 else 0 := by
  have hmem : t ∈ sc.threadSet := Scenario.mem_threadSet.mpr ht
  have hnew := Finset.add_sum_erase sc.threadSet (fun u => (List.range
    (Function.update pcs t (pcs t + 1) u)).countP (sc.runsAt type r u)) hmem
  have hold := Finset.add_sum_erase sc.threadSet
    (fun u => (List.range (pcs u)).countP (sc.runsAt type r u)) hmem
  have hrest : ∑ u ∈ sc.threadSet.erase t, (List.range
      (Function.update pcs t (pcs t + 1) u)).countP (sc.runsAt type r u)
      = ∑ u ∈ sc.threadSet.erase t, (List.range (pcs u)).countP (sc.runsAt type r u) :=
    Finset.sum_congr rfl fun u hu => by rw [Function.update_of_ne (Finset.ne_of_mem_erase hu)]
  simp only [Function.update_self, List.range_succ, List.countP_append,
    List.countP_singleton] at hnew
  unfold Scenario.passed
  omega

/-! ## The worth of an action -/

/-- The units that passing `a` adds to the semaphore `r`. -/
def Action.worth (a : Action) (r : Int) : Int :=
  if a.resourceId ≠ r then 0
  else if a.type = .semSignal then 1
  else if a.type = .semWait then -1
  else 0

/-- What the passed signals on `r` are ahead of the passed waits. -/
def Scenario.balance (sc : Scenario) (r : Int) (pcs : Int → Nat) : Int :=
  (sc.passed .semSignal r pcs : Int) - (sc.passed .semWait r pcs : Int)

theorem balance_next {r t : Int} {pcs : Int → Nat} {a : Action} (ht : sc.IsThread t)
    (hat : sc.actionAt t (pcs t) = some a) :
    sc.balance r (Function.update pcs t (pcs t + 1)) = sc.balance r pcs + a.worth r := by
  have hruns : ∀ type, sc.runsAt type r t (pcs t) = decide (a.type = type ∧ a.resourceId = r) := by
    intro type
    simp [Scenario.runsAt, hat]
  unfold Scenario.balance Action.worth
  rw [passed_next ht, passed_next ht, hruns, hruns]
  by_cases hr : a.resourceId = r
  · by_cases hs : a.type = .semSignal
    · simp [hr, hs]
      omega
    · by_cases hw : a.type = .semWait
      · simp [hr, hw]
        omega
      · simp [hr, hs, hw]
  · simp [hr]

theorem worth_of_not_sem {a : Action} (hs : a.type ≠ .semSignal) (hw : a.type ≠ .semWait) (r : Int) :
    a.worth r = 0 := by
  simp [Action.worth, hs, hw]

/-! ## One step -/

/-- The count of `r` is what it was at first plus what has been passed. -/
def Tokens (sc : Scenario) (r : Int) (w : World) : Prop :=
  (w.resources r).count = sc.semInit r + sc.balance r w.pcs

/-- An action that goes through by itself: the count changes by the action's worth. -/
theorem Tokens.next {r tid : Int} {w w' : World} {a : Action} (h : Tokens sc r w)
    (htid : sc.IsThread tid) (hat : sc.actionAt tid (w.threads tid).pc = some a)
    (hpcs : w'.pcs = Function.update w.pcs tid (w.pcs tid + 1))
    (hcount : (w'.resources r).count = (w.resources r).count + a.worth r) : Tokens sc r w' := by
  unfold Tokens at h ⊢
  rw [hpcs, balance_next htid hat, hcount, h]
  omega

/-- An action that grants a wait: what the grant gives the waiter takes. -/
theorem Tokens.grant {r tid woken : Int} {w w' : World} {a b : Action} (h : Tokens sc r w)
    (htid : sc.IsThread tid) (hat : sc.actionAt tid (w.threads tid).pc = some a)
    (hwoken : sc.IsThread woken) (hne : woken ≠ tid)
    (hbt : sc.actionAt woken (w.threads woken).pc = some b)
    (hpcs : w'.pcs = Function.update (Function.update w.pcs woken (w.pcs woken + 1)) tid
      (w.pcs tid + 1))
    (hworth : a.worth r + b.worth r = 0)
    (hcount : (w'.resources r).count = (w.resources r).count) : Tokens sc r w' := by
  have hself : Function.update w.pcs woken (w.pcs woken + 1) tid = w.pcs tid :=
    Function.update_of_ne (Ne.symm hne) _ _
  have hgiver : sc.balance r (Function.update (Function.update w.pcs woken (w.pcs woken + 1)) tid
      (w.pcs tid + 1)) = sc.balance r w.pcs + b.worth r + a.worth r := by
    rw [← balance_next hwoken hbt, ← hself]
    exact balance_next htid (by rw [hself]; exact hat)
  unfold Tokens at h ⊢
  rw [hpcs, hgiver, hcount, h]
  omega

theorem World.modResource_count {w : World} {r : Int} {f : Resource → Resource}
    (h : (f (w.resources r)).count = (w.resources r).count) (s : Int) :
    ((w.modResource r f).resources s).count = (w.resources s).count :=
  World.modResource_field (·.count) h s

@[simp] theorem waiterRemove_count (w : World) (r : Int) (i : Nat) (s : Int) :
    ((w.waiterRemove r i).resources s).count = (w.resources s).count := by
  unfold World.waiterRemove
  apply World.modResource_count
  rfl

@[simp] theorem enqueue_count (w : World) (tid r : Int) (state : ThreadState) (s : Int) :
    ((w.enqueue tid r state).resources s).count = (w.resources s).count := by
  rw [World.enqueue, World.modThread_resources]
  apply World.modResource_count
  rfl

/-- A core action that waits is a lock or a semaphore wait. -/
theorem ActionType.of_core_wait {a : ActionType} {state : ThreadState} (hcore : a.core = true)
    (hwait : a.wait = some state) : a = .mutexLock ∨ a = .semWait := by
  cases a <;> simp_all [ActionType.core, ActionType.wait]

/-- A waiter of a mutex stands at a lock of it, … -/
theorem mutex_waiter_standsAt (hc : sc.Core) {w : World} (h : (callSystem sc).Reach w) {u r : Int}
    (hr : sc.IsResource r) (htype : sc.resTypes r = .mutex)
    (hu : u ∈ (w.resources r).waiters.toList) :
    ∃ b, sc.actionAt u (w.threads u).pc = some b ∧ b.resourceId = r ∧ b.type = .mutexLock := by
  obtain ⟨ht, hb, hon⟩ := ((core_reach hc h).mem_waiters hr).mp hu
  obtain ⟨b, hbt, hwait, hres⟩ := reach_standsAt h ht hb
  have hop := hc.operand u ht _ b hbt
  rw [← hres, hon, htype] at hop
  refine ⟨b, hbt, hres.symm.trans hon, ?_⟩
  rcases ActionType.of_core_wait (hc.core u ht _ b hbt) hwait with hlock | hsem
  · exact hlock
  · exact absurd (hop .semaphore (by rw [hsem]; rfl)).2 (by decide)

/-- … and one of a semaphore at a wait. -/
theorem sem_waiter_standsAt (hc : sc.Core) {w : World} (h : (callSystem sc).Reach w) {u r : Int}
    (hr : sc.IsResource r) (htype : sc.resTypes r = .semaphore)
    (hu : u ∈ (w.resources r).waiters.toList) :
    ∃ b, sc.actionAt u (w.threads u).pc = some b ∧ b.resourceId = r ∧ b.type = .semWait := by
  obtain ⟨ht, hb, hon⟩ := ((core_reach hc h).mem_waiters hr).mp hu
  obtain ⟨b, hbt, hwait, hres⟩ := reach_standsAt h ht hb
  have hop := hc.operand u ht _ b hbt
  rw [← hres, hon, htype] at hop
  refine ⟨b, hbt, hres.symm.trans hon, ?_⟩
  rcases ActionType.of_core_wait (hc.core u ht _ b hbt) hwait with hlock | hsem
  · exact absurd (hop .mutex (by rw [hlock]; rfl)).2 (by decide)
  · exact hsem

/-- An unlock, which moves no unit: the thread moves on, and so does the waiter that gets the mutex. -/
theorem Tokens.unlock (hc : sc.Core) {w : World} (hw : (callSystem sc).Reach w) {tid : Int}
    {a : Action} {r : Int} (htid : sc.IsThread tid) (hready : (w.threads tid).state = .ready)
    (hat : sc.actionAt tid (w.threads tid).pc = some a) (hk : a.type = .mutexUnlock)
    (h : Tokens sc r w) :
    Tokens sc r ((handOver (lowered sc w tid a.resourceId) a.resourceId).1.advance tid) := by
  have hinv := core_reach hc hw
  obtain ⟨hra, htype⟩ := hc.operand tid htid _ _ hat .mutex (by rw [hk]; rfl)
  have hworth : ∀ r, a.worth r = 0 := worth_of_not_sem (by simp [hk]) (by simp [hk])
  by_cases hlive : 0 < ((lowered sc w tid a.resourceId).resources a.resourceId).waiters.count
  · rw [handOver_of_waiters hlive]
    have hmem := LiveArray.cell_mem (bestWaiter_lt hlive)
    have hne := hinv.ne_of_waits hra hready hmem
    obtain ⟨b, hbt, _, hlock⟩ := mutex_waiter_standsAt hc hw hra htype hmem
    refine h.grant htid hat ((hinv.mem_waiters hra).mp hmem).1 hne hbt ?_ ?_ ?_
    · rw [pcs_grant hne (pc_ownedPush _ _)]
      simp
    · rw [hworth, worth_of_not_sem (by simp [hlock]) (by simp [hlock]), add_zero]
    · rw [World.advance_resources, World.modThread_resources, World.modResource_count rfl,
        waiterRemove_count]
      rfl
  · rw [handOver_of_empty hlive]
    refine h.next htid hat ?_ ?_
    · rw [pcs_advance, pcs_modResource, pcs_lowered]
    · rw [World.advance_resources, World.modResource_count rfl, hworth, add_zero]
      rfl

/-- A signal that finds a waiter: the unit goes on to it. -/
theorem Tokens.granted (hc : sc.Core) {w : World} (hw : (callSystem sc).Reach w) {tid : Int}
    {a : Action} {r : Int} (htid : sc.IsThread tid) (hready : (w.threads tid).state = .ready)
    (hat : sc.actionAt tid (w.threads tid).pc = some a) (hk : a.type = .semSignal)
    (hlive : 0 < (w.resources a.resourceId).waiters.count) (h : Tokens sc r w) :
    Tokens sc r ((w.grantSem a.resourceId).advance tid) := by
  have hinv := core_reach hc hw
  obtain ⟨hra, htype⟩ := hc.operand tid htid _ _ hat .semaphore (by rw [hk]; rfl)
  have hmem := LiveArray.cell_mem (bestWaiter_lt hlive)
  have hne := hinv.ne_of_waits hra hready hmem
  obtain ⟨b, hbt, hbr, hwait⟩ := sem_waiter_standsAt hc hw hra htype hmem
  refine h.grant htid hat ((hinv.mem_waiters hra).mp hmem).1 hne hbt ?_ ?_ ?_
  · exact pcs_grant (v := w.waiterRemove a.resourceId (w.bestWaiter a.resourceId)) hne rfl
  · by_cases hra' : a.resourceId = r
    · simp [Action.worth, hk, hwait, hbr, hra']
    · simp [Action.worth, hbr, hra']
  · exact waiterRemove_count w _ _ r

/-- **Every action moves the units that it is worth.** -/
theorem Tokens.act (hc : sc.Core) {w : World} (hw : (callSystem sc).Reach w) {tid : Int} {a : Action}
    {r : Int} (htid : sc.IsThread tid) (hready : (w.threads tid).state = .ready)
    (hat : sc.actionAt tid (w.threads tid).pc = some a)
    (hok : (w.dispatch sc tid a).fault = none) (h : Tokens sc r w) :
    Tokens sc r (w.dispatch sc tid a).world := by
  have hcore := hc.core tid htid _ _ hat
  by_cases hk : a.type.bookkeeping = true
  · obtain ⟨hpcs, hres⟩ := dispatch_bookkeep hk hcore hok
    refine h.next htid hat hpcs ?_
    rw [hres, worth_of_not_sem (by rintro h; simp [h, ActionType.bookkeeping] at hk)
      (by rintro h; simp [h, ActionType.bookkeeping] at hk), add_zero]
  have hact := dispatch_act hok
  generalize (w.dispatch sc tid a).world = w' at hact ⊢
  cases hact with
  | bookkeep hk' => exact absurd hk' hk
  | exit hk =>
    have hpcs := pcs_modThread (w := w) (t := tid) (f := fun t => { t with state := .done }) rfl
    unfold Tokens
    rw [hpcs]
    exact h
  | lifecycle alive hk =>
    refine h.next htid hat (pcs_advance _ _) ?_
    rw [World.advance_resources, World.modResource_count rfl,
      worth_of_not_sem (by rcases hk with hk | hk <;> simp [hk])
        (by rcases hk with hk | hk <;> simp [hk]), add_zero]
  | acquire hk =>
    have hlock : a.type = .mutexLock := by
      cases htp : a.type <;> simp_all [ActionType.locks, ActionType.core]
    refine h.next htid hat ?_ ?_
    · rw [pcs_advance, pcs_modThread (f := (·.ownedPush a.resourceId)) (pc_ownedPush _ _)]
      rfl
    · rw [World.advance_resources, World.modThread_resources, World.modResource_count rfl,
        worth_of_not_sem (by simp [hlock]) (by simp [hlock]), add_zero]
  | blockMutex hk =>
    unfold Tokens
    rw [ActionType.countdown_of_core hcore]
    simp only [World.arm, pcs_boost, pcs_enqueue, boost_resources, enqueue_count]
    exact h
  | blockSem hk =>
    unfold Tokens
    rw [ActionType.countdown_of_core hcore]
    simp only [World.arm, pcs_enqueue, enqueue_count]
    exact h
  | unlock hk => exact h.unlock hc hw htid hready hat hk
  | take hk hunit =>
    have hwait : a.type = .semWait := by
      cases htp : a.type <;> simp_all [ActionType.waits, ActionType.core]
    refine h.next htid hat (pcs_advance _ _) ?_
    rw [World.advance_resources, World.modResource_resources]
    by_cases hra : r = a.resourceId
    · subst hra
      simp [Action.worth, hwait]
      omega
    · rw [if_neg hra]
      simp [Action.worth, Ne.symm hra]
  | signal hk =>
    refine h.next htid hat (pcs_advance _ _) ?_
    rw [World.advance_resources, World.modResource_resources]
    by_cases hra : r = a.resourceId
    · subst hra
      simp [Action.worth, hk]
    · rw [if_neg hra]
      simp [Action.worth, Ne.symm hra]
  | grant hk hlive => exact h.granted hc hw htid hready hat hk hlive
  | condWait _ hk | condSignal hk | condLost hk | condBroadcast hk | mailWake hk =>
    rw [hk] at hcore
    exact absurd hcore (by decide)
  | mail hk | mailBlock hk =>
    rw [ActionType.mails_of_core hcore] at hk
    exact absurd hk (by decide)

/-! ## Over every run -/

theorem Tokens.reset {r : Int} (hr : sc.IsResource r) (before : World) :
    Tokens sc r (before.reset sc) := by
  have hpcs : ∀ type, sc.passed type r (before.reset sc).pcs = 0 := by
    intro type
    refine Finset.sum_eq_zero fun t ht => ?_
    have hzero : (before.reset sc).pcs t = 0 := by
      simp [World.pcs, World.reset, Scenario.mem_threadSet.mp ht, Thread.reset]
    rw [hzero]
    rfl
  unfold Tokens Scenario.balance
  rw [hpcs, hpcs]
  simp [World.reset, hr, Resource.reset]

theorem reach_tokens (hc : sc.Core) {w : World} (h : (callSystem sc).Reach w) {r : Int}
    (hr : sc.IsResource r) : Tokens sc r w := by
  induction h with
  | init hi =>
    obtain ⟨before, rfl⟩ := hi
    exact Tokens.reset hr before
  | @step w _ tid hw hst ih =>
    obtain ⟨htid, hok, rfl⟩ := hst
    rcases executeStep_cases_of_tick (core_reach hc hw).tick_eq hok with
      ⟨_, hw'⟩ | ⟨_, _, hw'⟩ | ⟨a, hready, hat, _, hfault, hw'⟩
    · rw [hw']
      exact ih
    · rw [hw']
      unfold Tokens
      rw [pcs_modThread (f := fun t => { t with state := .done }) rfl]
      exact ih
    · rw [hw']
      exact ih.act hc hw htid hready hat hfault

/-- **Tokens are conserved**: in every reached state of a core scenario, the count of a semaphore and the
waits on it that the threads have passed make up the initial count and the signals they have passed. For the
other resources all four are what they were at the start. -/
theorem tokens_conserved (hc : sc.Core) {w : World} (h : (callSystem sc).Reach w) {r : Int}
    (hr : sc.IsResource r) :
    (w.resources r).count + (sc.passed .semWait r w.pcs : Int)
      = sc.semInit r + (sc.passed .semSignal r w.pcs : Int) := by
  have htokens := reach_tokens hc h hr
  unfold Tokens Scenario.balance at htokens
  omega

theorem signalWait_core : signalWait.Core where
  toMatching := Scenario.matching_of_steps (by decide) (by decide)
  core := forall_actionAt (P := fun _ a => a.type.core = true) (by decide)
  lifecycle := forall_actionAt (P := fun _ a => a.type = .objectInit ∨ a.type = .objectDestroy →
    signalWait.IsResource a.resourceId) (by decide)

/-- The signal of `T1` moves the sleeper past its wait, and the count stays zero. -/
theorem tokens_conserved_signalWait :
    let w := (startWorld signalWait).calls signalWait [0, 1]
    (w.resources 0).count + (signalWait.passed .semWait 0 w.pcs : Int)
      = signalWait.semInit 0 + (signalWait.passed .semSignal 0 w.pcs : Int) :=
  tokens_conserved signalWait_core (reach_calls (by decide +kernel)) (by decide)

end Smash
