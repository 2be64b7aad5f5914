import Smash.Proof.Tokens
import Smash.Proof.Constraints

/-!
# Steps as they complete

A step completes when its thread's `pc` moves past it. For most steps that happens in the call that executes
the step; a lock or a wait that blocks completes inside the unlock or signal of another thread.
`completionSystem` is a machine whose only state is the `pc`s and whose moves are single completions, under
two guards: a lock completes while nobody else holds the mutex, and a wait on an initially empty semaphore
once it has been signalled. A call of the engine is at most two moves of it, first of the thread that runs
and then of the one that it wakes (`call_completes`), so a run of the engine is a run of the machine
(`run_completes`).
-/

set_option autoImplicit false

namespace Smash

open OrderConstraints

variable {sc : Scenario}

/-! ## The machine -/

/-- `t` has locked `r` and not unlocked it since. -/
def Holds (sc : Scenario) (pcs : Int → Nat) (t r : Int) : Prop :=
  ∃ s < pcs t, (sc.steps t s).type = .mutexLock ∧ (sc.steps t s).resourceId = r ∧
    ∀ k, s < k → k < pcs t → ¬ ((sc.steps t k).type = .mutexUnlock ∧ (sc.steps t k).resourceId = r)

/-- What must be so for the step `v` to complete. -/
structure Completes (sc : Scenario) (pcs : Int → Nat) (v : StepVar) : Prop where
  lock : (sc.steps v.tid v.step).type = .mutexLock → ∀ t, sc.IsThread t → t ≠ v.tid →
    ¬ Holds sc pcs t (sc.steps v.tid v.step).resourceId
  wait : ∀ r, EmptyWait sc r v → ∃ sig, SignalStep sc r sig ∧ sig.step < pcs sig.tid

/-- The machine; its labels are the steps that complete. -/
def completionSystem (sc : Scenario) : TransitionSystem (Int → Nat) StepVar where
  init pcs := ∀ t, sc.IsThread t → pcs t = 0
  step pcs v pcs' := sc.HasStep v.tid v.step ∧ v.step = pcs v.tid ∧ Completes sc pcs v ∧
    pcs' = Function.update pcs v.tid (pcs v.tid + 1)

/-! ### Its runs -/

section Runs

variable {p p' : Int → Nat} {ls : List StepVar}

theorem completions_le (h : (completionSystem sc).Run p ls p') (t : Int) : p t ≤ p' t := by
  induction h with
  | nil => exact le_refl _
  | @cons p p₁ p' v ls hst _ ih =>
    obtain ⟨_, _, _, rfl⟩ := hst
    refine le_trans ?_ ih
    rw [Function.update_apply]
    split
    · subst t
      exact Nat.le_succ _
    · exact le_refl _

/-- The steps of a run are those that the `pc`s have moved past. -/
theorem mem_completions (h : (completionSystem sc).Run p ls p') (v : StepVar) :
    v ∈ ls ↔ p v.tid ≤ v.step ∧ v.step < p' v.tid := by
  induction h with
  | nil => simp
  | @cons p p₁ p' u ls hst hrun ih =>
    obtain ⟨_, hnext, _, rfl⟩ := hst
    have hle := completions_le hrun u.tid
    rw [Function.update_self] at hle
    rw [List.mem_cons, ih]
    by_cases hsame : v.tid = u.tid
    · rw [hsame, Function.update_self]
      constructor
      · rintro (rfl | hlater)
        · omega
        · omega
      · intro hstep
        by_cases heq : v.step = u.step
        · exact .inl (by
            obtain ⟨t, s⟩ := v
            obtain ⟨t', s'⟩ := u
            simp_all)
        · exact .inr (by omega)
    · rw [Function.update_of_ne hsame]
      constructor
      · rintro (rfl | hlater)
        · exact absurd rfl hsame
        · exact hlater
      · exact .inr

/-- A run completes steps that there are, each of them once. -/
theorem completions_hasStep (h : (completionSystem sc).Run p ls p') :
    ∀ v ∈ ls, sc.HasStep v.tid v.step := by
  induction h with
  | nil => exact fun v hv => absurd hv List.not_mem_nil
  | cons hst _ ih =>
    intro v hv
    rcases List.mem_cons.mp hv with rfl | hlater
    · exact hst.1
    · exact ih v hlater

theorem nodup_completions (h : (completionSystem sc).Run p ls p') : ls.Nodup := by
  induction h with
  | nil => exact List.nodup_nil
  | @cons p p₁ p' v ls hst hrun ih =>
    obtain ⟨_, hnext, _, rfl⟩ := hst
    refine List.nodup_cons.mpr ⟨fun hagain => ?_, ih⟩
    have hle := ((mem_completions hrun v).mp hagain).1
    rw [Function.update_self] at hle
    omega

/-- When a step of the run completed, and what had completed before it. -/
theorem completion_of_mem (hinit : (completionSystem sc).init p)
    (h : (completionSystem sc).Run p ls p') {v : StepVar} (hv : v ∈ ls) :
    ∃ q : Int → Nat, sc.IsThread v.tid ∧ q v.tid = v.step ∧ Completes sc q v ∧
      ∀ u : StepVar, sc.IsThread u.tid → (ls.idxOf u < ls.idxOf v ↔ u.step < q u.tid) := by
  obtain ⟨front, back, rfl⟩ := List.append_of_mem hv
  obtain ⟨q, q', hfront, ⟨hstep, hnext, hcompletes, _⟩, _⟩ := h.split
  have hbefore : ∀ u : StepVar, sc.IsThread u.tid → (u ∈ front ↔ u.step < q u.tid) := by
    intro u hu
    rw [mem_completions hfront, hinit u.tid hu]
    exact and_iff_right (Nat.zero_le _)
  have hfresh : v ∉ front := by
    rw [hbefore v hstep.1]
    omega
  exact ⟨q, hstep.1, hnext.symm, hcompletes, fun u hu => (idxOf_lt_iff hfresh).trans (hbefore u hu)⟩

/-! ### Its order -/

/-- The steps that make up a run, in the order of their completion, meet the constraints. -/
theorem completions_satisfy (hinit : (completionSystem sc).init p)
    (h : (completionSystem sc).Run p ls p')
    (hall : ∀ t, sc.IsThread t → (sc.stepCount t).toNat ≤ p' t) :
    InProgramOrder sc (fun v => (ls.idxOf v : Int)) ∧
      (sc.stepVars.Pairwise fun a b => (ls.idxOf a : Int) ≠ (ls.idxOf b : Int)) ∧
      Exclusive sc (fun v => (ls.idxOf v : Int)) ∧ Signalled sc (fun v => (ls.idxOf v : Int)) := by
  have hmem : ∀ v : StepVar, sc.HasStep v.tid v.step → v ∈ ls := by
    intro v hv
    rw [mem_completions h, hinit _ hv.1]
    exact ⟨Nat.zero_le _, hv.2.trans_le (hall _ hv.1)⟩
  -- Of two critical sections, the one whose lock completes first is over when the other one starts.
  have hover : ∀ r t₁ s₁ u₁ t₂ s₂ u₂, LockPair sc r t₁ s₁ u₁ → LockPair sc r t₂ s₂ u₂ → t₁ ≠ t₂ →
      ls.idxOf ⟨t₁, s₁⟩ < ls.idxOf ⟨t₂, s₂⟩ → ls.idxOf ⟨t₁, u₁⟩ < ls.idxOf ⟨t₂, s₂⟩ := by
    intro r t₁ s₁ u₁ t₂ s₂ u₂ hfirst hsecond hne hlt
    obtain ⟨q, _, _, hcompletes, hbefore⟩ := completion_of_mem hinit h (hmem ⟨t₂, s₂⟩ hsecond.step)
    obtain ⟨_, _, _, _, hopen⟩ := matchingUnlock_eq_some hfirst.unlock
    have hlocked : s₁ < q t₁ := (hbefore ⟨t₁, s₁⟩ hfirst.step.1).mp hlt
    refine (hbefore ⟨t₁, u₁⟩ hfirst.step.1).mpr ?_
    by_contra hheld
    refine hcompletes.lock hsecond.lock t₁ hfirst.step.1 hne ⟨s₁, hlocked, hfirst.lock, ?_, ?_⟩
    · rw [hfirst.resource]
      exact hsecond.resource.symm
    · intro k hk hkq
      rw [hsecond.resource]
      have hku : k < u₁ := Nat.lt_of_lt_of_le hkq (Nat.not_lt.mp hheld)
      exact hopen k hk hku
  refine ⟨fun t s hstep => ?_, ?_, ?_, ?_⟩
  · obtain ⟨q, _, hnext, _, hbefore⟩ := completion_of_mem hinit h (hmem ⟨t, s + 1⟩ hstep)
    exact Int.ofNat_lt.mpr ((hbefore ⟨t, s⟩ hstep.1).mpr (by rw [hnext]; exact Nat.lt_succ_self s))
  · exact distinct_idxOf sc.nodup_stepVars fun v hv => hmem v (Scenario.mem_stepVars.mp hv)
  · intro r t₁ s₁ u₁ t₂ s₂ u₂ hfirst hsecond hlt
    have hne : t₁ ≠ t₂ := ne_of_lt hlt
    rcases Nat.lt_trichotomy (ls.idxOf ⟨t₁, s₁⟩) (ls.idxOf ⟨t₂, s₂⟩) with hbefore | hsame | hafter
    · exact .inl (Int.ofNat_lt.mpr (hover _ _ _ _ _ _ _ hfirst hsecond hne hbefore))
    · have heq := (List.idxOf_inj (hmem ⟨t₁, s₁⟩ hfirst.step)).mp hsame
      exact absurd (congrArg StepVar.tid heq) hne
    · exact .inr (Int.ofNat_lt.mpr (hover _ _ _ _ _ _ _ hsecond hfirst (Ne.symm hne) hafter))
  · intro r v hwait _
    obtain ⟨q, _, _, hcompletes, hbefore⟩ := completion_of_mem hinit h (hmem v hwait.step)
    obtain ⟨sig, hsignal, hpassed⟩ := hcompletes.wait r hwait
    exact ⟨sig, hsignal, Int.ofNat_lt.mpr ((hbefore sig hsignal.step.1).mpr hpassed)⟩

end Runs

/-! ## What a call completes -/

/-- Owners of the resources. -/
def World.owners (w : World) (r : Int) : Int := (w.resources r).owner

/-- The `pc`s after `t` has moved on. -/
def nextPcs (pcs : Int → Nat) (t : Int) : Int → Nat := Function.update pcs t (pcs t + 1)

/-- What a call for `tid` may do to `pc`s and owners. -/
inductive CallEffect (sc : Scenario) (w : World) (tid : Int) (w' : World) : Prop
  | still : w'.pcs = w.pcs → w'.owners = w.owners → CallEffect sc w tid w'
  | pass {a : Action} : sc.actionAt tid (w.pcs tid) = some a → a.type ≠ .mutexLock →
      a.type ≠ .mutexUnlock → a.type ≠ .semWait → w'.pcs = nextPcs w.pcs tid →
      w'.owners = w.owners → CallEffect sc w tid w'
  | take {a : Action} : sc.actionAt tid (w.pcs tid) = some a → a.type = .semWait →
      0 < (w.resources a.resourceId).count → w'.pcs = nextPcs w.pcs tid → w'.owners = w.owners →
      CallEffect sc w tid w'
  | lock {a : Action} : sc.actionAt tid (w.pcs tid) = some a → a.type = .mutexLock →
      w.owners a.resourceId = -1 → w'.pcs = nextPcs w.pcs tid →
      w'.owners = Function.update w.owners a.resourceId tid → CallEffect sc w tid w'
  | unlock {a : Action} : sc.actionAt tid (w.pcs tid) = some a → a.type = .mutexUnlock →
      w.owners a.resourceId = tid → w'.pcs = nextPcs w.pcs tid →
      w'.owners = Function.update w.owners a.resourceId (-1) → CallEffect sc w tid w'
  | hand {a b : Action} {u : Int} : sc.actionAt tid (w.pcs tid) = some a → a.type = .mutexUnlock →
      w.owners a.resourceId = tid → sc.IsThread u → u ≠ tid → sc.actionAt u (w.pcs u) = some b →
      b.type = .mutexLock → b.resourceId = a.resourceId → w'.pcs = nextPcs (nextPcs w.pcs tid) u →
      w'.owners = Function.update w.owners a.resourceId u → CallEffect sc w tid w'
  | grant {a b : Action} {u : Int} : sc.actionAt tid (w.pcs tid) = some a → a.type = .semSignal →
      sc.IsThread u → u ≠ tid → sc.actionAt u (w.pcs u) = some b → b.type = .semWait →
      b.resourceId = a.resourceId → w'.pcs = nextPcs (nextPcs w.pcs tid) u → w'.owners = w.owners →
      CallEffect sc w tid w'

@[simp] theorem owners_modThread (w : World) (t : Int) (f : Thread → Thread) :
    (w.modThread t f).owners = w.owners := rfl

@[simp] theorem owners_advance (w : World) (t : Int) : (w.advance t).owners = w.owners := rfl

@[simp] theorem owners_waiterRemove (w : World) (r : Int) (i : Nat) :
    (w.waiterRemove r i).owners = w.owners := funext (World.waiterRemove_owner w r i)

@[simp] theorem owners_lowered (w : World) (tid r : Int) : (lowered sc w tid r).owners = w.owners := rfl

theorem owners_modResource (w : World) (r : Int) (f : Resource → Resource) :
    (w.modResource r f).owners = Function.update w.owners r (f (w.resources r)).owner := by
  funext s
  simp only [World.owners, World.modResource_resources, Function.update_apply]
  split <;> rfl

theorem owners_keep {w : World} {r : Int} {f : Resource → Resource}
    (h : (f (w.resources r)).owner = (w.resources r).owner) : (w.modResource r f).owners = w.owners :=
  funext (World.modResource_owner h)

/-- The thread that runs and one that it wakes move on. -/
theorem pcs_wake {v : World} {woken tid : Int} {g : Thread → Thread} (hne : woken ≠ tid)
    (hg : (g (v.threads woken)).pc = (v.threads woken).pc + 1) :
    ((v.modThread woken g).advance tid).pcs = nextPcs (nextPcs v.pcs tid) woken := by
  rw [pcs_grant hne hg, Function.update_comm hne]
  unfold nextPcs
  rw [Function.update_of_ne hne]

/-- An unlock frees the mutex or hands it over. -/
theorem callEffect_unlock (hc : sc.Core) {w : World} (hw : (callSystem sc).Reach w) {tid : Int}
    {a : Action} (hready : (w.threads tid).state = .ready)
    (hat : sc.actionAt tid (w.threads tid).pc = some a) (hk : a.type = .mutexUnlock)
    (htid : sc.IsThread tid) (hown : (w.resources a.resourceId).owner = tid) :
    CallEffect sc w tid ((handOver (lowered sc w tid a.resourceId) a.resourceId).1.advance tid) := by
  have hinv := core_reach hc hw
  obtain ⟨hra, htype⟩ := hc.operand tid htid _ _ hat .mutex (by rw [hk]; rfl)
  by_cases hlive : 0 < ((lowered sc w tid a.resourceId).resources a.resourceId).waiters.count
  · rw [handOver_of_waiters hlive]
    have hmem := LiveArray.cell_mem (bestWaiter_lt hlive)
    have hne := hinv.ne_of_waits hra hready hmem
    obtain ⟨b, hbt, hbr, hlock⟩ := mutex_waiter_standsAt hc hw hra htype hmem
    refine .hand hat hk hown ((hinv.mem_waiters hra).mp hmem).1 hne hbt hlock hbr ?_ ?_
    · rw [pcs_wake hne (pc_ownedPush _ _), pcs_modResource, pcs_waiterRemove, pcs_lowered]
    · rw [owners_advance, owners_modThread, owners_modResource, owners_waiterRemove, owners_lowered]
  · rw [handOver_of_empty hlive]
    refine .unlock hat hk hown ?_ ?_
    · rw [pcs_advance, pcs_modResource, pcs_lowered]
      rfl
    · rw [owners_advance, owners_modResource, owners_lowered]

theorem dispatch_callEffect (hc : sc.Core) {w : World} (hw : (callSystem sc).Reach w) {tid : Int}
    {a : Action} (htid : sc.IsThread tid) (hready : (w.threads tid).state = .ready)
    (hat : sc.actionAt tid (w.threads tid).pc = some a) (hok : (w.dispatch sc tid a).fault = none) :
    CallEffect sc w tid (w.dispatch sc tid a).world := by
  have hcore := hc.core tid htid _ _ hat
  have hinv := core_reach hc hw
  by_cases hk : a.type.bookkeeping = true
  · obtain ⟨hpcs, hres⟩ := dispatch_bookkeep hk hcore hok
    refine .pass hat ?_ ?_ ?_ hpcs (by unfold World.owners; rw [hres]) <;>
      (rintro h; simp [h, ActionType.bookkeeping] at hk)
  have hact := dispatch_act hok
  generalize (w.dispatch sc tid a).world = w' at hact ⊢
  cases hact with
  | bookkeep hk' => exact absurd hk' hk
  | exit => exact .still (pcs_modThread (f := fun t => { t with state := .done }) rfl) rfl
  | lifecycle alive hk =>
    refine .pass hat ?_ ?_ ?_ (pcs_advance _ _) ?_
    · rcases hk with hk | hk <;> simp [hk]
    · rcases hk with hk | hk <;> simp [hk]
    · rcases hk with hk | hk <;> simp [hk]
    · rw [owners_advance]
      exact owners_keep rfl
  | acquire hk hfree =>
    have hlock : a.type = .mutexLock := by
      cases htp : a.type <;> simp_all [ActionType.locks, ActionType.core]
    refine .lock hat hlock hfree ?_ ?_
    · rw [pcs_advance, pcs_modThread (f := (·.ownedPush a.resourceId)) (pc_ownedPush _ _)]
      rfl
    · rw [owners_advance, owners_modThread, owners_modResource]
  | blockMutex =>
    rw [ActionType.countdown_of_core hcore]
    refine .still ?_ (funext fun s => ?_)
    · simp only [World.arm, pcs_boost, pcs_enqueue]
    · simp only [World.arm, World.owners, boost_resources, World.enqueue_owner]
  | blockSem =>
    rw [ActionType.countdown_of_core hcore]
    refine .still ?_ (funext fun s => ?_)
    · simp only [World.arm, pcs_enqueue]
    · simp only [World.arm, World.owners, World.enqueue_owner]
  | unlock hk hown => exact callEffect_unlock hc hw hready hat hk htid hown
  | take hk hunit =>
    have hwait : a.type = .semWait := by
      cases htp : a.type <;> simp_all [ActionType.waits, ActionType.core]
    refine .take hat hwait hunit (pcs_advance _ _) ?_
    rw [owners_advance]
    exact owners_keep rfl
  | signal hk =>
    refine .pass hat (by simp [hk]) (by simp [hk]) (by simp [hk]) (pcs_advance _ _) ?_
    rw [owners_advance]
    exact owners_keep rfl
  | grant hk hlive =>
    obtain ⟨hra, htype⟩ := hc.operand tid htid _ _ hat .semaphore (by rw [hk]; rfl)
    have hmem := LiveArray.cell_mem (bestWaiter_lt hlive)
    have hne := hinv.ne_of_waits hra hready hmem
    obtain ⟨b, hbt, hbr, hwait⟩ := sem_waiter_standsAt hc hw hra htype hmem
    refine .grant hat hk ((hinv.mem_waiters hra).mp hmem).1 hne hbt hwait hbr ?_ ?_
    · exact pcs_wake (v := w.waiterRemove a.resourceId (w.bestWaiter a.resourceId)) hne rfl
    · rw [owners_advance, World.grantSem, owners_modThread, owners_waiterRemove]
  | condWait _ hk | condSignal hk | condLost hk | condBroadcast hk | mailWake hk =>
    rw [hk] at hcore
    exact absurd hcore (by decide)
  | mail hk | mailBlock hk =>
    rw [ActionType.mails_of_core hcore] at hk
    exact absurd hk (by decide)

theorem step_callEffect (hc : sc.Core) {w w' : World} (hw : (callSystem sc).Reach w) {tid : Int}
    (hst : (callSystem sc).step w tid w') : CallEffect sc w tid w' := by
  obtain ⟨htid, hok, rfl⟩ := hst
  rcases executeStep_cases_of_tick (core_reach hc hw).tick_eq hok with
    ⟨_, hw'⟩ | ⟨_, _, hw'⟩ | ⟨a, hready, hat, _, hfault, hw'⟩
  · rw [hw']
    exact .still rfl rfl
  · rw [hw']
    exact .still (pcs_modThread (f := fun t => { t with state := .done }) rfl) rfl
  · rw [hw']
    exact dispatch_callEffect hc hw htid hready hat hfault

/-! ## Holding is owning -/

@[simp] theorem nextPcs_self (p : Int → Nat) (t : Int) : nextPcs p t t = p t + 1 :=
  Function.update_self ..

theorem nextPcs_of_ne (p : Int → Nat) {t u : Int} (h : u ≠ t) : nextPcs p t u = p u :=
  Function.update_of_ne h ..

/-- Moving past a step, a thread holds what the step locks and what it held, unless the step unlocks it. -/
theorem holds_nextPcs {p : Int → Nat} {t u r : Int} (h : Holds sc (nextPcs p t) u r) :
    (u = t ∧ (sc.steps t (p t)).type = .mutexLock ∧ (sc.steps t (p t)).resourceId = r) ∨
      (Holds sc p u r ∧ (u = t →
        ¬ ((sc.steps t (p t)).type = .mutexUnlock ∧ (sc.steps t (p t)).resourceId = r))) := by
  obtain ⟨s, hs, hlock, hr, hopen⟩ := h
  by_cases hu : u = t
  · subst hu
    rw [nextPcs_self] at hs hopen
    rcases Nat.lt_succ_iff_lt_or_eq.mp hs with hbefore | rfl
    · exact .inr ⟨⟨s, hbefore, hlock, hr, fun k hk hkp => hopen k hk (Nat.lt_succ_of_lt hkp)⟩,
        fun _ => hopen _ hbefore (Nat.lt_succ_self _)⟩
    · exact .inl ⟨rfl, hlock, hr⟩
  · rw [nextPcs_of_ne p hu] at hs hopen
    exact .inr ⟨⟨s, hs, hlock, hr, hopen⟩, fun heq => absurd heq hu⟩

/-- Whoever has locked a mutex and not unlocked it owns it. -/
def HeldOwned (sc : Scenario) (w : World) : Prop :=
  ∀ t r, sc.IsThread t → Holds sc w.pcs t r → w.owners r = t

/-- After an unlock, what is held is another mutex. -/
theorem HeldOwned.after_unlock {w : World} (h : HeldOwned sc w) {tid : Int} {a : Action}
    (hat : sc.actionAt tid (w.pcs tid) = some a) (hk : a.type = .mutexUnlock)
    (hown : w.owners a.resourceId = tid) {t r : Int} (ht : sc.IsThread t)
    (hheld : Holds sc (nextPcs w.pcs tid) t r) : w.owners r = t ∧ r ≠ a.resourceId := by
  obtain ⟨hstep, _⟩ := steps_of_actionAt hat
  rcases holds_nextPcs hheld with ⟨_, hlock, _⟩ | ⟨hbefore, hnot⟩
  · rw [hstep, hk] at hlock
    exact absurd hlock (by decide)
  · have howner := h t r ht hbefore
    refine ⟨howner, ?_⟩
    rintro rfl
    rw [hstep] at hnot
    exact hnot (howner.symm.trans hown) ⟨hk, rfl⟩

theorem HeldOwned.step {w w' : World} (h : HeldOwned sc w) {tid : Int}
    (heff : CallEffect sc w tid w') : HeldOwned sc w' := by
  intro t r ht hheld
  cases heff with
  | still hpcs hown =>
    rw [hpcs] at hheld
    rw [hown]
    exact h t r ht hheld
  | pass hat hlock _ _ hpcs hown =>
    rw [hpcs] at hheld
    rw [hown]
    obtain ⟨hstep, _⟩ := steps_of_actionAt hat
    rcases holds_nextPcs hheld with ⟨_, hl, _⟩ | ⟨hbefore, _⟩
    · exact absurd (hstep ▸ hl) hlock
    · exact h t r ht hbefore
  | take hat hk _ hpcs hown =>
    rw [hpcs] at hheld
    rw [hown]
    obtain ⟨hstep, _⟩ := steps_of_actionAt hat
    rcases holds_nextPcs hheld with ⟨_, hl, _⟩ | ⟨hbefore, _⟩
    · rw [hstep, hk] at hl
      exact absurd hl (by decide)
    · exact h t r ht hbefore
  | lock hat hk hfree hpcs hown =>
    rw [hpcs] at hheld
    rw [hown]
    obtain ⟨hstep, _⟩ := steps_of_actionAt hat
    rcases holds_nextPcs hheld with ⟨rfl, _, hr⟩ | ⟨hbefore, _⟩
    · rw [hstep] at hr
      rw [hr, Function.update_self]
    · have howner := h t r ht hbefore
      rw [Function.update_of_ne, howner]
      rintro rfl
      have := ht.1
      omega
  | unlock hat hk howned hpcs hown =>
    rw [hpcs] at hheld
    obtain ⟨howner, hne⟩ := h.after_unlock hat hk howned ht hheld
    rw [hown, Function.update_of_ne hne, howner]
  | @hand a b u hat hk howned _ hne hbt hlock hbr hpcs hown =>
    rw [hpcs] at hheld
    rw [hown]
    rcases holds_nextPcs hheld with ⟨rfl, _, hr⟩ | ⟨hbefore, _⟩
    · rw [nextPcs_of_ne _ hne, (steps_of_actionAt hbt).1, hbr] at hr
      rw [hr, Function.update_self]
    · obtain ⟨howner, hother⟩ := h.after_unlock hat hk howned ht hbefore
      rw [Function.update_of_ne hother, howner]
  | @grant a b u hat hk _ hne hbt hwait _ hpcs hown =>
    rw [hpcs] at hheld
    rw [hown]
    rcases holds_nextPcs hheld with ⟨_, hl, _⟩ | ⟨hmid, _⟩
    · rw [nextPcs_of_ne _ hne, (steps_of_actionAt hbt).1, hwait] at hl
      exact absurd hl (by decide)
    · rcases holds_nextPcs hmid with ⟨_, hl, _⟩ | ⟨hbefore, _⟩
      · rw [(steps_of_actionAt hat).1, hk] at hl
        exact absurd hl (by decide)
      · exact h t r ht hbefore

theorem reach_heldOwned (hc : sc.Core) {w : World} (hw : (callSystem sc).Reach w) : HeldOwned sc w := by
  induction hw with
  | init hi =>
    obtain ⟨before, rfl⟩ := hi
    rintro t r ht ⟨s, hs, _⟩
    simp [World.pcs, World.reset, ht, Thread.reset] at hs
  | step hr hst ih => exact ih.step (step_callEffect hc hr hst)

end Smash
