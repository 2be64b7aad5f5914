import Smash.Proof.Atomic
import Smash.Proof.Caching
import Smash.Proof.Grants
import Smash.Proof.Prefix
import Smash.Proof.Release

/-!
# What a snapshot determines

In a core scenario a snapshot says almost everything about a reached state. The fields it leaves out are
functions of the ones it takes: contexts, stack depths and owned mutexes of the `pc`s (`reach_inner`), counts
of the `pc`s too, priorities of who holds up whom, and the waiters of a resource are the threads that stand
at a wait for it. What it does not say is the order of the waiters, and that matters when one of several of
the same priority is woken. `Splits` is that case, and it is the only one: as long as no step splits, two
states of one snapshot go the same way, and a step that splits sends them different ways
(`snapshot_determines_iff`).
-/

set_option autoImplicit false

namespace Smash

variable {sc : Scenario}

/-! ## Agreement -/

/-- Two states that agree on where the threads are and on who owns what. -/
structure Agree (sc : Scenario) (w w' : World) : Prop where
  state : ∀ t, sc.IsThread t → (w.threads t).state = (w'.threads t).state
  pc : ∀ t, sc.IsThread t → (w.threads t).pc = (w'.threads t).pc
  owner : ∀ r, sc.IsResource r → (w.resources r).owner = (w'.resources r).owner
  alive : ∀ r, sc.IsResource r → (w.resources r).alive = (w'.resources r).alive

/-- No thread is past its last step. -/
theorem reach_pc_le (hc : sc.Core) {w : World} (hw : (callSystem sc).Reach w) {t : Int}
    (ht : sc.IsThread t) : ((w.threads t).pc : Int) ≤ sc.stepCount t := by
  induction hw with
  | init hi =>
    obtain ⟨before, rfl⟩ := hi
    simp only [World.reset, if_pos ht, Thread.reset]
    exact hc.valid.bounds.stepCount_nonneg t ht
  | step hr hst ih =>
    obtain ⟨htid, hok, rfl⟩ := hst
    cases executeStep_paces hc hr htid hok t with
    | stays hpc => rw [hpc]; exact ih
    | passes b hbt hpc =>
      have hlt := (steps_of_actionAt hbt).2
      rw [hpc]
      omega

section agree

variable (hc : sc.Core) {w w' : World} (hw : (callSystem sc).Reach w) (hw' : (callSystem sc).Reach w')
include hc hw hw'

/-- **States of one snapshot agree.** -/
theorem agree_of_looksLike (h : LooksLike sc w w') : Agree sc w w' := by
  obtain ⟨hthread, hres⟩ := looksLike_iff.mp h
  refine ⟨fun t ht => state_of_look (hthread t ht), fun t ht => ?_, fun r hr => ?_, fun r hr => ?_⟩
  · have hbound := hc.valid.bounds.stepCount_le t ht
    have hle := reach_pc_le hc hw ht
    have hle' := reach_pc_le hc hw' ht
    have hpc : UInt8.ofNat (w.threads t).pc = UInt8.ofNat (w'.threads t).pc :=
      congrArg (·.2.1) (hthread t ht)
    have hnat := congrArg UInt8.toNat hpc
    rw [UInt8.toNat_ofNat', UInt8.toNat_ofNat'] at hnat
    omega
  · have hsmall : ∀ {v : World}, (callSystem sc).Reach v →
        -1 ≤ (v.resources r).owner ∧ (v.resources r).owner < 16 := by
      intro v hv
      by_cases hfree : (v.resources r).owner = -1
      · omega
      · have hthread := (core_reach hc hv).owner_isThread hr hfree
        have := hthread.1
        have := hthread.2
        have := hc.valid.bounds.threadCount_le
        omega
    have hown : Int8.ofInt (w.resources r).owner = Int8.ofInt (w'.resources r).owner :=
      congrArg Prod.fst (hres r hr)
    have hint := congrArg Int8.toInt hown
    have := hsmall hw
    have := hsmall hw'
    rw [Int8.toInt_ofInt_of_le (by omega) (by omega), Int8.toInt_ofInt_of_le (by omega) (by omega)] at hint
    exact hint
  · exact congrArg (·.2.2) (hres r hr)

end agree

namespace Agree

variable {w w' : World} (h : Agree sc w w')
include h

theorem symm : Agree sc w' w where
  state t ht := (h.state t ht).symm
  pc t ht := (h.pc t ht).symm
  owner r hr := (h.owner r hr).symm
  alive r hr := (h.alive r hr).symm

theorem blocked {t : Int} (ht : sc.IsThread t) : (w.threads t).blocked = (w'.threads t).blocked :=
  Thread.blocked_congr (h.state t ht)

theorem actionAt {t : Int} (ht : sc.IsThread t) :
    sc.actionAt t (w.threads t).pc = sc.actionAt t (w'.threads t).pc := by rw [h.pc t ht]

section reached

variable (hc : sc.Core) (hw : (callSystem sc).Reach w) (hw' : (callSystem sc).Reach w')
include hc hw hw'

omit hc in
/-- Blocked threads wait for the resource of the action that they stand at. -/
theorem blockedOn {t : Int} (ht : sc.IsThread t) (hb : (w.threads t).blocked = true) :
    (w.threads t).blockedOn = (w'.threads t).blockedOn := by
  obtain ⟨a, hat, _, hon⟩ := reach_standsAt hw ht hb
  obtain ⟨a', hat', _, hon'⟩ := reach_standsAt hw' ht ((h.blocked ht).symm.trans hb)
  rw [h.actionAt ht, hat'] at hat
  obtain rfl := Option.some.inj hat
  rw [hon, hon']

/-- The same threads wait for a resource, in some order. -/
theorem waiters {r : Int} (hr : sc.IsResource r) :
    (w.resources r).waiters.toList.Perm (w'.resources r).waiters.toList := by
  have hinv := core_reach hc hw
  have hinv' := core_reach hc hw'
  refine (List.perm_ext_iff_of_nodup (hinv.nodup_waiters hr) (hinv'.nodup_waiters hr)).mpr fun t => ?_
  rw [hinv.mem_waiters hr, hinv'.mem_waiters hr]
  refine and_congr_right fun ht => ?_
  rw [h.blocked ht]
  refine and_congr_right fun hb => ?_
  rw [h.blockedOn hw hw' ht ((h.blocked ht).trans hb)]

theorem waiters_count {r : Int} (hr : sc.IsResource r) :
    (w.resources r).waiters.count = (w'.resources r).waiters.count := by
  have hlength := (h.waiters hc hw hw' hr).length_eq
  rwa [LiveArray.length_toList, LiveArray.length_toList] at hlength

theorem inner {t : Int} (ht : sc.IsThread t) : (w.threads t).inner = (w'.threads t).inner := by
  rw [reach_inner hc hw ht, reach_inner hc hw' ht, h.pc t ht]

theorem count {r : Int} (hr : sc.IsResource r) :
    (w.resources r).count = (w'.resources r).count := by
  have htokens := reach_tokens hc hw hr
  have htokens' := reach_tokens hc hw' hr
  have hpassed : ∀ type, sc.passed type r w.pcs = sc.passed type r w'.pcs := fun type =>
    Finset.sum_congr rfl fun t ht => by
      rw [World.pcs, World.pcs, h.pc t (Scenario.mem_threadSet.mp ht)]
  unfold Tokens Scenario.balance at htokens htokens'
  rw [htokens, htokens', hpassed, hpassed]

theorem priority {t : Int} (ht : sc.IsThread t) :
    (w.threads t).priority = (w'.threads t).priority := by
  refine prio_determined hc hw' hw (funext fun u => Option.ext fun v => ?_) ht
  rw [heldUpBy_eq_some hc hw, heldUpBy_eq_some hc hw']
  refine and_congr_right fun _ => exists_congr fun r => ?_
  refine and_congr_right fun hr => and_congr_right fun _ => ?_
  rw [h.owner r hr, (h.waiters hc hw hw' hr).mem_iff]

/-- **Reached states that agree have the same snapshot.** -/
theorem looksLike : LooksLike sc w w' := by
  refine looksLike_iff.mpr ⟨fun t ht => ?_, fun r hr => ?_⟩
  · have hcontext := congrArg Inner.context (h.inner hc hw hw' ht)
    have hctx : (w.threads t).execCtx = (w'.threads t).execCtx := congrArg Context.execCtx hcontext
    have hdepth : (w.threads t).sysLockDepth = (w'.threads t).sysLockDepth :=
      congrArg Context.sysLockDepth hcontext
    unfold Thread.look
    rw [h.state t ht, h.pc t ht, h.priority hc hw hw' ht, hctx, hdepth]
  · unfold Resource.look
    rw [h.owner r hr, h.count hc hw hw' hr, h.alive r hr]

end reached

end Agree

/-! ## When a step fails -/

/-- What an action of a READY thread needs in order not to fail. -/
def Action.Permitted (sc : Scenario) (a : Action) (tid : Int) (i : Inner) (m : Resource) : Prop :=
  match a.type with
  | .mutexLock => m.alive = true ∧ i.context.execCtx = .thread ∧ (m.owner = -1 ∨ m.owner ≠ tid)
  | .mutexUnlock => m.alive = true ∧ m.owner = tid ∧ i.owned.getLast? = some a.resourceId
  | .semWait => m.alive = true ∧ i.context.execCtx = .thread
  | .semSignal | .objectDestroy => m.alive = true
  | .done => i.owned = []
  | .sysUnlock => 0 < i.context.sysLockDepth
  | .isrEnter => i.context.isrDepth < smashMaxIsrDepth
  | .isrExit => 0 < i.context.isrDepth
  | .call => ¬ (0 < sc.stackSizes tid ∧ sc.stackSizes tid < i.stackDepth + argOr a.arg 1)
  | _ => True

theorem ownedTopIs_iff_getLast {t : Thread} {r : Int} :
    t.ownedTopIs r = true ↔ t.ownedMutexStack.toList.getLast? = some r := by
  constructor
  · intro htop
    rw [toList_of_top htop, List.getLast?_concat]
  · intro hlast
    have hlive : 0 < t.ownedMutexStack.count := by
      rw [Nat.pos_iff_ne_zero]
      intro hzero
      rw [LiveArray.toList_eq_nil.mpr hzero] at hlast
      exact absurd hlast (by simp)
    rw [LiveArray.toList_dropLast hlive, List.getLast?_concat, Option.some.injEq] at hlast
    exact ownedTopIs_iff.mpr ⟨hlive, hlast⟩

theorem dispatch_fault_iff {w : World} {tid : Int} {a : Action} (hcore : a.type.core = true)
    (hroom : a.type.operand ≠ none → (w.resources a.resourceId).waiters.count < smashMaxWaiters) :
    (w.dispatch sc tid a).fault = none ↔
      a.Permitted sc tid (w.threads tid).inner (w.resources a.resourceId) := by
  obtain ⟨type, r, arg⟩ := a
  cases type with
  | mutexLock =>
    simp only [World.dispatch, Outcome.finish_fault, Outcome.advanceIfTrue_fault]
    rw [mutexLock_fault (hroom (by simp [ActionType.operand]))]
    rfl
  | mutexUnlock =>
    have hfault : (w.dispatch sc tid ⟨.mutexUnlock, r, arg⟩).fault = (mutexUnlock sc w tid r).fault := by
      simp [World.dispatch]
    rw [hfault, mutexUnlock_fault, ownedTopIs_iff_getLast]
    rfl
  | semWait =>
    simp only [World.dispatch, Outcome.finish_fault, Outcome.advanceIfTrue_fault]
    rw [semWait_fault (hroom (by simp [ActionType.operand]))]
    rfl
  | semSignal =>
    have hfault : (w.dispatch sc tid ⟨.semSignal, r, arg⟩).fault = (semSignal w tid r).fault := by
      simp [World.dispatch]
    rw [hfault, semSignal_fault]
    rfl
  | done =>
    have hempty : (w.threads tid).ownedMutexStack.toList = [] ↔
        ¬ 0 < (w.threads tid).ownedMutexStack.count := by
      rw [LiveArray.toList_eq_nil]
      omega
    simp only [World.dispatch, actDone, Action.Permitted, Thread.inner, hempty]
    split <;> simp_all
  | sysUnlock =>
    simp only [World.dispatch, actSysUnlock, Action.Permitted, Thread.inner, Thread.context]
    split <;> simp_all
  | isrEnter =>
    simp only [World.dispatch, actIsrEnter, Action.Permitted, Thread.inner, Thread.context]
    split <;> simp_all
  | isrExit =>
    simp only [World.dispatch, actIsrExit, Action.Permitted, Thread.inner, Thread.context]
    split <;> simp_all
  | objectDestroy =>
    simp only [World.dispatch, actObjectDestroy, Action.Permitted]
    split <;> simp_all
  | call =>
    simp only [World.dispatch, actCall, Action.Permitted, Thread.inner]
    split <;> simp_all
  | nop | yield | sysLock | objectInit | ret => exact iff_of_true rfl trivial
  | _ => exact absurd hcore (by simp [ActionType.core])

/-- What a failing action leaves of its thread: an unlock and a signal move on all the same. -/
def Action.onFail (a : Action) (t : Thread) : Thread :=
  match a.type with
  | .mutexUnlock | .semSignal => t.advance
  | .done => { t with state := .done }
  | .call => a.keep t
  | _ => t

theorem dispatch_failed {w : World} {tid : Int} {a : Action} (hcore : a.type.core = true)
    (h : (w.dispatch sc tid a).fault ≠ none) :
    (w.dispatch sc tid a).world = w.modThread tid a.onFail := by
  have hnone : w.modThread tid (fun t => t) = w := World.modThread_id w tid
  obtain ⟨type, r, arg⟩ := a
  cases type with
  | mutexLock =>
    simp only [World.dispatch, Outcome.finish_fault, Outcome.advanceIfTrue_fault] at h
    obtain ⟨hworld, hret⟩ := mutexLock_atomic h
    exact (Outcome.advance_world_of_not_ret hret).trans (hworld.trans hnone.symm)
  | semWait =>
    simp only [World.dispatch, Outcome.finish_fault, Outcome.advanceIfTrue_fault] at h
    obtain ⟨hworld, hret⟩ := semWait_atomic h
    exact (Outcome.advance_world_of_not_ret hret).trans (hworld.trans hnone.symm)
  | mutexUnlock => exact congrArg (World.advance · tid) (mutexUnlock_atomic h).1
  | semSignal => exact congrArg (World.advance · tid) (semSignal_atomic h).1
  | done | sysUnlock | isrEnter | isrExit | objectDestroy | call =>
    simp only [World.dispatch, actDone, actSysUnlock, actIsrEnter, actIsrExit, actObjectDestroy,
      actCall] at h ⊢
    split
    · first | rfl | exact hnone.symm
    · rw [if_neg ‹_›] at h
      exact absurd rfl h
  | nop | yield | sysLock | objectInit | ret => exact absurd rfl h
  | _ => exact absurd hcore (by simp [ActionType.core])

/-- A thread that is about to use a resource finds room in its queue. -/
theorem room_of_operand (hc : sc.Core) {w : World} (hw : (callSystem sc).Reach w) {tid : Int}
    (htid : sc.IsThread tid) (hready : (w.threads tid).state = .ready) {a : Action}
    (hat : sc.actionAt tid (w.threads tid).pc = some a) (hop : a.type.operand ≠ none) :
    (w.resources a.resourceId).waiters.count < smashMaxWaiters := by
  obtain ⟨type, htype⟩ := Option.ne_none_iff_exists'.mp hop
  exact (core_reach hc hw).room_queue hc.valid ⟨htid, hready⟩ (hc.operand tid htid _ a hat type htype).1

/-! ## What a step does to states that agree -/

/-- Where a write takes a thread depends only on where the thread is. -/
def Steady (f : Thread → Thread) : Prop :=
  ∀ t t', t.state = t'.state → t.pc = t'.pc → (f t).state = (f t').state ∧ (f t).pc = (f t').pc

/-- The same writes to the threads, and the same owner and life for the resource. -/
structure EditsAlike (e e' : Edit) : Prop where
  tid : e.tid = e'.tid
  onTid : e.onTid = e'.onTid
  resId : e.resId = e'.resId
  woken : e.woken = e'.woken
  onWoken : e.onWoken = e'.onWoken
  steadyTid : Steady e.onTid
  steadyWoken : Steady e.onWoken
  onRes : ∀ m m', m.owner = m'.owner → m.alive = m'.alive →
    (e.onRes m).owner = (e'.onRes m').owner ∧ (e.onRes m).alive = (e'.onRes m').alive

theorem steady_id : Steady id := fun _ _ hs hp => ⟨hs, hp⟩

theorem Steady.comp {f g : Thread → Thread} (hf : Steady f) (hg : Steady g) : Steady fun t => g (f t) :=
  fun t t' hs hp => hg _ _ (hf t t' hs hp).1 (hf t t' hs hp).2

/-- A write of fixed values, or of none, to `state` and `pc`. -/
theorem steady_ownedPush (r : Int) : Steady (·.ownedPush r) := by
  intro t t' hs hp
  have hkeep : ∀ x : Thread, (x.ownedPush r).state = x.state ∧ (x.ownedPush r).pc = x.pc := fun x =>
    ⟨(Thread.ownedPush_fields x r).1, pc_ownedPush x r⟩
  rw [(hkeep t).1, (hkeep t).2, (hkeep t').1, (hkeep t').2]
  exact ⟨hs, hp⟩

theorem steady_advance : Steady Thread.advance := fun _ _ hs hp => ⟨hs, congrArg (· + 1) hp⟩

theorem steady_keep (a : Action) : Steady a.keep := by
  intro t t' hs hp
  rw [keep_state, keep_state, keep_pc, keep_pc]
  exact ⟨hs, hp⟩

/-- The two edits of an action are alike when its resource looks the same and the same waiter is woken. -/
theorem coreEdit_alike {a : Action} (hcore : a.type.core = true) (tid : Int) {m m' : Resource}
    {best best' : Nat} (hlook : a.type.lockOrWait = true →
      m.owner = m'.owner ∧ m.count = m'.count ∧ m.waiters.count = m'.waiters.count)
    (hwoken : a.wakes m → m.waiters.cell best = m'.waiters.cell best') :
    EditsAlike (a.coreEdit tid m best) (a.coreEdit tid m' best') := by
  -- A write that wakes nobody.
  have hquiet : ∀ {f : Thread → Thread} {g g' : Resource → Resource}, Steady f →
      (∀ x x' : Resource, x.owner = x'.owner → x.alive = x'.alive →
        (g x).owner = (g' x').owner ∧ (g x).alive = (g' x').alive) →
      EditsAlike ⟨tid, f, a.resourceId, g, tid, id⟩ ⟨tid, f, a.resourceId, g', tid, id⟩ :=
    fun hf hg => ⟨rfl, rfl, rfl, rfl, rfl, hf, steady_id, hg⟩
  have hsame : ∀ x x' : Resource, x.owner = x'.owner → x.alive = x'.alive →
      x.owner = x'.owner ∧ x.alive = x'.alive := fun _ _ ho ha => ⟨ho, ha⟩
  rcases ActionType.core_cases hcore with hk | hk | hk | hk | hk
  · rw [coreEdit_of_bookkeeping hk, coreEdit_of_bookkeeping hk]
    exact hquiet ((steady_keep a).comp steady_advance) hsame
  · simp only [Action.coreEdit, hk]
    exact hquiet steady_advance fun _ _ ho _ => ⟨ho, rfl⟩
  · simp only [Action.coreEdit, hk]
    exact hquiet steady_advance fun _ _ ho _ => ⟨ho, rfl⟩
  · simp only [Action.coreEdit, Action.edit, hk]
    exact hquiet (fun _ _ _ hp => ⟨rfl, hp⟩) hsame
  rw [coreEdit_of_lockOrWait hk, coreEdit_of_lockOrWait hk]
  obtain ⟨howner, hcount, hlive⟩ := hlook hk
  rcases ActionType.lockOrWait_cases hk with hk | hk | hk | hk
  · simp only [Action.edit, hk, ← howner]
    split
    · exact hquiet ((steady_ownedPush _).comp steady_advance) fun _ _ _ ha => ⟨rfl, ha⟩
    · exact hquiet (fun _ _ _ hp => ⟨rfl, hp⟩) hsame
  · simp only [Action.edit, hk, ← hlive]
    split
    · rename_i hpos
      rw [hwoken ⟨.inl hk, hpos⟩]
      exact ⟨rfl, rfl, rfl, rfl, rfl, fun _ _ hs hp => ⟨hs, congrArg (· + 1) hp⟩,
        Steady.comp (f := fun t => t.resume.advance) (fun _ _ _ hp => ⟨rfl, congrArg (· + 1) hp⟩)
          (steady_ownedPush _), fun _ _ _ ha => ⟨rfl, ha⟩⟩
    · exact hquiet (fun _ _ hs hp => ⟨hs, congrArg (· + 1) hp⟩) fun _ _ _ ha => ⟨rfl, ha⟩
  · simp only [Action.edit, hk, ← hcount]
    split
    · exact hquiet steady_advance hsame
    · exact hquiet (fun _ _ _ hp => ⟨rfl, hp⟩) hsame
  · simp only [Action.edit, hk, ← hlive]
    split
    · rename_i hpos
      rw [hwoken ⟨.inr hk, hpos⟩]
      exact ⟨rfl, rfl, rfl, rfl, rfl, steady_advance, fun _ _ _ hp => ⟨rfl, congrArg (· + 1) hp⟩, hsame⟩
    · exact hquiet steady_advance hsame

/-- Edits that are alike keep agreement. -/
theorem Agree.edit {w w' : World} (h : Agree sc w w') {e e' : Edit} (halike : EditsAlike e e') :
    Agree sc (w.edit e) (w'.edit e') := by
  have hthread : ∀ t, sc.IsThread t → ((w.edit e).threads t).state = ((w'.edit e').threads t).state ∧
      ((w.edit e).threads t).pc = ((w'.edit e').threads t).pc := by
    intro t ht
    have hwoken := halike.steadyWoken _ _ (h.state t ht) (h.pc t ht)
    rw [edit_threads, edit_threads, ← halike.tid, ← halike.woken, ← halike.onTid, ← halike.onWoken]
    by_cases htid : t = e.tid <;> by_cases hw : t = e.woken
    · rw [if_pos htid, if_pos htid, if_pos hw, if_pos hw]
      exact halike.steadyTid _ _ hwoken.1 hwoken.2
    · rw [if_pos htid, if_pos htid, if_neg hw, if_neg hw]
      exact halike.steadyTid _ _ (h.state t ht) (h.pc t ht)
    · rw [if_neg htid, if_neg htid, if_pos hw, if_pos hw]
      exact hwoken
    · rw [if_neg htid, if_neg htid, if_neg hw, if_neg hw]
      exact ⟨h.state t ht, h.pc t ht⟩
  have hres : ∀ r, sc.IsResource r → ((w.edit e).resources r).owner = ((w'.edit e').resources r).owner ∧
      ((w.edit e).resources r).alive = ((w'.edit e').resources r).alive := by
    intro r hr
    have hfield := halike.onRes _ _ (h.owner r hr) (h.alive r hr)
    unfold World.edit
    simp only [World.modThread_resources, World.modResource_resources, ← halike.resId]
    split
    · subst r
      exact hfield
    · exact ⟨h.owner r hr, h.alive r hr⟩
  exact ⟨fun t ht => (hthread t ht).1, fun t ht => (hthread t ht).2, fun r hr => (hres r hr).1,
    fun r hr => (hres r hr).2⟩

theorem agree_erase {w w' : World} : Agree sc w.erase w'.erase ↔ Agree sc w w' :=
  ⟨fun h => ⟨h.state, h.pc, h.owner, h.alive⟩, fun h => ⟨h.state, h.pc, h.owner, h.alive⟩⟩

/-! ## Steps that split -/

/-- The step of `t`, an unlock or a signal that goes through, would not wake the same waiter in both states:
among those of the highest priority another one stands first. -/
def Splits (sc : Scenario) (w w' : World) (t : Int) : Prop :=
  sc.Ready w t ∧ ∃ a, sc.actionAt t (w.threads t).pc = some a ∧
    (a.type = .mutexUnlock ∨ a.type = .semSignal) ∧
    a.Permitted sc t (w.threads t).inner (w.resources a.resourceId) ∧
    ∃ u u', FirstOfBest w (w.resources a.resourceId).waiters.toList u ∧
      FirstOfBest w' (w'.resources a.resourceId).waiters.toList u' ∧ u ≠ u'

theorem FirstOfBest.mem {w : World} {queue : List Int} {u : Int} (h : FirstOfBest w queue u) :
    u ∈ queue := List.mem_of_find?_eq_some h.2

theorem FirstOfBest.unique {w : World} {queue : List Int} {u v : Int} (hu : FirstOfBest w queue u)
    (hv : FirstOfBest w queue v) : u = v := by
  have hprio : (w.threads u).priority = (w.threads v).priority :=
    le_antisymm (hv.1 u hu.mem) (hu.1 v hv.mem)
  have hfind := hu.2
  rw [hprio, hv.2] at hfind
  exact (Option.some.inj hfind).symm

/-- A call on a core scenario: nothing, the end of the thread, or its action, which may fail. -/
theorem executeStep_core_cases (hc : sc.Core) {w : World} (hw : (callSystem sc).Reach w) {tid : Int}
    (htid : sc.IsThread tid) :
    ((w.threads tid).state ≠ .ready ∧ (w.executeStep sc tid).fault = none ∧
      (w.executeStep sc tid).world = w) ∨
    ((w.threads tid).state = .ready ∧ sc.actionAt tid (w.threads tid).pc = none ∧
      (w.executeStep sc tid).fault = none ∧
      (w.executeStep sc tid).world = w.modThread tid fun t => { t with state := .done }) ∨
    ∃ a, (w.threads tid).state = .ready ∧ sc.actionAt tid (w.threads tid).pc = some a ∧
      (w.executeStep sc tid).fault = (w.dispatch sc tid a).fault ∧
      (w.executeStep sc tid).world = (w.dispatch sc tid a).world := by
  have htick := (core_reach hc hw).tick_eq
  by_cases hready : (w.threads tid).state = .ready
  · cases hat : sc.actionAt tid (w.threads tid).pc with
    | none =>
      have hok : (w.executeStep sc tid).fault = none :=
        executeStep_ok hc.valid htid htick fun _ a ha => by simp [hat] at ha
      rcases executeStep_cases_of_tick htick hok with ⟨hidle, _⟩ | ⟨_, _, hw'⟩ | ⟨a, _, ha, _⟩
      · exact absurd hready hidle
      · exact .inr (.inl ⟨hready, rfl, hok, hw'⟩)
      · rw [hat] at ha
        exact absurd ha (by simp)
    | some a =>
      have hact := executeStep_act hready hat (hc.valid.bounds.resourceId_ok tid htid _ a hat)
      rw [htick] at hact
      exact .inr (.inr ⟨a, hready, rfl, hact.2, hact.1⟩)
  · have hok : (w.executeStep sc tid).fault = none :=
      executeStep_ok hc.valid htid htick fun h => absurd h hready
    rcases executeStep_cases_of_tick htick hok with ⟨_, hw'⟩ | ⟨h, _⟩ | ⟨_, h, _⟩
    · exact .inl ⟨hready, hok, hw'⟩
    · exact absurd h hready
    · exact absurd h hready

/-- A step that splits goes through. -/
theorem splits_ok (hc : sc.Core) {w w' : World} (hw : (callSystem sc).Reach w) {tid : Int}
    (htid : sc.IsThread tid) (h : Splits sc w w' tid) : (w.executeStep sc tid).fault = none := by
  obtain ⟨⟨_, hready⟩, a, hat, _, hpermitted, _⟩ := h
  rcases executeStep_core_cases hc hw htid with ⟨_, hok, _⟩ | ⟨_, _, hok, _⟩ | ⟨b, _, hbt, hfault, _⟩
  · exact hok
  · exact hok
  · obtain rfl : a = b := by
      rw [hat] at hbt
      exact Option.some.inj hbt
    rw [hfault]
    exact (dispatch_fault_iff (hc.core tid htid _ a hat) fun hop =>
      room_of_operand hc hw htid hready hat hop).mpr hpermitted

/-- The same threads are READY. -/
def SameReady (sc : Scenario) (w w' : World) : Prop := ∀ t, sc.Ready w t ↔ sc.Ready w' t

theorem Agree.sameReady {w w' : World} (h : Agree sc w w') : SameReady sc w w' := by
  intro t
  unfold Scenario.Ready
  refine and_congr_right fun ht => ?_
  rw [h.state t ht]

/-- An action that is not on a resource of the scenario is permitted or not whatever the resource is. -/
theorem permitted_of_no_resource {a : Action} {tid : Int} (i : Inner) (m m' : Resource)
    (hoperand : a.type.operand = none) (hdestroy : a.type ≠ .objectDestroy) :
    a.Permitted sc tid i m ↔ a.Permitted sc tid i m' := by
  obtain ⟨type, r, arg⟩ := a
  cases type with
  | mutexLock | mutexUnlock | semWait | semSignal => exact absurd hoperand (by simp [ActionType.operand])
  | objectDestroy => exact absurd rfl hdestroy
  | _ => exact Iff.rfl

/-- A failing action leaves threads of one look if they had one before. -/
theorem look_onFail (a : Action) {t t' : Thread} (h : t.look = t'.look) (hpc : t.pc = t'.pc) :
    (a.onFail t).look = (a.onFail t').look := by
  have hkeep : ∀ {f : Thread → Thread}, (∀ x, (f x).look = x.look) → (f t).look = (f t').look :=
    fun hf => (hf t).trans (h.trans (hf t').symm)
  unfold Action.onFail
  split
  · simp only [Thread.look, Prod.mk.injEq, Thread.advance, hpc] at h ⊢
    exact ⟨h.1, trivial, h.2.2⟩
  · simp only [Thread.look, Prod.mk.injEq, Thread.advance, hpc] at h ⊢
    exact ⟨h.1, trivial, h.2.2⟩
  · simp only [Thread.look, Prod.mk.injEq] at h ⊢
    exact ⟨trivial, h.2⟩
  · rename_i hk
    refine hkeep fun x => ?_
    unfold Action.keep
    rw [hk]
    rfl
  · exact h

theorem lockOrWait_of_wakes {a : Action} {m : Resource} (h : a.wakes m) : a.type.lockOrWait = true := by
  rcases h.1 with hk | hk <;> rw [hk] <;> rfl

/-- An action that wakes makes the best waiter READY, and no other thread but its own. -/
theorem state_of_wakes {w : World} {a : Action} {tid : Int} {m : Resource} {best : Nat}
    (h : a.wakes m) {u : Int} (hu : u ≠ tid) : ((w.edit (a.coreEdit tid m best)).threads u).state
      = if u = m.waiters.cell best then .ready else (w.threads u).state := by
  obtain ⟨hwoken, hready⟩ : (a.edit tid m best).woken = _ ∧ ∀ t, ((a.edit tid m best).onWoken t).state = .ready :=
    Action.edit_woken h
  rw [coreEdit_of_lockOrWait (lockOrWait_of_wakes h), edit_threads, Action.edit_tid, if_neg hu, hwoken]
  split
  · exact hready _
  · rfl

section step

variable (hc : sc.Core) {w w' : World} (hw : (callSystem sc).Reach w) (hw' : (callSystem sc).Reach w')
  (h : Agree sc w w') {tid : Int} (htid : sc.IsThread tid)
include hc hw hw' h htid

/-- A call does nothing in both states, ends the thread in both, or runs the same action in both. -/
theorem Agree.call_cases :
    ((w.executeStep sc tid).fault = none ∧ (w'.executeStep sc tid).fault = none ∧
      Agree sc (w.executeStep sc tid).world (w'.executeStep sc tid).world ∧
      ¬ ∃ a, (w.threads tid).state = .ready ∧ sc.actionAt tid (w.threads tid).pc = some a) ∨
    ∃ a, (w.threads tid).state = .ready ∧ sc.actionAt tid (w.threads tid).pc = some a ∧
      (w.executeStep sc tid).fault = (w.dispatch sc tid a).fault ∧
      (w.executeStep sc tid).world = (w.dispatch sc tid a).world ∧
      (w'.threads tid).state = .ready ∧ sc.actionAt tid (w'.threads tid).pc = some a ∧
      (w'.executeStep sc tid).fault = (w'.dispatch sc tid a).fault ∧
      (w'.executeStep sc tid).world = (w'.dispatch sc tid a).world := by
  have hstate := h.state tid htid
  have hat' := h.actionAt htid
  rcases executeStep_core_cases hc hw htid with ⟨hidle, hok, hv⟩ | ⟨hready, hat, hok, hv⟩ |
    ⟨a, hready, hat, hfault, hv⟩
  · rcases executeStep_core_cases hc hw' htid with ⟨_, hok', hv'⟩ | ⟨hready', _⟩ | ⟨_, hready', _⟩
    · refine .inl ⟨hok, hok', ?_, fun ⟨_, hready, _⟩ => hidle hready⟩
      rw [hv, hv']
      exact h
    · exact absurd (hstate.trans hready') hidle
    · exact absurd (hstate.trans hready') hidle
  · rcases executeStep_core_cases hc hw' htid with ⟨hidle', _⟩ | ⟨_, _, hok', hv'⟩ | ⟨a', _, ha', _⟩
    · exact absurd (hstate.symm.trans hready) hidle'
    · refine .inl ⟨hok, hok', ?_, fun ⟨a, _, ha⟩ => by simp [hat] at ha⟩
      rw [hv, hv', ← agree_erase, erase_modThread fun _ _ => rfl, erase_modThread fun _ _ => rfl]
      have hdone : EditsAlike
          ⟨tid, fun t : Thread => { t with state := .done }, 0, id, tid, id⟩
          ⟨tid, fun t : Thread => { t with state := .done }, 0, id, tid, id⟩ :=
        ⟨rfl, rfl, rfl, rfl, rfl, fun _ _ _ hp => ⟨rfl, hp⟩, steady_id, fun _ _ ho ha => ⟨ho, ha⟩⟩
      have hedit := (agree_erase.mpr h).edit hdone
      rwa [edit_quiet, edit_quiet, modResource_id, modResource_id] at hedit
    · rw [← hat', hat] at ha'
      exact absurd ha' (by simp)
  · rcases executeStep_core_cases hc hw' htid with ⟨hidle', _⟩ | ⟨_, ha', _⟩ |
      ⟨a', hready', ha', hfault', hv'⟩
    · exact absurd (hstate.symm.trans hready) hidle'
    · rw [← hat', hat] at ha'
      exact absurd ha' (by simp)
    · obtain rfl : a = a' := by
        rw [← hat', hat] at ha'
        exact Option.some.inj ha'
      exact .inr ⟨a, hready, hat, hfault, hv, hready', ha', hfault', hv'⟩

/-- **Both fail or neither does.** -/
theorem Agree.fault_iff :
    (w.executeStep sc tid).fault = none ↔ (w'.executeStep sc tid).fault = none := by
  rcases h.call_cases hc hw hw' htid with ⟨hok, hok', _⟩ | ⟨a, hready, hat, hfault, _, hready', hat', hfault', _⟩
  · exact iff_of_true hok hok'
  · have hcore := hc.core tid htid _ a hat
    rw [hfault, hfault', dispatch_fault_iff hcore (room_of_operand hc hw htid hready hat),
      dispatch_fault_iff hcore (room_of_operand hc hw' htid hready' hat'), h.inner hc hw hw' htid]
    by_cases hr : sc.IsResource a.resourceId
    · unfold Action.Permitted
      rw [h.alive _ hr, h.owner _ hr]
    · refine permitted_of_no_resource _ _ _ ?_ fun hk => hr (hc.lifecycle tid htid _ a hat (.inr hk))
      refine Option.eq_none_iff_forall_ne_some.mpr fun type htype => ?_
      exact hr (hc.operand tid htid _ a hat type htype).1

/-- A failure leaves states of one snapshot. -/
theorem Agree.failed (hfault : (w.executeStep sc tid).fault ≠ none) :
    LooksLike sc (w.executeStep sc tid).world (w'.executeStep sc tid).world := by
  have hfault' := mt (h.fault_iff hc hw hw' htid).mpr hfault
  rcases h.call_cases hc hw hw' htid with ⟨hok, _⟩ | ⟨a, _, hat, hf, hv, _, _, hf', hv'⟩
  · exact absurd hok hfault
  have hcore := hc.core tid htid _ a hat
  obtain ⟨hthread, hres⟩ := looksLike_iff.mp (h.looksLike hc hw hw')
  rw [hv, hv', dispatch_failed hcore (hf ▸ hfault), dispatch_failed hcore (hf' ▸ hfault')]
  refine looksLike_iff.mpr ⟨fun t ht => ?_, hres⟩
  rw [World.modThread_threads, World.modThread_threads]
  split
  · subst t
    exact look_onFail a (hthread tid htid) (h.pc tid htid)
  · exact hthread t ht

/-- **A step that does not split keeps agreement.** -/
theorem Agree.step (hok : (w.executeStep sc tid).fault = none) (hsplit : ¬ Splits sc w w' tid) :
    Agree sc (w.executeStep sc tid).world (w'.executeStep sc tid).world := by
  have hok' := (h.fault_iff hc hw hw' htid).mp hok
  rcases h.call_cases hc hw hw' htid with ⟨_, _, hagree, _⟩ |
    ⟨a, hready, hat, hf, hv, hready', hat', hf', hv'⟩
  · exact hagree
  have hinv := core_reach hc hw
  have hinv' := core_reach hc hw'
  rw [hv, hv', ← agree_erase, dispatch_core hc hinv htid hready hat (hf ▸ hok),
    dispatch_core hc hinv' htid hready' hat' (hf' ▸ hok')]
  have hres : a.type.lockOrWait = true → sc.IsResource a.resourceId := fun hk =>
    hc.isResource_of_lockOrWait htid hat hk
  refine (agree_erase.mpr h).edit (coreEdit_alike (hc.core tid htid _ a hat) tid (fun hk => ?_)
    fun hwakes => ?_)
  · have hr := hres hk
    exact ⟨h.owner _ hr, h.count hc hw hw' hr, h.waiters_count hc hw hw' hr⟩
  · have hr := hres (lockOrWait_of_wakes hwakes)
    have hlive' := hwakes.2
    rw [h.waiters_count hc hw hw' hr] at hlive'
    by_contra hne
    have hpermitted := (dispatch_fault_iff (hc.core tid htid _ a hat) fun hop =>
      room_of_operand hc hw htid hready hat hop).mp (hf ▸ hok)
    exact hsplit ⟨⟨htid, hready⟩, a, hat, hwakes.1, hpermitted, _, _, firstOfBest_bestWaiter hwakes.2,
      firstOfBest_bestWaiter hlive', hne⟩

/-- **After a step that splits different threads are READY.** -/
theorem Agree.split (hsplit : Splits sc w w' tid) :
    ¬ SameReady sc (w.executeStep sc tid).world (w'.executeStep sc tid).world := by
  have hok := splits_ok hc hw htid hsplit
  have hok' := (h.fault_iff hc hw hw' htid).mp hok
  obtain ⟨⟨_, hready⟩, a, hat, htype, _, u, u', hu, hu', hne⟩ := hsplit
  rcases h.call_cases hc hw hw' htid with ⟨_, _, _, hnone⟩ |
    ⟨b, _, hbt, hf, hv, hready', hat', hf', hv'⟩
  · exact absurd ⟨a, hready, hat⟩ hnone
  obtain rfl : a = b := by
    rw [hat] at hbt
    exact Option.some.inj hbt
  have hinv := core_reach hc hw
  have hinv' := core_reach hc hw'
  -- Both wake, and each wakes the first of its own best.
  have hwakes : ∀ {v : World} {x : Int}, FirstOfBest v (v.resources a.resourceId).waiters.toList x →
      a.wakes (v.resources a.resourceId) ∧
        (v.resources a.resourceId).waiters.cell (v.bestWaiter a.resourceId) = x := by
    intro v x hx
    have hlive := LiveArray.count_pos_of_mem hx.mem
    exact ⟨⟨htype, hlive⟩, (firstOfBest_bestWaiter hlive).unique hx⟩
  obtain ⟨hw₁, hcell⟩ := hwakes hu
  obtain ⟨hw₁', hcell'⟩ := hwakes hu'
  have hr := hc.isResource_of_lockOrWait htid hat (lockOrWait_of_wakes hw₁)
  obtain ⟨hut, hublocked, _⟩ := (hinv.mem_waiters hr).mp hu.mem
  have hself : u ≠ tid := hinv.ne_of_waits hr hready hu.mem
  have hkept : ∀ v : World, (v.erase.threads u).state = (v.threads u).state := fun _ => rfl
  have hstate : ((w.executeStep sc tid).world.threads u).state = .ready := by
    rw [hv, ← hkept, dispatch_core hc hinv htid hready hat (hf ▸ hok), state_of_wakes hw₁ hself,
      if_pos hcell.symm]
  have hstate' : ((w'.executeStep sc tid).world.threads u).state = (w'.threads u).state := by
    rw [hv', ← hkept, dispatch_core hc hinv' htid hready' hat' (hf' ▸ hok'),
      state_of_wakes hw₁' hself, if_neg fun heq => hne (heq.trans hcell')]
    rfl
  intro hsame
  have hready₁ := ((hsame u).mp ⟨hut, hstate⟩).2
  rw [hstate', ← h.state u hut] at hready₁
  exact Thread.not_ready_of_blocked hublocked hready₁

end step

/-! ## The futures of two states -/

/-- Along these calls the same threads are READY in both runs after each one, both fail at the same call or
neither does, and in the end the snapshots are equal. -/
def SameFuture (sc : Scenario) (w w' : World) : List Int → Prop
  | [] => LooksLike sc w w'
  | t :: ts =>
    ((w.executeStep sc t).fault = none ↔ (w'.executeStep sc t).fault = none) ∧
      if (w.executeStep sc t).fault = none then
        SameReady sc (w.executeStep sc t).world (w'.executeStep sc t).world ∧
          SameFuture sc (w.executeStep sc t).world (w'.executeStep sc t).world ts
      else LooksLike sc (w.executeStep sc t).world (w'.executeStep sc t).world

theorem SameFuture.sameReady {w w' : World} {t : Int} {ts : List Int}
    (h : SameFuture sc w w' (t :: ts)) (hok : (w.executeStep sc t).fault = none) :
    SameReady sc (w.executeStep sc t).world (w'.executeStep sc t).world := by
  have hrest := h.2
  rw [if_pos hok] at hrest
  exact hrest.1

/-- None of these calls splits. -/
def NoSplit (sc : Scenario) (w w' : World) (ts : List Int) : Prop :=
  ∀ front t back, ts = front ++ t :: back → callsOk sc w front = true → callsOk sc w' front = true →
    ¬ Splits sc (w.calls sc front) (w'.calls sc front) t

theorem noSplit_cons {w w' : World} {t : Int} {ts : List Int} (ht : sc.IsThread t)
    (hok : (w.executeStep sc t).fault = none) (hok' : (w'.executeStep sc t).fault = none) :
    NoSplit sc w w' (t :: ts) ↔ ¬ Splits sc w w' t ∧
      NoSplit sc (w.executeStep sc t).world (w'.executeStep sc t).world ts := by
  constructor
  · intro h
    refine ⟨h [] t ts rfl rfl rfl, fun front u back hts hfront hfront' => ?_⟩
    refine h (t :: front) u back (by rw [hts]; rfl) ?_ ?_
    · simp [callsOk, ht, hok, hfront]
    · simp [callsOk, ht, hok', hfront']
  · rintro ⟨hhere, hrest⟩ front u back hts hfront hfront'
    cases front with
    | nil =>
      obtain ⟨rfl, _⟩ := List.cons.inj hts
      exact hhere
    | cons v front =>
      obtain ⟨rfl, htail⟩ := List.cons.inj hts
      simp only [callsOk, Bool.and_eq_true] at hfront hfront'
      exact hrest front u back htail hfront.2 hfront'.2

theorem Agree.sameFuture_iff (hc : sc.Core) {ts : List Int} (hts : ∀ t ∈ ts, sc.IsThread t)
    {w w' : World} (hw : (callSystem sc).Reach w) (hw' : (callSystem sc).Reach w')
    (h : Agree sc w w') : SameFuture sc w w' ts ↔ NoSplit sc w w' ts := by
  induction ts generalizing w w' with
  | nil =>
    refine iff_of_true (h.looksLike hc hw hw') fun front t back hnil => ?_
    simp at hnil
  | cons t ts ih =>
    have ht := hts t List.mem_cons_self
    have hfault := h.fault_iff hc hw hw' ht
    by_cases hok : (w.executeStep sc t).fault = none
    · have hok' := hfault.mp hok
      rw [noSplit_cons ht hok hok', SameFuture, and_iff_right hfault, if_pos hok]
      by_cases hsplit : Splits sc w w' t
      · exact iff_of_false (fun hboth => h.split hc hw hw' ht hsplit hboth.1) fun hboth => hboth.1 hsplit
      · have hnext := h.step hc hw hw' ht hok hsplit
        rw [and_iff_right hnext.sameReady, and_iff_right hsplit]
        exact ih (fun u hu => hts u (List.mem_cons_of_mem _ hu)) (.step hw ⟨ht, hok, rfl⟩)
          (.step hw' ⟨ht, hok', rfl⟩) hnext
    · refine iff_of_true ⟨hfault, ?_⟩ fun front u back hcons hfront _ hsplit => ?_
      · rw [if_neg hok]
        exact h.failed hc hw hw' ht hok
      · cases front with
        | nil =>
          obtain ⟨rfl, _⟩ := List.cons.inj hcons
          exact hok (splits_ok hc hw ht hsplit)
        | cons v front =>
          obtain ⟨rfl, _⟩ := List.cons.inj hcons
          simp [callsOk, hok] at hfront

/-- **Two states of one snapshot have the same future along a schedule if and only if none of its calls
splits.** -/
theorem snapshot_determines_iff (hc : sc.Core) {w w' : World} (hw : (callSystem sc).Reach w)
    (hw' : (callSystem sc).Reach w') (hlike : LooksLike sc w w') {ts : List Int}
    (hts : ∀ t ∈ ts, sc.IsThread t) : SameFuture sc w w' ts ↔ NoSplit sc w w' ts :=
  (agree_of_looksLike hc hw hw' hlike).sameFuture_iff hc hts hw hw'

/-- Two threads that block in either order leave one snapshot. -/
theorem snapshot_determines_fourLockers :
    let w := (startWorld fourLockers).calls fourLockers [0, 1, 2]
    let w' := (startWorld fourLockers).calls fourLockers [0, 2, 1]
    LooksLike fourLockers w w' ∧
    (SameFuture fourLockers w w' [3, 0] ↔ NoSplit fourLockers w w' [3, 0]) := by
  intro w w'
  have hlike : LooksLike fourLockers w w' := by decide +kernel
  exact ⟨hlike, snapshot_determines_iff fourLockers_core (reach_calls (by decide +kernel))
    (reach_calls (by decide +kernel)) hlike (by decide)⟩

/-- The unlock wakes `T1` in the one state and `T2` in the other. -/
theorem fourLockers_split : ¬ ∀ sc : Scenario, sc.Core → ∀ w w', (callSystem sc).Reach w →
    (callSystem sc).Reach w' → LooksLike sc w w' → ∀ ts : List Int, (∀ t ∈ ts, sc.IsThread t) →
      SameFuture sc w w' ts := by
  intro hall
  have hsame := hall fourLockers fourLockers_core ((startWorld fourLockers).calls fourLockers [0, 1, 2])
    ((startWorld fourLockers).calls fourLockers [0, 2, 1]) (reach_calls (by decide +kernel))
    (reach_calls (by decide +kernel)) (by decide +kernel) [0] (by decide)
  have hone := (hsame.sameReady (by decide +kernel) 1).mp (by decide +kernel)
  exact absurd hone (by decide +kernel)

end Smash
