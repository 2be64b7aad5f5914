import Mathlib.Logic.Equiv.Basic
import Mathlib.Order.Bounds.Image
import Smash.Proof.Events
import Smash.Proof.Priority

/-!
# Resource ids are names, and priorities only an order

A `Relabeling` gives the resources of a scenario new ids and the threads new base priorities, in the same order.
The primitives compare ids for equality and priorities with each other, so a relabeled state runs as the state does:
each of them leaves the relabeled state and reports the same (`Outcome.Relabeled`), up to the texts and arguments
that spell an id or a priority out. `executeStep_relabel` says so of a call of `smash_execute_step`.

A state may hold any priorities, so here the change of priorities is taken to increase on all numbers
(`Relabeling.Increasing`).
-/

set_option autoImplicit false

namespace Smash

variable {sc : Scenario}

/-- Other ids for the resources, and other base priorities for the threads in the same order. The entries of the
array behind those of the threads may be anything. -/
structure Relabeling (sc : Scenario) where
  name : Equiv.Perm Int
  priority : Int → Int
  behind : Int → Int
  fixes : ∀ r, ¬ sc.IsResource r → name r = r
  increasing : ∀ {t u : Int}, sc.IsThread t → sc.IsThread u → sc.priorities t < sc.priorities u →
    priority (sc.priorities t) < priority (sc.priorities u)

/-- The change of priorities is increasing on all numbers. -/
class Relabeling.Increasing (ν : Relabeling sc) : Prop where
  increasing : ∀ {p q : Int}, p < q → ν.priority p < ν.priority q

namespace Relabeling

variable (ν : Relabeling sc)

/-- The new names are those of resources again, in either direction. -/
theorem isResource_name {r : Int} : sc.IsResource (ν.name r) ↔ sc.IsResource r := by
  constructor
  · intro h
    by_contra hr
    exact hr (ν.fixes r hr ▸ h)
  · intro h
    by_contra hr
    rw [ν.name.injective (ν.fixes _ hr)] at hr
    exact hr h

theorem isResource_symm {r : Int} : sc.IsResource (ν.name.symm r) ↔ sc.IsResource r := by
  rw [← ν.isResource_name, ν.name.apply_symm_apply]

/-- What is no id of a resource means the same. -/
@[simp] theorem name_none : ν.name (-1) = -1 := ν.fixes _ (by simp [Scenario.IsResource])

@[simp] theorem name_inj {r s : Int} : ν.name r = ν.name s ↔ r = s := ν.name.injective.eq_iff

@[simp] theorem name_eq_none {r : Int} : ν.name r = -1 ↔ r = -1 := by
  rw [← @name_inj _ ν r (-1), name_none]

/-- The range check of `smash_execute_step` passes the new name if it passes the old. -/
theorem outside_name {r : Int} : ν.name r < 0 ∨ sc.resourceCount ≤ ν.name r ↔ r < 0 ∨ sc.resourceCount ≤ r := by
  have h := ν.isResource_name (r := r)
  unfold Scenario.IsResource at h
  omega

theorem name_neg {r : Int} : ν.name r < 0 ↔ r < 0 := by
  by_cases hr : sc.IsResource r
  · have h := ν.isResource_name.mpr hr
    exact iff_of_false (not_lt.mpr h.1) (not_lt.mpr hr.1)
  · rw [ν.fixes r hr]

section increasing

variable [hν : ν.Increasing]
include hν

/-- Every comparison of priorities comes out the same. -/
@[simp] theorem priority_lt {p q : Int} : ν.priority p < ν.priority q ↔ p < q := by
  constructor
  · intro h
    by_contra hle
    rcases Int.lt_or_eq_of_le (Int.not_lt.mp hle) with hlt | heq
    · exact Int.lt_asymm h (hν.increasing hlt)
    · exact Int.lt_irrefl _ (heq ▸ h)
  · exact hν.increasing

@[simp] theorem priority_le {p q : Int} : ν.priority p ≤ ν.priority q ↔ p ≤ q := by
  rw [← Int.not_lt, ν.priority_lt, Int.not_lt]

end increasing

end Relabeling

/-! ## The relabeled data -/

variable (ν : Relabeling sc)

/-- Both priorities are changed, and the resources that the thread is blocked on or owns are renamed. -/
def Thread.relabel (t : Thread) : Thread :=
  { t with
    basePriority := ν.priority t.basePriority
    priority := ν.priority t.priority
    blockedOn := ν.name t.blockedOn
    ownedMutexStack := t.ownedMutexStack.map ν.name }

/-- The queue holds threads, which keep their ids. -/
def Resource.relabel (r : Resource) : Resource :=
  { r with id := ν.name r.id, associatedMutex := ν.name r.associatedMutex }

/-- What is under the new name is what was under the old one. -/
def World.relabel (w : World) : World where
  threads t := (w.threads t).relabel ν
  resources r := (w.resources (ν.name.symm r)).relabel ν

def Action.relabel (a : Action) : Action := { a with resourceId := ν.name a.resourceId }

/-- The scenario itself. Its actions name the resources, and all that is declared of a resource moves with it. -/
def Scenario.relabel (sc : Scenario) (ν : Relabeling sc) : Scenario :=
  { sc with
    priorities := fun t => if sc.IsThread t then ν.priority (sc.priorities t) else ν.behind t
    steps := fun t pc => (sc.steps t pc).relabel ν
    resTypes := fun r => sc.resTypes (ν.name.symm r)
    semInit := fun r => sc.semInit (ν.name.symm r)
    associatedMutex := fun r => ν.name (sc.associatedMutex (ν.name.symm r))
    mbCapacity := fun r => sc.mbCapacity (ν.name.symm r) }

/-- What an event says, but for the argument, which may be an id or a priority. -/
def LogEntry.what (e : LogEntry) : EventType × Int × Int := (e.type, e.tid, e.resourceId)

def LogEntry.relabeled (e : LogEntry) : EventType × Int × Int := (e.type, e.tid, ν.name e.resourceId)

/-- The same outcome in other words. -/
structure Outcome.Relabeled (o o' : Outcome) : Prop where
  world : o'.world = o.world.relabel ν
  log : o'.log.map LogEntry.what = o.log.map (LogEntry.relabeled ν)
  fault : o'.fault.isSome = o.fault.isSome
  ret : o'.ret = o.ret
  counted : o'.counted = o.counted

variable {ν} {w : World} {tid : Int}

/-! ### Reading -/

@[simp] theorem relabel_thread (w : World) (t : Int) : (w.relabel ν).threads t = (w.threads t).relabel ν := rfl

@[simp] theorem relabel_resource (w : World) (r : Int) :
    (w.relabel ν).resources (ν.name r) = (w.resources r).relabel ν := by
  simp [World.relabel]

section fields

variable (t : Thread) (r : Resource)

@[simp] theorem relabel_state : (t.relabel ν).state = t.state := rfl
@[simp] theorem relabel_pc : (t.relabel ν).pc = t.pc := rfl
@[simp] theorem relabel_execCtx : (t.relabel ν).execCtx = t.execCtx := rfl
@[simp] theorem relabel_basePriority : (t.relabel ν).basePriority = ν.priority t.basePriority := rfl
@[simp] theorem relabel_priority : (t.relabel ν).priority = ν.priority t.priority := rfl
@[simp] theorem relabel_blockedOn : (t.relabel ν).blockedOn = ν.name t.blockedOn := rfl
@[simp] theorem relabel_stack : (t.relabel ν).ownedMutexStack = t.ownedMutexStack.map ν.name := rfl
@[simp] theorem relabel_sysLockDepth : (t.relabel ν).sysLockDepth = t.sysLockDepth := rfl
@[simp] theorem relabel_isrDepth : (t.relabel ν).isrDepth = t.isrDepth := rfl
@[simp] theorem relabel_stackDepth : (t.relabel ν).stackDepth = t.stackDepth := rfl

@[simp] theorem relabel_type : (r.relabel ν).type = r.type := rfl
@[simp] theorem relabel_owner : (r.relabel ν).owner = r.owner := rfl
@[simp] theorem relabel_count : (r.relabel ν).count = r.count := rfl
@[simp] theorem relabel_associatedMutex : (r.relabel ν).associatedMutex = ν.name r.associatedMutex := rfl
@[simp] theorem relabel_mbCapacity : (r.relabel ν).mbCapacity = r.mbCapacity := rfl
@[simp] theorem relabel_mbCount : (r.relabel ν).mbCount = r.mbCount := rfl
@[simp] theorem relabel_waiters : (r.relabel ν).waiters = r.waiters := rfl
@[simp] theorem relabel_alive : (r.relabel ν).alive = r.alive := rfl

end fields

/-! ### Writing -/

/-- A write to a thread may be done before or after. -/
theorem relabel_modThread {f g : Thread → Thread} {t : Int}
    (h : g ((w.threads t).relabel ν) = (f (w.threads t)).relabel ν) :
    (w.relabel ν).modThread t g = (w.modThread t f).relabel ν := by
  refine World.ext (funext fun u => ?_) rfl
  rw [relabel_thread, World.modThread_threads, World.modThread_threads]
  split
  · exact h
  · rfl

/-- So may a write to a resource, under its new name. -/
theorem relabel_modResource {f g : Resource → Resource} {r : Int}
    (h : g ((w.resources r).relabel ν) = (f (w.resources r)).relabel ν) :
    (w.relabel ν).modResource (ν.name r) g = (w.modResource r f).relabel ν := by
  refine World.ext rfl (funext fun s => ?_)
  obtain ⟨s, rfl⟩ := ν.name.surjective s
  rw [relabel_resource, World.modResource_resources, World.modResource_resources]
  simp only [ν.name_inj]
  split
  · rw [relabel_resource]
    exact h
  · exact relabel_resource w s

theorem relabel_ownedPush (t : Thread) (r : Int) : (t.relabel ν).ownedPush (ν.name r) = (t.ownedPush r).relabel ν := by
  unfold Thread.ownedPush
  rw [relabel_stack, LiveArray.count_map]
  split
  · unfold Thread.relabel
    rw [LiveArray.map_push]
  · rfl

/-- The LIFO check compares ids for equality only. -/
theorem relabel_ownedTopIs (t : Thread) (r : Int) : (t.relabel ν).ownedTopIs (ν.name r) = t.ownedTopIs r := by
  unfold Thread.ownedTopIs
  exact congrArg _ (decide_eq_decide.mpr ν.name_inj)

theorem relabel_resume (t : Thread) : (t.relabel ν).resume = t.resume.relabel ν := by
  unfold Thread.resume Thread.relabel
  simp

theorem relabel_advance (t : Thread) : (t.relabel ν).advance = t.advance.relabel ν := rfl

theorem relabel_waiterRemove (r : Int) (idx : Nat) :
    (w.relabel ν).waiterRemove (ν.name r) idx = (w.waiterRemove r idx).relabel ν :=
  relabel_modResource rfl

theorem relabel_enqueue (r : Int) (state : ThreadState) :
    (w.relabel ν).enqueue tid (ν.name r) state = (w.enqueue tid r state).relabel ν := by
  have hqueued : (w.relabel ν).modResource (ν.name r) (fun m => { m with waiters := m.waiters.push tid })
      = (w.modResource r fun m => { m with waiters := m.waiters.push tid }).relabel ν := relabel_modResource rfl
  unfold World.enqueue
  rw [hqueued]
  exact relabel_modThread rfl

/-! ## The primitives -/

namespace Outcome.Relabeled

/-- A failure leaves the state, and its text is not compared. -/
theorem fail (w : World) (msg msg' : String) {log log' : List LogEntry}
    (h : log'.map LogEntry.what = log.map (LogEntry.relabeled ν)) :
    Outcome.Relabeled ν (.fail w msg log) (.fail (w.relabel ν) msg' log') :=
  ⟨rfl, h, rfl, rfl, rfl⟩

theorem ok {w w' : World} (ret : Bool) {log log' : List LogEntry} (hw : w' = w.relabel ν)
    (h : log'.map LogEntry.what = log.map (LogEntry.relabeled ν)) :
    Outcome.Relabeled ν (.ok w log ret) (.ok w' log' ret) :=
  ⟨hw, h, rfl, rfl, rfl⟩

variable {o o' : Outcome}

theorem finish (h : o.Relabeled ν o') : o.finish.Relabeled ν o'.finish := ⟨h.world, h.log, h.fault, rfl, rfl⟩

theorem mapWorld (h : o.Relabeled ν o') {f : World → World} (hf : ∀ v : World, f (v.relabel ν) = (f v).relabel ν) :
    (o.mapWorld f).Relabeled ν (o'.mapWorld f) :=
  ⟨(congrArg f h.world).trans (hf _), h.log, h.fault, h.ret, h.counted⟩

theorem afterLog (h : o.Relabeled ν o') {es es' : List LogEntry}
    (he : es'.map LogEntry.what = es.map (LogEntry.relabeled ν)) :
    (Outcome.afterLog es o).Relabeled ν (Outcome.afterLog es' o') := by
  refine ⟨h.world, ?_, h.fault, h.ret, h.counted⟩
  unfold Outcome.afterLog
  rw [List.map_append, List.map_append, he, h.log]

theorem advanceIfTrue (h : o.Relabeled ν o') (tid : Int) : (o.advanceIfTrue tid).Relabeled ν (o'.advanceIfTrue tid) := by
  unfold Outcome.advanceIfTrue
  rw [h.ret]
  split
  · exact h.mapWorld fun v => relabel_modThread rfl
  · exact h

/-- Whether a wait is armed is read off the state of its thread. -/
theorem armTimeout (h : o.Relabeled ν o') (tid : Int) (blocked : ThreadState) (ticks : Int) :
    (o.armTimeout tid blocked ticks).Relabeled ν (o'.armTimeout tid blocked ticks) := by
  have hstate : (o'.world.threads tid).state = (o.world.threads tid).state := by rw [h.world]; rfl
  unfold Outcome.armTimeout
  rw [h.ret, hstate]
  split
  · exact h.mapWorld fun v => relabel_modThread rfl
  · exact h

end Outcome.Relabeled

/-- The scan for the most urgent waiter finds the same index: it compares priorities. -/
theorem relabel_bestWaiter [hν : ν.Increasing] (r : Int) : (w.relabel ν).bestWaiter (ν.name r) = w.bestWaiter r := by
  unfold World.bestWaiter
  rw [relabel_resource]
  exact bestIdx_comp (fun i => (w.threads ((w.resources r).waiters.cell i)).priority) (fun _ _ => hν.increasing) _

/-- The inheritance loop follows the renamed links, and stops at the same owner. -/
theorem boost_relabel [hν : ν.Increasing] (p : Int) (fuel : Nat) (cur : Int) (w : World) :
    boost (sc.relabel ν) (ν.priority p) fuel cur (w.relabel ν) = (boost sc p fuel cur w).relabel ν := by
  induction fuel generalizing cur w with
  | zero => rfl
  | succ fuel ih =>
    have hraised : (w.relabel ν).modThread cur (fun t => { t with priority := ν.priority p })
        = (w.modThread cur fun t => { t with priority := p }).relabel ν := relabel_modThread rfl
    have houtside : ν.name (w.threads cur).blockedOn < 0 ∨ (sc.relabel ν).resourceCount ≤ ν.name (w.threads cur).blockedOn ↔
        (w.threads cur).blockedOn < 0 ∨ sc.resourceCount ≤ (w.threads cur).blockedOn := ν.outside_name
    rw [boost, boost, hraised]
    simp only [relabel_thread, relabel_priority, ν.priority_le, relabel_state, relabel_blockedOn, houtside]
    split_ifs
    · rfl
    · rfl
    · rfl
    · rfl
    · rw [relabel_resource]
      exact ih _ _

/-- The order in which the resources are gone through does not matter to a maximum. -/
theorem recalcPriority_relabel [hν : ν.Increasing] (w : World) (tid r : Int) :
    recalcPriority (sc.relabel ν) (w.relabel ν) tid (ν.name r) = ν.priority (recalcPriority sc w tid r) := by
  have hmono : Monotone ν.priority := fun _ _ => ν.priority_le.mpr
  have h := hmono.map_isGreatest (recalcPriority_isGreatest sc w tid r)
  refine (recalcPriority_isGreatest (sc.relabel ν) (w.relabel ν) tid (ν.name r)).unique ?_
  convert h using 1
  ext p
  constructor
  · rintro (rfl | ⟨s, hs, hne, htype, howner, u, hu, rfl⟩)
    · exact ⟨_, .inl rfl, rfl⟩
    · -- The resource has an old name.
      obtain ⟨s, rfl⟩ := ν.name.surjective s
      rw [relabel_resource] at htype howner hu
      exact ⟨_, .inr ⟨s, ν.isResource_name.mp hs, fun heq => hne (heq ▸ rfl), htype, howner, u, hu, rfl⟩, rfl⟩
  · rintro ⟨p, rfl | ⟨s, hs, hne, htype, howner, u, hu, rfl⟩, rfl⟩
    · exact .inl rfl
    · refine .inr ⟨ν.name s, ν.isResource_name.mpr hs, fun heq => hne (ν.name_inj.mp heq), ?_, ?_, u, ?_, rfl⟩
      · rw [relabel_resource]
        exact htype
      · rw [relabel_resource]
        exact howner
      · rw [relabel_resource]
        exact hu

/-- `smash_mutex_lock`. -/
theorem mutexLock_relabel [hν : ν.Increasing] (w : World) (tid r : Int) :
    (mutexLock sc w tid r).Relabeled ν (mutexLock (sc.relabel ν) (w.relabel ν) tid (ν.name r)) := by
  unfold mutexLock
  simp only [relabel_resource, relabel_thread, relabel_alive, relabel_execCtx, relabel_owner, relabel_waiters]
  split_ifs
  · exact .fail w _ _ rfl
  · exact .fail w _ _ rfl
  · have howned : (w.relabel ν).modResource (ν.name r) (fun m => { m with owner := tid })
        = (w.modResource r fun m => { m with owner := tid }).relabel ν := relabel_modResource rfl
    refine .ok true ?_ rfl
    rw [howned]
    exact relabel_modThread (relabel_ownedPush _ r)
  · exact .fail w _ _ rfl
  · exact .fail w _ _ rfl
  · refine .ok false ?_ rfl
    rw [relabel_enqueue]
    exact boost_relabel _ _ _ _

/-- The mutex goes to the same waiter. -/
theorem handOver_relabel [hν : ν.Increasing] (w : World) (r : Int) :
    (handOver (w.relabel ν) (ν.name r)).1 = (handOver w r).1.relabel ν ∧
      (handOver (w.relabel ν) (ν.name r)).2.map LogEntry.what = (handOver w r).2.map (LogEntry.relabeled ν) := by
  unfold handOver
  simp only [relabel_resource, relabel_waiters, relabel_bestWaiter, relabel_waiterRemove]
  split
  · have howned : ∀ (v : World) (t : Int), (v.relabel ν).modResource (ν.name r) (fun m => { m with owner := t })
        = (v.modResource r fun m => { m with owner := t }).relabel ν := fun v t => relabel_modResource rfl
    refine ⟨?_, rfl⟩
    dsimp only
    rw [howned]
    refine relabel_modThread ?_
    rw [relabel_resume, relabel_advance]
    exact relabel_ownedPush _ r
  · refine ⟨?_, rfl⟩
    dsimp only
    exact relabel_modResource rfl

theorem mutexUnlock_relabel [hν : ν.Increasing] (w : World) (tid r : Int) :
    (mutexUnlock sc w tid r).Relabeled ν (mutexUnlock (sc.relabel ν) (w.relabel ν) tid (ν.name r)) := by
  have hpopped : (w.relabel ν).modThread tid (·.ownedPop) = (w.modThread tid (·.ownedPop)).relabel ν :=
    relabel_modThread rfl
  have hlowered : ∀ (v : World) (p : Int), (v.relabel ν).modThread tid (fun t => { t with priority := ν.priority p })
      = (v.modThread tid fun t => { t with priority := p }).relabel ν := fun v p => relabel_modThread rfl
  unfold mutexUnlock
  simp only [relabel_resource, relabel_thread, relabel_alive, relabel_owner, relabel_ownedTopIs]
  by_cases halive : (w.resources r).alive = false
  · rw [if_pos halive, if_pos halive]
    exact .fail w _ _ rfl
  by_cases howner : (w.resources r).owner ≠ tid
  · rw [if_neg halive, if_neg halive, if_pos howner, if_pos howner]
    exact .fail w _ _ rfl
  by_cases htop : (w.threads tid).ownedTopIs r = false
  · rw [if_neg halive, if_neg halive, if_neg howner, if_neg howner, if_pos htop, if_pos htop]
    exact .fail w _ _ rfl
  · rw [if_neg halive, if_neg halive, if_neg howner, if_neg howner, if_neg htop, if_neg htop]
    rw [hpopped, recalcPriority_relabel, hlowered]
    obtain ⟨hworld, hlog⟩ := handOver_relabel (ν := ν)
      ((w.modThread tid (·.ownedPop)).modThread tid fun t =>
        { t with priority := recalcPriority sc (w.modThread tid (·.ownedPop)) tid r }) r
    refine .ok false hworld ?_
    rw [List.map_cons, List.map_cons, hlog]
    rfl

theorem semWait_relabel (w : World) (tid r : Int) :
    (semWait w tid r).Relabeled ν (semWait (w.relabel ν) tid (ν.name r)) := by
  unfold semWait
  simp only [relabel_resource, relabel_thread, relabel_alive, relabel_execCtx, relabel_count, relabel_waiters]
  split_ifs
  · exact .fail w _ _ rfl
  · exact .fail w _ _ rfl
  · exact .ok true (relabel_modResource rfl) rfl
  · exact .fail w _ _ rfl
  · exact .ok false (relabel_enqueue r .blockedSem) rfl

theorem grantSem_relabel [hν : ν.Increasing] (w : World) (r : Int) :
    (w.relabel ν).grantSem (ν.name r) = (w.grantSem r).relabel ν := by
  unfold World.grantSem
  simp only [relabel_bestWaiter, relabel_waiterRemove, relabel_resource, relabel_waiters]
  refine relabel_modThread ?_
  rw [relabel_resume]
  rfl

theorem semSignal_relabel [hν : ν.Increasing] (w : World) (tid r : Int) :
    (semSignal w tid r).Relabeled ν (semSignal (w.relabel ν) tid (ν.name r)) := by
  unfold semSignal
  simp only [relabel_resource, relabel_alive, relabel_count, relabel_waiters]
  split_ifs
  · exact .fail w _ _ rfl
  · exact .ok false (grantSem_relabel w r) rfl
  · exact .ok false (relabel_modResource rfl) rfl

/-- A condition variable names its mutex, and the two are renamed together. -/
theorem condWait_relabel (w : World) (tid c : Int) :
    (condWait sc w tid c).Relabeled ν (condWait (sc.relabel ν) (w.relabel ν) tid (ν.name c)) := by
  have houtside : ∀ r, ν.name r < 0 ∨ (sc.relabel ν).resourceCount ≤ ν.name r ↔ r < 0 ∨ sc.resourceCount ≤ r :=
    fun r => ν.outside_name
  have hpopped : (w.relabel ν).modThread tid (·.ownedPop) = (w.modThread tid (·.ownedPop)).relabel ν :=
    relabel_modThread rfl
  have hfreed : ∀ (v : World) (r : Int), (v.relabel ν).modResource (ν.name r) (fun m => { m with owner := -1 })
      = (v.modResource r fun m => { m with owner := -1 }).relabel ν := fun v r => relabel_modResource rfl
  unfold condWait
  simp only [relabel_resource, relabel_thread, relabel_type, relabel_associatedMutex, houtside, relabel_owner,
    relabel_ownedTopIs, hpopped, hfreed, relabel_waiters, relabel_enqueue]
  split_ifs
  · exact .fail w _ _ rfl
  · exact .fail w _ _ rfl
  · exact .fail w _ _ rfl
  · exact .fail w _ _ rfl
  · exact .fail _ _ _ rfl
  · exact .ok false rfl rfl

theorem condSignal_relabel [hν : ν.Increasing] (w : World) (tid c : Int) :
    (condSignal w tid c).Relabeled ν (condSignal (w.relabel ν) tid (ν.name c)) := by
  unfold condSignal
  simp only [relabel_resource, relabel_type, relabel_waiters, relabel_bestWaiter, relabel_waiterRemove]
  split_ifs
  · exact .fail w _ _ rfl
  · exact .ok false (relabel_modThread (relabel_resume _)) rfl
  · exact .ok false rfl rfl

/-- A broadcast wakes from the front, and looks at no priority. -/
theorem wakeAll_relabel (c : Int) (n : Nat) (w : World) :
    (wakeAll (ν.name c) n (w.relabel ν)).1 = (wakeAll c n w).1.relabel ν ∧
      (wakeAll (ν.name c) n (w.relabel ν)).2.map LogEntry.what
        = (wakeAll c n w).2.map (LogEntry.relabeled ν) := by
  induction n generalizing w with
  | zero => exact ⟨rfl, rfl⟩
  | succ n ih =>
    have hwoken : ((w.relabel ν).waiterRemove (ν.name c) 0).modThread ((w.resources c).waiters.cell 0) (·.resume)
        = ((w.waiterRemove c 0).modThread ((w.resources c).waiters.cell 0) (·.resume)).relabel ν := by
      rw [relabel_waiterRemove]
      exact relabel_modThread (relabel_resume _)
    obtain ⟨hworld, hlog⟩ := ih ((w.waiterRemove c 0).modThread ((w.resources c).waiters.cell 0) (·.resume))
    rw [wakeAll, wakeAll, relabel_resource, relabel_waiters, hwoken]
    refine ⟨hworld, ?_⟩
    rw [List.map_cons, List.map_cons, hlog]
    rfl

theorem condBroadcast_relabel (w : World) (tid c : Int) :
    (condBroadcast w tid c).Relabeled ν (condBroadcast (w.relabel ν) tid (ν.name c)) := by
  unfold condBroadcast
  simp only [relabel_resource, relabel_type, relabel_waiters]
  split_ifs
  · exact .fail w _ _ rfl
  · obtain ⟨hworld, hlog⟩ := wakeAll_relabel (ν := ν) c (w.resources c).waiters.count w
    exact .ok false hworld hlog

/-- A mailbox stores messages, which are neither ids nor priorities. -/
theorem mbBlock_relabel (w : World) (tid r msg : Int) :
    (mbBlock w tid r msg).Relabeled ν (mbBlock (w.relabel ν) tid (ν.name r) msg) := by
  unfold mbBlock
  simp only [relabel_resource, relabel_waiters]
  split_ifs
  · exact .fail w _ _ rfl
  · exact .ok false (relabel_enqueue r .blockedSem) rfl

theorem mbPost_relabel (w : World) (tid r msg : Int) :
    (mbPost w tid r msg).Relabeled ν (mbPost (w.relabel ν) tid (ν.name r) msg) := by
  unfold mbPost
  simp only [relabel_resource, relabel_type, relabel_mbCapacity, relabel_mbCount]
  split_ifs
  · exact .fail w _ _ rfl
  · exact mbBlock_relabel w tid r msg
  · exact .ok true (relabel_modResource rfl) rfl

theorem mbPostFront_relabel (w : World) (tid r msg : Int) :
    (mbPostFront w tid r msg).Relabeled ν (mbPostFront (w.relabel ν) tid (ν.name r) msg) := by
  unfold mbPostFront
  simp only [relabel_resource, relabel_type, relabel_mbCapacity, relabel_mbCount]
  split_ifs
  · exact .fail w _ _ rfl
  · exact mbBlock_relabel w tid r msg
  · exact .ok true (relabel_modResource rfl) rfl

theorem mbFetch_relabel (w : World) (tid r : Int) :
    (mbFetch w tid r).1.Relabeled ν (mbFetch (w.relabel ν) tid (ν.name r)).1 := by
  have hfetched : (w.relabel ν).modResource (ν.name r) (fun m =>
        { m with mbHead := (m.mbHead + 1).tmod m.mbCapacity, mbCount := m.mbCount - 1 })
      = (w.modResource r fun m =>
        { m with mbHead := (m.mbHead + 1).tmod m.mbCapacity, mbCount := m.mbCount - 1 }).relabel ν :=
    relabel_modResource rfl
  unfold mbFetch
  simp only [relabel_resource, relabel_type, relabel_mbCount, relabel_waiters, hfetched, relabel_waiterRemove]
  split_ifs
  · exact .fail w _ _ rfl
  · exact mbBlock_relabel w tid r 0
  · exact .ok true (relabel_modThread (relabel_resume _)) rfl
  · exact .ok true rfl rfl

/-! ## The step -/

/-- The clock reads states and countdowns only. -/
theorem relabel_tickThread (t : Thread) : (t.relabel ν).tick = t.tick.relabel ν := by
  have hexpires : (t.relabel ν).expires = t.expires := rfl
  have htimed : (t.relabel ν).timed = t.timed := rfl
  unfold Thread.tick
  rw [hexpires, htimed, relabel_resume]
  split
  · rfl
  split
  · rfl
  · rfl

/-- The clock expires the same waits. -/
theorem tick_relabel (w : World) :
    ((w.relabel ν).tick (sc.relabel ν)).1 = (w.tick sc).1.relabel ν ∧
      ((w.relabel ν).tick (sc.relabel ν)).2.map LogEntry.what = (w.tick sc).2.map (LogEntry.relabeled ν) := by
  refine ⟨World.ext (funext fun t => ?_) ?_, ?_⟩
  · rw [relabel_thread, tick_threads, tick_threads]
    show (if sc.IsThread t then ((w.threads t).relabel ν).tick else (w.threads t).relabel ν) = _
    rw [relabel_tickThread, apply_ite (Thread.relabel ν)]
  · rw [tick_resources]
    show _ = fun r => (((w.tick sc).1.resources (ν.name.symm r)).relabel ν)
    rw [tick_resources]
    rfl
  · have hexpired : (w.relabel ν).expired (sc.relabel ν) = w.expired sc := rfl
    rw [tick_log, tick_log, hexpired, List.map_map, List.map_map]
    refine List.map_congr_left fun i _ => ?_
    show (EventType.semTimeoutExpired, i, (-1 : Int)) = (EventType.semTimeoutExpired, i, ν.name (-1))
    rw [ν.name_none]

/-! ### The actions without a resource -/

/-- The next action comes up under the same `pc`. -/
theorem relabel_worldAdvance (w : World) (tid : Int) : (w.relabel ν).advance tid = (w.advance tid).relabel ν :=
  relabel_modThread rfl

/-- Entries that name no resource. -/
theorem map_what_none {es : List LogEntry} (h : ∀ e ∈ es, e.resourceId = -1) :
    es.map LogEntry.what = es.map (LogEntry.relabeled ν) := by
  refine List.map_congr_left fun e he => ?_
  unfold LogEntry.what LogEntry.relabeled
  rw [h e he, ν.name_none]

/-- An action that writes fields of its own thread which a relabeling leaves alone. -/
theorem relabeled_own {f : Thread → Thread} (type : EventType) (arg : Int)
    (hf : ∀ t : Thread, f (t.relabel ν) = (f t).relabel ν) :
    ((Outcome.ok ((w.modThread tid f).advance tid) [⟨type, tid, -1, arg⟩] true).finish).Relabeled ν
      (Outcome.ok (((w.relabel ν).modThread tid f).advance tid) [⟨type, tid, -1, arg⟩] true).finish := by
  have hwritten : (w.relabel ν).modThread tid f = (w.modThread tid f).relabel ν := relabel_modThread (hf _)
  refine (Outcome.Relabeled.ok true ?_ (map_what_none (by simp))).finish
  rw [hwritten]
  exact relabel_worldAdvance _ tid

theorem actDone_relabel (w : World) (tid : Int) : (actDone w tid).Relabeled ν (actDone (w.relabel ν) tid) := by
  have hdone : (w.relabel ν).modThread tid (fun t => { t with state := .done })
      = (w.modThread tid fun t => { t with state := .done }).relabel ν := relabel_modThread rfl
  unfold actDone
  simp only [relabel_thread, relabel_stack, LiveArray.count_map, hdone]
  split_ifs
  · exact (Outcome.Relabeled.fail _ _ _ (map_what_none (by simp))).finish
  · exact (Outcome.Relabeled.ok true rfl (map_what_none (by simp))).finish

theorem actSysLock_relabel (w : World) (tid : Int) : (actSysLock w tid).Relabeled ν (actSysLock (w.relabel ν) tid) :=
  relabeled_own (f := fun t => { t with sysLockDepth := (w.threads tid).sysLockDepth + 1, execCtx := .sysLock })
    .sysLock _ fun _ => rfl

theorem actSysUnlock_relabel (w : World) (tid : Int) :
    (actSysUnlock w tid).Relabeled ν (actSysUnlock (w.relabel ν) tid) := by
  unfold actSysUnlock
  rw [relabel_thread, relabel_sysLockDepth]
  by_cases hdepth : (w.threads tid).sysLockDepth ≤ 0
  · rw [if_pos hdepth, if_pos hdepth]
    exact .fail w _ _ (map_what_none (by simp))
  · rw [if_neg hdepth, if_neg hdepth]
    exact relabeled_own (f := fun t =>
      { t with
        sysLockDepth := (w.threads tid).sysLockDepth - 1
        execCtx := if 0 < (w.threads tid).sysLockDepth - 1 then .sysLock else .thread }) .sysUnlock _ fun _ => rfl

theorem actIsrEnter_relabel (w : World) (tid : Int) :
    (actIsrEnter w tid).Relabeled ν (actIsrEnter (w.relabel ν) tid) := by
  unfold actIsrEnter
  dsimp only
  rw [relabel_thread, relabel_isrDepth]
  by_cases hdepth : smashMaxIsrDepth ≤ (w.threads tid).isrDepth
  · rw [if_pos hdepth, if_pos hdepth]
    exact .fail w _ _ rfl
  · rw [if_neg hdepth, if_neg hdepth]
    exact relabeled_own (f := fun t => { t with isrDepth := (w.threads tid).isrDepth + 1, execCtx := .isr })
      .isrEnter _ fun _ => rfl

theorem actIsrExit_relabel (w : World) (tid : Int) :
    (actIsrExit w tid).Relabeled ν (actIsrExit (w.relabel ν) tid) := by
  unfold actIsrExit
  rw [relabel_thread, relabel_isrDepth]
  by_cases hdepth : (w.threads tid).isrDepth ≤ 0
  · rw [if_pos hdepth, if_pos hdepth]
    exact .fail w _ _ (map_what_none (by simp))
  · rw [if_neg hdepth, if_neg hdepth]
    exact relabeled_own (f := fun t =>
      { t with
        isrDepth := (w.threads tid).isrDepth - 1
        execCtx := if (w.threads tid).isrDepth - 1 = 0 then (if 0 < t.sysLockDepth then .sysLock else .thread)
          else t.execCtx }) .isrExit _ fun _ => rfl

theorem actCall_relabel (w : World) (tid arg : Int) :
    (actCall sc w tid arg).Relabeled ν (actCall (sc.relabel ν) (w.relabel ν) tid arg) := by
  have hcalled : ∀ depth : Int, (w.relabel ν).modThread tid (fun t =>
        { t with
          stackDepth := depth
          stackWatermark := if t.stackWatermark < depth then depth else t.stackWatermark })
      = (w.modThread tid fun t =>
        { t with
          stackDepth := depth
          stackWatermark := if t.stackWatermark < depth then depth else t.stackWatermark }).relabel ν :=
    fun depth => relabel_modThread rfl
  have hlimit : (sc.relabel ν).stackSizes = sc.stackSizes := rfl
  unfold actCall
  dsimp only
  rw [relabel_thread, relabel_stackDepth, hcalled, hlimit]
  split_ifs
  · exact .fail _ _ _ (map_what_none (by simp))
  · exact (Outcome.Relabeled.ok true (relabel_worldAdvance _ tid) (map_what_none (by simp))).finish

theorem actReturn_relabel (w : World) (tid arg : Int) :
    (actReturn w tid arg).Relabeled ν (actReturn (w.relabel ν) tid arg) :=
  relabeled_own (f := fun t =>
    { t with stackDepth := if (w.threads tid).stackDepth - argOr arg 1 < 0 then 0
        else (w.threads tid).stackDepth - argOr arg 1 }) .ret _ fun _ => rfl

/-! ### Life and death of an object -/

/-- `ACT_OBJECT_INIT` and `ACT_OBJECT_DESTROY` write one flag, under the new name. -/
theorem relabel_alive_set (w : World) (tid r : Int) (alive : Bool) :
    ((w.relabel ν).modResource (ν.name r) fun m => { m with alive := alive }).advance tid
      = ((w.modResource r fun m => { m with alive := alive }).advance tid).relabel ν := by
  have hset : (w.relabel ν).modResource (ν.name r) (fun m => { m with alive := alive })
      = (w.modResource r fun m => { m with alive := alive }).relabel ν := relabel_modResource rfl
  rw [hset, relabel_worldAdvance]

theorem actObjectInit_relabel (w : World) (tid r : Int) :
    (actObjectInit w tid r).Relabeled ν (actObjectInit (w.relabel ν) tid (ν.name r)) :=
  (Outcome.Relabeled.ok true (relabel_alive_set w tid r true) rfl).finish

theorem actObjectDestroy_relabel (w : World) (tid r : Int) :
    (actObjectDestroy w tid r).Relabeled ν (actObjectDestroy (w.relabel ν) tid (ν.name r)) := by
  unfold actObjectDestroy
  rw [relabel_resource, relabel_alive]
  split_ifs
  · exact .fail w _ _ rfl
  · exact (Outcome.Relabeled.ok true (relabel_alive_set w tid r false) rfl).finish

/-- **The `switch`**, one case an action. -/
theorem dispatch_relabel [hν : ν.Increasing] (w : World) (tid : Int) (a : Action) :
    (w.dispatch sc tid a).Relabeled ν ((w.relabel ν).dispatch (sc.relabel ν) tid (a.relabel ν)) := by
  have hstep : ∀ v : World, (v.relabel ν).advance tid = (v.advance tid).relabel ν := fun v => relabel_worldAdvance v tid
  obtain ⟨type, r, arg⟩ := a
  cases type with
  | mutexLock => exact ((mutexLock_relabel w tid r).advanceIfTrue tid).finish
  | mutexTimedLock => exact (((mutexLock_relabel w tid r).advanceIfTrue tid).armTimeout tid _ _).finish
  | mutexUnlock => exact ((mutexUnlock_relabel w tid r).mapWorld hstep).finish
  | semWait => exact ((semWait_relabel w tid r).advanceIfTrue tid).finish
  | semTimedWait => exact (((semWait_relabel w tid r).advanceIfTrue tid).armTimeout tid _ _).finish
  | semSignal => exact ((semSignal_relabel w tid r).mapWorld hstep).finish
  | condWait => exact ((condWait_relabel w tid r).advanceIfTrue tid).finish
  | condSignal => exact ((condSignal_relabel w tid r).mapWorld hstep).finish
  | condBroadcast => exact ((condBroadcast_relabel w tid r).mapWorld hstep).finish
  | mbPost => exact ((mbPost_relabel w tid r arg).advanceIfTrue tid).finish
  | mbPostFront => exact ((mbPostFront_relabel w tid r arg).advanceIfTrue tid).finish
  | mbFetch => exact ((mbFetch_relabel w tid r).advanceIfTrue tid).finish
  | yield => exact (Outcome.Relabeled.ok true (hstep w) (map_what_none (by simp))).finish
  | nop => exact (Outcome.Relabeled.ok true (hstep w) rfl).finish
  | done => exact actDone_relabel w tid
  | sysLock => exact actSysLock_relabel w tid
  | sysUnlock => exact actSysUnlock_relabel w tid
  | isrEnter => exact actIsrEnter_relabel w tid
  | isrExit => exact actIsrExit_relabel w tid
  | objectInit => exact actObjectInit_relabel w tid r
  | objectDestroy => exact actObjectDestroy_relabel w tid r
  | call => exact actCall_relabel w tid arg
  | ret => exact actReturn_relabel w tid arg
  | condWaitTimeout => exact (Outcome.Relabeled.ok true rfl rfl).finish
  | mbPostTimeout => exact (Outcome.Relabeled.ok true rfl rfl).finish
  | mbFetchTimeout => exact (Outcome.Relabeled.ok true rfl rfl).finish

/-- Under a `pc` stands the renamed action. -/
theorem actionAt_relabel (tid : Int) (pc : Nat) :
    (sc.relabel ν).actionAt tid pc = (sc.actionAt tid pc).map (Action.relabel ν) := by
  unfold Scenario.actionAt
  show (if (pc : Int) < sc.stepCount tid then some ((sc.steps tid pc).relabel ν) else none) = _
  split
  · rfl
  · rfl

/-- The call without its clock. -/
theorem runThread_relabel [hν : ν.Increasing] (w : World) (tid : Int) :
    (w.runThread sc tid).Relabeled ν ((w.relabel ν).runThread (sc.relabel ν) tid) := by
  unfold World.runThread
  simp only [relabel_thread, relabel_state, relabel_pc, actionAt_relabel]
  by_cases hready : (w.threads tid).state ≠ .ready
  · rw [if_pos hready, if_pos hready]
    exact .ok false rfl rfl
  rw [if_neg hready, if_neg hready]
  cases sc.actionAt tid (w.threads tid).pc with
  | none => exact .ok true (relabel_modThread rfl) (map_what_none (by simp))
  | some a =>
    have hbad : (a.relabel ν).resourceId ≠ smashNoResource ∧ ((a.relabel ν).resourceId < 0 ∨
          (sc.relabel ν).resourceCount ≤ (a.relabel ν).resourceId) ↔
        a.resourceId ≠ smashNoResource ∧ (a.resourceId < 0 ∨ sc.resourceCount ≤ a.resourceId) :=
      and_congr (not_congr ν.name_eq_none) ν.outside_name
    simp only [Option.map_some, hbad]
    split_ifs
    · exact .fail w _ _ rfl
    · exact (dispatch_relabel w tid a).afterLog (by simp [LogEntry.what, LogEntry.relabeled])

/-- **A relabeled state takes the relabeled step.** -/
theorem executeStep_relabel [hν : ν.Increasing] (w : World) (tid : Int) :
    (w.executeStep sc tid).Relabeled ν ((w.relabel ν).executeStep (sc.relabel ν) tid) := by
  obtain ⟨hworld, hlog⟩ := @tick_relabel sc ν w
  have hrun := @runThread_relabel sc ν hν (w.tick sc).1 tid
  rw [← hworld] at hrun
  exact hrun.afterLog hlog

end Smash
