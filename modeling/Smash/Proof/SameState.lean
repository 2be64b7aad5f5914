import Smash.Proof.Bounds
import Smash.Proof.Commute
import Smash.Proof.Events

/-!
# The same live state up to dead cells

`smash_engine_reset` empties the wait queues, the stacks of owned mutexes and the mailboxes by setting their
counters to zero; the cells keep what an earlier run left in them. Two live states are the same when they agree
on everything but such dead cells (`SameWorld`). Each primitive reads live cells only, so in two such states
it returns, reports and fails alike and leaves two such states (`SameWorld.dispatch`), and so does a call of
`smash_execute_step` (`SameWorld.executeStep`).

That no other cell is read takes what is known of the states: queues and owners are threads of the scenario
(`Crew`), and the indices of a mailbox are in order (`Fits`).
-/

set_option autoImplicit false

namespace Smash

variable {sc : Scenario}

/-! ## The same up to dead cells -/

/-- The same resource, up to the dead cells of its queue and, other than in `Resource.SameLive`, of its ring. -/
structure SameResource (r r' : Resource) : Prop where
  fields : r' = { r with mbMessages := r'.mbMessages, waiters := r'.waiters }
  waiters : r'.waiters.toList = r.waiters.toList
  messages : r'.messages = r.messages

/-- The same threads and resources of the scenario. -/
structure SameWorld (sc : Scenario) (w w' : World) : Prop where
  thread : ∀ t, sc.IsThread t → (w'.threads t).SameLive (w.threads t)
  resource : ∀ r, sc.IsResource r → SameResource (w.resources r) (w'.resources r)

/-- The same live state, and everything else alike. -/
structure SameOutcome (sc : Scenario) (o o' : Outcome) : Prop where
  world : SameWorld sc o.world o'.world
  log : o'.log = o.log
  fault : o'.fault = o.fault
  ret : o'.ret = o.ret
  counted : o'.counted = o.counted

/-! ### What the same threads agree on -/

namespace Thread.SameLive

variable {t t' : Thread}

theorem stack (h : t'.SameLive t) : t'.ownedMutexStack.toList = t.ownedMutexStack.toList := h.1

theorem basePriority (h : t'.SameLive t) : t'.basePriority = t.basePriority := by rw [← h.2]

theorem priority (h : t'.SameLive t) : t'.priority = t.priority := by rw [← h.2]

theorem pc (h : t'.SameLive t) : t'.pc = t.pc := by rw [← h.2]

theorem blockedOn (h : t'.SameLive t) : t'.blockedOn = t.blockedOn := by rw [← h.2]

theorem timeoutTicks (h : t'.SameLive t) : t'.timeoutTicks = t.timeoutTicks := by rw [← h.2]

theorem execCtx (h : t'.SameLive t) : t'.execCtx = t.execCtx := by rw [← h.2]

theorem sysLockDepth (h : t'.SameLive t) : t'.sysLockDepth = t.sysLockDepth := by rw [← h.2]

theorem isrDepth (h : t'.SameLive t) : t'.isrDepth = t.isrDepth := by rw [← h.2]

theorem stackDepth (h : t'.SameLive t) : t'.stackDepth = t.stackDepth := by rw [← h.2]

theorem held (h : t'.SameLive t) : t'.ownedMutexStack.count = t.ownedMutexStack.count :=
  LiveArray.count_eq h.stack

theorem ownedTopIs (h : t'.SameLive t) (r : Int) : t'.ownedTopIs r = t.ownedTopIs r := by
  unfold Thread.ownedTopIs
  rw [h.held]
  by_cases hempty : t.ownedMutexStack.count = 0
  · simp [hempty]
  · rw [LiveArray.cell_eq h.stack (by omega)]

/-- So the clock does the same to both. -/
theorem timed (h : t'.SameLive t) : t'.timed = t.timed := by
  unfold Thread.timed Thread.blocked
  rw [h.state, h.timeoutTicks]

theorem expires (h : t'.SameLive t) : t'.expires = t.expires := by
  unfold Thread.expires
  rw [h.timed, h.timeoutTicks]

/-- A write that neither reads nor touches the stack. -/
theorem map (h : t'.SameLive t) (f : Thread → Thread)
    (hf : ∀ t s, f { t with ownedMutexStack := s } = { f t with ownedMutexStack := s }) :
    (f t').SameLive (f t) := by
  have hself : f t' = { f t' with ownedMutexStack := t'.ownedMutexStack } := hf t' t'.ownedMutexStack
  have hother : f t = { f t' with ownedMutexStack := t.ownedMutexStack } :=
    (congrArg f h.2.symm).trans (hf t' t.ownedMutexStack)
  have hstack' : (f t').ownedMutexStack = t'.ownedMutexStack := by rw [hself]
  have hstack : (f t).ownedMutexStack = t.ownedMutexStack := by rw [hother]
  refine ⟨?_, ?_⟩
  · rw [hstack, hstack']
    exact h.stack
  · rw [hstack]
    exact hother.symm

/-- A write to the stack. -/
theorem withStack (h : t'.SameLive t) {s s' : LiveArray Int} (hs : s'.toList = s.toList) :
    Thread.SameLive { t' with ownedMutexStack := s' } { t with ownedMutexStack := s } := by
  refine ⟨hs, ?_⟩
  rw [← h.2]

theorem ownedPush (h : t'.SameLive t) (r : Int) : (t'.ownedPush r).SameLive (t.ownedPush r) := by
  unfold Thread.ownedPush
  rw [h.held]
  split
  · exact h.withStack (LiveArray.same_push h.stack r)
  · exact h

theorem ownedPop (h : t'.SameLive t) : t'.ownedPop.SameLive t.ownedPop :=
  h.withStack (LiveArray.same_dropLast h.stack)

/-- What a wakeup writes, … -/
theorem resume (h : t'.SameLive t) : t'.resume.SameLive t.resume := h.map (·.resume) fun _ _ => rfl

/-- … and what an action that goes through writes. -/
theorem advance (h : t'.SameLive t) : t'.advance.SameLive t.advance := h.map (·.advance) fun _ _ => rfl

theorem tick (h : t'.SameLive t) : t'.tick.SameLive t.tick := by
  unfold Thread.tick
  rw [h.expires, h.timed]
  split
  · exact h.map (fun t => { t.resume.advance with timeoutTicks := -1 }) fun _ _ => rfl
  split
  · exact h.map (fun t => { t with timeoutTicks := t.timeoutTicks - 1 }) fun _ _ => rfl
  · exact h

end Thread.SameLive

/-! ### What the same resources agree on -/

namespace SameResource

variable {r r' : Resource}

theorem type (h : SameResource r r') : r'.type = r.type := by rw [h.fields]

theorem owner (h : SameResource r r') : r'.owner = r.owner := by rw [h.fields]

theorem count (h : SameResource r r') : r'.count = r.count := by rw [h.fields]

theorem associatedMutex (h : SameResource r r') : r'.associatedMutex = r.associatedMutex := by
  rw [h.fields]

theorem mbCapacity (h : SameResource r r') : r'.mbCapacity = r.mbCapacity := by
  rw [h.fields]

theorem mbHead (h : SameResource r r') : r'.mbHead = r.mbHead := by rw [h.fields]

theorem mbCount (h : SameResource r r') : r'.mbCount = r.mbCount := by rw [h.fields]

theorem alive (h : SameResource r r') : r'.alive = r.alive := by rw [h.fields]

/-- The queues are of one length, and live cells are equal. -/
theorem queue (h : SameResource r r') : r'.waiters.count = r.waiters.count := LiveArray.count_eq h.waiters

theorem waiter (h : SameResource r r') {i : Nat} (hi : i < r.waiters.count) :
    r'.waiters.cell i = r.waiters.cell i := LiveArray.cell_eq h.waiters hi

/-- A write to the fields that every resource has. -/
theorem map (h : SameResource r r') (f : Resource → Resource)
    (hf : ∀ r m q, f { r with mbMessages := m, waiters := q } = { f r with mbMessages := m, waiters := q })
    (hmail : ∀ r, (f r).mail = r.mail) : SameResource (f r) (f r') := by
  have hself : f r = { f r with mbMessages := r.mbMessages, waiters := r.waiters } :=
    hf r r.mbMessages r.waiters
  have hother : f r' = { f r with mbMessages := r'.mbMessages, waiters := r'.waiters } :=
    (congrArg f h.fields).trans (hf r r'.mbMessages r'.waiters)
  have hqueue : (f r).waiters = r.waiters := by rw [hself]
  have hqueue' : (f r').waiters = r'.waiters := by rw [hother]
  have hcells : (f r').mbMessages = r'.mbMessages := by rw [hother]
  refine ⟨?_, ?_, ?_⟩
  · rw [hcells, hqueue']
    exact hother
  · rw [hqueue, hqueue']
    exact h.waiters
  · rw [messages_congr (hmail r), messages_congr (hmail r')]
    exact h.messages

/-- A write to the queue. -/
theorem withWaiters (h : SameResource r r') {q q' : LiveArray Int} (hq : q'.toList = q.toList) :
    SameResource { r with waiters := q } { r' with waiters := q' } := by
  refine ⟨?_, hq, h.messages⟩
  rw [h.fields]

/-- The indices of the two rings are the same. -/
theorem wf (h : SameResource r r') (hwf : r.ring.Wf r.mbCapacity) : r'.ring.Wf r'.mbCapacity := by
  obtain ⟨m, q, rfl⟩ : ∃ m q, r' = { r with mbMessages := m, waiters := q } := ⟨_, _, h.fields⟩
  exact ⟨hwf.head_nonneg, hwf.head_lt, hwf.count_nonneg, hwf.count_le, hwf.tail_eq⟩

/-- A post, at either end, writes the cell that it makes live. -/
theorem post (h : SameResource r r') (hwf : r.ring.Wf r.mbCapacity) (hroom : r.mbCount < r.mbCapacity)
    (msg : Int) : SameResource (r.post msg) (r'.post msg) := by
  have hmessages : (r'.post msg).messages = (r.post msg).messages := by
    rw [messages_post (h.wf hwf) (by rw [h.mbCount, h.mbCapacity]; exact hroom), messages_post hwf hroom,
      h.messages]
  have hwaiters := h.waiters
  obtain ⟨m, q, rfl⟩ : ∃ m q, r' = { r with mbMessages := m, waiters := q } := ⟨_, _, h.fields⟩
  exact ⟨rfl, hwaiters, hmessages⟩

theorem postFront (h : SameResource r r') (hwf : r.ring.Wf r.mbCapacity) (hroom : r.mbCount < r.mbCapacity)
    (hsum : IsInt (r.mbHead - 1 + r.mbCapacity)) (msg : Int) :
    SameResource (r.postFront msg) (r'.postFront msg) := by
  have hmessages : (r'.postFront msg).messages = (r.postFront msg).messages := by
    rw [messages_postFront (h.wf hwf) (by rw [h.mbCount, h.mbCapacity]; exact hroom)
      (by rw [h.mbHead, h.mbCapacity]; exact hsum), messages_postFront hwf hroom hsum, h.messages]
  have hwaiters := h.waiters
  obtain ⟨m, q, rfl⟩ : ∃ m q, r' = { r with mbMessages := m, waiters := q } := ⟨_, _, h.fields⟩
  exact ⟨rfl, hwaiters, hmessages⟩

/-- A fetch reads the first of the live cells. -/
theorem fetch (h : SameResource r r') (hwf : r.ring.Wf r.mbCapacity) (hlive : r.mbCount ≠ 0) :
    r'.mbMessages r'.mbHead = r.mbMessages r.mbHead ∧ SameResource r.fetch r'.fetch := by
  have hmessages := h.messages
  rw [messages_fetch (h.wf hwf) (by rw [h.mbCount]; exact hlive), messages_fetch hwf hlive] at hmessages
  obtain ⟨hmsg, hrest⟩ := List.cons.inj hmessages
  refine ⟨hmsg, ?_⟩
  have hwaiters := h.waiters
  obtain ⟨m, q, rfl⟩ : ∃ m q, r' = { r with mbMessages := m, waiters := q } := ⟨_, _, h.fields⟩
  exact ⟨rfl, hwaiters, hrest⟩

end SameResource

/-! ### Writes to the same states -/

namespace SameWorld

variable {w w' : World}

/-- A write to a thread that does the same to threads that are the same. -/
theorem modThread (h : SameWorld sc w w') (i : Int) {f g : Thread → Thread}
    (hfg : ∀ t t', t'.SameLive t → (g t').SameLive (f t)) :
    SameWorld sc (w.modThread i f) (w'.modThread i g) := by
  refine ⟨fun t ht => ?_, h.resource⟩
  by_cases hi : t = i
  · subst hi
    rw [World.modThread_self, World.modThread_self]
    exact hfg _ _ (h.thread t ht)
  · rw [World.modThread_of_ne _ hi, World.modThread_of_ne _ hi]
    exact h.thread t ht

theorem modResource (h : SameWorld sc w w') (i : Int) {f g : Resource → Resource}
    (hfg : SameResource (w.resources i) (w'.resources i) →
      SameResource (f (w.resources i)) (g (w'.resources i))) :
    SameWorld sc (w.modResource i f) (w'.modResource i g) := by
  refine ⟨h.thread, fun r hr => ?_⟩
  by_cases hi : r = i
  · subst hi
    rw [World.modResource_self, World.modResource_self]
    exact hfg (h.resource r hr)
  · rw [World.modResource_of_ne _ hi, World.modResource_of_ne _ hi]
    exact h.resource r hr

theorem advance (h : SameWorld sc w w') (tid : Int) : SameWorld sc (w.advance tid) (w'.advance tid) :=
  h.modThread tid fun _ _ ht => ht.advance

theorem waiterRemove (h : SameWorld sc w w') (r : Int) (i : Nat) :
    SameWorld sc (w.waiterRemove r i) (w'.waiterRemove r i) :=
  h.modResource r fun hr => hr.withWaiters (LiveArray.same_swapRemove hr.waiters i)

theorem enqueue (h : SameWorld sc w w') (tid r : Int) (state : ThreadState) :
    SameWorld sc (w.enqueue tid r state) (w'.enqueue tid r state) :=
  (h.modResource r fun hr => hr.withWaiters (LiveArray.same_push hr.waiters tid)).modThread tid
    fun _ _ ht => ht.map (·.block state r) fun _ _ => rfl

end SameWorld

/-! ## The primitives -/

/-- A call that leaves the same states, with the same report. -/
theorem SameOutcome.ok {w w' : World} (h : SameWorld sc w w') (log : List LogEntry) (ret : Bool) :
    SameOutcome sc (.ok w log ret) (.ok w' log ret) := ⟨h, rfl, rfl, rfl, rfl⟩

theorem SameOutcome.fail {w w' : World} (h : SameWorld sc w w') (msg : String) (log : List LogEntry) :
    SameOutcome sc (.fail w msg log) (.fail w' msg log) := ⟨h, rfl, rfl, rfl, rfl⟩

namespace SameWorld

variable {w w' : World} {tid r : Int}

/-! ### Helpers -/

/-- A live cell of a queue holds a thread of the scenario. -/
theorem waiter_thread (hc : Crew sc w) (hr : sc.IsResource r) {i : Nat}
    (hi : i < (w.resources r).waiters.count) : sc.IsThread ((w.resources r).waiters.cell i) :=
  hc.waiter r hr _ (LiveArray.cell_mem hi)

/-- The scan reads live cells, and the priorities of threads. -/
theorem bestWaiter (h : SameWorld sc w w') (hc : Crew sc w) (hr : sc.IsResource r) :
    w'.bestWaiter r = w.bestWaiter r := by
  unfold World.bestWaiter
  rw [(h.resource r hr).queue]
  refine bestIdx_congr fun i hi => ?_
  rw [(h.resource r hr).waiter hi]
  exact (h.thread _ (waiter_thread hc hr hi)).priority

/-- What an unlock lowers the priority to is read off the live cells of the other mutexes. -/
theorem recalcPriority (h : SameWorld sc w w') (hc : Crew sc w) (ht : sc.IsThread tid) (r : Int) :
    recalcPriority sc w' tid r = recalcPriority sc w tid r := by
  unfold Smash.recalcPriority
  rw [(h.thread tid ht).basePriority]
  refine List.foldl_ext _ _ _ fun p s hs => ?_
  have hs := Scenario.mem_resourceIds.mp hs
  have hsame := h.resource s hs
  have hprio : ∀ x ∈ (w.resources s).waiters.toList, (w'.threads x).priority = (w.threads x).priority :=
    fun x hx => (h.thread x (hc.waiter s hs x hx)).priority
  rw [hsame.type, hsame.owner, hsame.waiters, List.map_congr_left hprio]

/-- The inheritance loop, at an owner that is a thread of the scenario. -/
theorem boost (h : SameWorld sc w w') (prio : Int) (fuel : Nat) {cur : Int}
    (hcur : 0 ≤ cur → sc.IsThread cur)
    (howner : ∀ s, sc.IsResource s → 0 ≤ (w.resources s).owner → sc.IsThread (w.resources s).owner) :
    SameWorld sc (boost sc prio fuel cur w) (boost sc prio fuel cur w') := by
  induction fuel generalizing w w' cur with
  | zero => exact h
  | succ fuel ih =>
    rw [Smash.boost, Smash.boost]
    by_cases hneg : cur < 0
    · rw [if_pos hneg, if_pos hneg]
      exact h
    rw [if_neg hneg, if_neg hneg]
    have hthread := h.thread cur (hcur (Int.not_lt.mp hneg))
    rw [hthread.priority, hthread.state, hthread.blockedOn]
    have hraised : SameWorld sc (w.modThread cur fun t => { t with priority := prio })
        (w'.modThread cur fun t => { t with priority := prio }) :=
      h.modThread cur fun _ _ ht => ht.map (fun t => { t with priority := prio }) fun _ _ => rfl
    split
    · exact h
    dsimp only
    split
    · exact hraised
    split
    · exact hraised
    · -- The chain goes on with the owner of the mutex that this thread waits for.
      rename_i hnext
      have hres : sc.IsResource (w.threads cur).blockedOn := by
        unfold Scenario.IsResource
        omega
      rw [(h.resource _ hres).owner]
      exact ih hraised (howner _ hres) howner

/-! ### Mutexes -/

/-- `smash_mutex_lock`. A blocking lock hands on its priority along owners that are threads. -/
theorem mutexLock (h : SameWorld sc w w') (hc : Crew sc w) (ht : sc.IsThread tid) (hr : sc.IsResource r) :
    SameOutcome sc (mutexLock sc w tid r) (mutexLock sc w' tid r) := by
  have hm := h.resource r hr
  have hthread := h.thread tid ht
  unfold Smash.mutexLock
  dsimp only
  rw [hm.alive, hm.owner, hm.queue, hthread.execCtx, hthread.priority]
  split
  · exact .fail h _ _
  split
  · exact .fail h _ _
  split
  · refine .ok (SameWorld.modThread (h.modResource r fun hs => ?_) tid fun _ _ ht => ht.ownedPush r) _ _
    exact hs.map (fun m => { m with owner := tid }) (fun _ _ _ => rfl) fun _ => rfl
  split
  · exact .fail h _ _
  split
  · exact .fail h _ _
  · refine .ok (SameWorld.boost (h.enqueue tid r .blockedMutex) _ _ (hc.owner r hr) fun s hs => ?_) _ _
    rw [World.enqueue_owner]
    exact hc.owner s hs

/-- The waiter that is handed the mutex is taken from a live cell. -/
theorem handOver (h : SameWorld sc w w') (hc : Crew sc w) (hr : sc.IsResource r) :
    SameWorld sc (handOver w r).1 (handOver w' r).1 ∧ (handOver w' r).2 = (handOver w r).2 := by
  have hm := h.resource r hr
  unfold Smash.handOver
  dsimp only
  rw [hm.queue, h.bestWaiter hc hr]
  split
  · rename_i hlive
    rw [hm.waiter (bestWaiter_lt hlive)]
    refine ⟨?_, rfl⟩
    dsimp only
    refine SameWorld.modThread (SameWorld.modResource (h.waiterRemove r _) r fun hs => ?_) _ fun _ _ ht => ?_
    · exact hs.map (fun m => { m with owner := (w.resources r).waiters.cell (w.bestWaiter r) })
        (fun _ _ _ => rfl) fun _ => rfl
    · exact ht.resume.advance.ownedPush r
  · refine ⟨?_, rfl⟩
    dsimp only
    refine h.modResource r fun hs => ?_
    exact hs.map (fun m => { m with owner := -1 }) (fun _ _ _ => rfl) fun _ => rfl

theorem mutexUnlock (h : SameWorld sc w w') (hc : Crew sc w) (ht : sc.IsThread tid) (hr : sc.IsResource r) :
    SameOutcome sc (mutexUnlock sc w tid r) (mutexUnlock sc w' tid r) := by
  have hm := h.resource r hr
  have hthread := h.thread tid ht
  have hpopped : SameWorld sc (w.modThread tid (·.ownedPop)) (w'.modThread tid (·.ownedPop)) :=
    h.modThread tid fun _ _ ht => ht.ownedPop
  have htop : (if 0 < (w'.threads tid).ownedMutexStack.count then
        (w'.threads tid).ownedMutexStack.cell ((w'.threads tid).ownedMutexStack.count - 1) else -1) =
      if 0 < (w.threads tid).ownedMutexStack.count then
        (w.threads tid).ownedMutexStack.cell ((w.threads tid).ownedMutexStack.count - 1) else -1 := by
    rw [hthread.held]
    split
    · exact LiveArray.cell_eq hthread.stack (by omega)
    · rfl
  unfold Smash.mutexUnlock
  dsimp only
  rw [hm.alive, hm.owner, hthread.ownedTopIs, htop, hpopped.recalcPriority ⟨hc.waiter, hc.owner⟩ ht r]
  split
  · exact .fail h _ _
  split
  · exact .fail h _ _
  split
  · exact .fail h _ _
  · generalize Smash.recalcPriority sc (w.modThread tid (·.ownedPop)) tid r = prio
    have hlowered : SameWorld sc
        ((w.modThread tid (·.ownedPop)).modThread tid fun t => { t with priority := prio })
        ((w'.modThread tid (·.ownedPop)).modThread tid fun t => { t with priority := prio }) :=
      hpopped.modThread tid fun _ _ ht => ht.map (fun t => { t with priority := prio }) fun _ _ => rfl
    obtain ⟨hworld, hlog⟩ := hlowered.handOver ⟨hc.waiter, hc.owner⟩ hr
    rw [hlog]
    exact .ok hworld _ _

/-! ### Semaphores -/

theorem semWait (h : SameWorld sc w w') (ht : sc.IsThread tid) (hr : sc.IsResource r) :
    SameOutcome sc (semWait w tid r) (semWait w' tid r) := by
  have hs := h.resource r hr
  have hthread := h.thread tid ht
  unfold Smash.semWait
  dsimp only
  rw [hs.alive, hs.count, hs.queue, hthread.execCtx]
  split
  · exact .fail h _ _
  split
  · exact .fail h _ _
  split
  · refine .ok (h.modResource r fun hs => ?_) _ _
    exact hs.map (fun s => { s with count := s.count - 1 }) (fun _ _ _ => rfl) fun _ => rfl
  split
  · exact .fail h _ _
  · exact .ok (h.enqueue tid r .blockedSem) _ _

/-- So is the one that is given the unit. -/
theorem grantSem (h : SameWorld sc w w') (hc : Crew sc w) (hr : sc.IsResource r)
    (hlive : 0 < (w.resources r).waiters.count) : SameWorld sc (w.grantSem r) (w'.grantSem r) := by
  unfold World.grantSem
  dsimp only
  rw [h.bestWaiter hc hr, (h.resource r hr).waiter (bestWaiter_lt hlive)]
  exact SameWorld.modThread (h.waiterRemove r _) _ fun _ _ ht => ht.resume.advance

theorem semSignal (h : SameWorld sc w w') (hc : Crew sc w) (hr : sc.IsResource r) :
    SameOutcome sc (semSignal w tid r) (semSignal w' tid r) := by
  have hs := h.resource r hr
  unfold Smash.semSignal
  dsimp only
  rw [hs.alive, hs.count, hs.queue]
  split
  · exact .fail h _ _
  split
  · exact .ok (h.grantSem hc hr ‹_›) _ _
  · refine .ok (h.modResource r fun hs => ?_) _ _
    exact hs.map (fun s => { s with count := s.count + 1 }) (fun _ _ _ => rfl) fun _ => rfl

/-! ### Condition variables -/

/-- A wait lets go of its mutex first, which may hand it over. -/
theorem condWait (h : SameWorld sc w w') (ht : sc.IsThread tid) (hr : sc.IsResource r) :
    SameOutcome sc (condWait sc w tid r) (condWait sc w' tid r) := by
  have hcond := h.resource r hr
  have hthread := h.thread tid ht
  unfold Smash.condWait
  dsimp only
  rw [hcond.type, hcond.associatedMutex, hthread.ownedTopIs]
  split
  · exact .fail h _ _
  split
  · exact .fail h _ _
  · rename_i hrange
    have hm : sc.IsResource (w.resources r).associatedMutex := by
      unfold Scenario.IsResource
      omega
    have hreleased : SameWorld sc
        ((w.modThread tid (·.ownedPop)).modResource (w.resources r).associatedMutex fun m =>
          { m with owner := -1 })
        ((w'.modThread tid (·.ownedPop)).modResource (w.resources r).associatedMutex fun m =>
          { m with owner := -1 }) := by
      refine SameWorld.modResource (h.modThread tid fun _ _ ht => ht.ownedPop) _ fun hs => ?_
      exact hs.map (fun m => { m with owner := -1 }) (fun _ _ _ => rfl) fun _ => rfl
    rw [(h.resource _ hm).owner, (hreleased.resource r hr).queue]
    split
    · exact .fail h _ _
    split
    · exact .fail h _ _
    split
    · exact .fail hreleased _ _
    · exact .ok (hreleased.enqueue tid r .blockedMutex) _ _

theorem condSignal (h : SameWorld sc w w') (hc : Crew sc w) (hr : sc.IsResource r) :
    SameOutcome sc (condSignal w tid r) (condSignal w' tid r) := by
  have hcond := h.resource r hr
  unfold Smash.condSignal
  dsimp only
  rw [hcond.type, hcond.queue, h.bestWaiter hc hr]
  split
  · exact .fail h _ _
  split
  · rename_i hlive
    rw [hcond.waiter (bestWaiter_lt hlive)]
    exact .ok (SameWorld.modThread (h.waiterRemove r _) _ fun _ _ ht => ht.resume) _ _
  · exact .ok h _ _

/-- The queue is emptied from the front, one live cell after the other. -/
theorem wakeAll (h : SameWorld sc w w') (hr : sc.IsResource r) {n : Nat}
    (hn : n ≤ (w.resources r).waiters.count) :
    SameWorld sc (wakeAll r n w).1 (wakeAll r n w').1 ∧ (wakeAll r n w').2 = (wakeAll r n w).2 := by
  induction n generalizing w w' with
  | zero => exact ⟨h, rfl⟩
  | succ n ih =>
    rw [Smash.wakeAll, Smash.wakeAll]
    dsimp only
    rw [(h.resource r hr).waiter (by omega)]
    have hcount : n ≤ ((w.waiterRemove r 0).resources r).waiters.count := by
      simp only [World.waiterRemove, World.modResource_self, LiveArray.count_swapRemove]
      omega
    obtain ⟨hworld, hlog⟩ := ih (SameWorld.modThread (h.waiterRemove r 0) _ fun _ _ ht => ht.resume) hcount
    exact ⟨hworld, by rw [hlog]⟩

theorem condBroadcast (h : SameWorld sc w w') (hr : sc.IsResource r) :
    SameOutcome sc (condBroadcast w tid r) (condBroadcast w' tid r) := by
  have hcond := h.resource r hr
  unfold Smash.condBroadcast
  dsimp only
  rw [hcond.type, hcond.queue]
  split
  · exact .fail h _ _
  · obtain ⟨hworld, hlog⟩ := h.wakeAll hr le_rfl
    rw [hlog]
    exact .ok hworld _ _

/-! ### Mailboxes -/

/-- A thread that blocks is appended behind the live cells. -/
theorem mbBlock (h : SameWorld sc w w') (hr : sc.IsResource r) (msg : Int) :
    SameOutcome sc (mbBlock w tid r msg) (mbBlock w' tid r msg) := by
  unfold Smash.mbBlock
  rw [(h.resource r hr).queue]
  split
  · exact .fail h _ _
  · exact .ok (h.enqueue tid r .blockedSem) _ _

theorem mbPost (h : SameWorld sc w w') (hr : sc.IsResource r) (hmail : MailFits (w.resources r)) (msg : Int) :
    SameOutcome sc (mbPost w tid r msg) (mbPost w' tid r msg) := by
  have hmb := h.resource r hr
  unfold Smash.mbPost
  dsimp only
  rw [hmb.type, hmb.mbCapacity, hmb.mbCount]
  split
  · exact .fail h _ _
  split
  · exact h.mbBlock hr msg
  · rename_i hfull
    have hroom := Int.not_le.mp hfull
    exact .ok (h.modResource r fun hs => hs.post (hmail.wf (hmail.capacity_pos hroom)) hroom msg) _ _

theorem mbPostFront (h : SameWorld sc w w') (hr : sc.IsResource r) (hmail : MailFits (w.resources r))
    (hsum : (w.resources r).type = .mailbox → (w.resources r).mbCount < (w.resources r).mbCapacity →
      IsInt ((w.resources r).mbHead - 1 + (w.resources r).mbCapacity)) (msg : Int) :
    SameOutcome sc (mbPostFront w tid r msg) (mbPostFront w' tid r msg) := by
  have hmb := h.resource r hr
  unfold Smash.mbPostFront
  dsimp only
  rw [hmb.type, hmb.mbCapacity, hmb.mbCount]
  split
  · exact .fail h _ _
  split
  · exact h.mbBlock hr msg
  · rename_i htype hfull
    have hroom := Int.not_le.mp hfull
    have hwf := hmail.wf (hmail.capacity_pos hroom)
    exact .ok (h.modResource r fun hs => hs.postFront hwf hroom (hsum (not_not.mp htype) hroom) msg) _ _

theorem mbFetch (h : SameWorld sc w w') (hr : sc.IsResource r) (hmail : MailFits (w.resources r)) :
    SameOutcome sc (mbFetch w tid r).1 (mbFetch w' tid r).1 := by
  have hmb := h.resource r hr
  unfold Smash.mbFetch
  dsimp only
  rw [hmb.type, hmb.mbCount, hmb.queue]
  split
  · exact .fail h _ _
  split
  · exact h.mbBlock hr 0
  · rename_i hlive
    have hwf := hmail.wf (hmail.of_count hlive)
    have hfetched : SameWorld sc (w.modResource r (·.fetch)) (w'.modResource r (·.fetch)) :=
      h.modResource r fun hs => (hs.fetch hwf hlive).2
    rw [(hmb.fetch hwf hlive).1]
    split
    · rename_i hwaits
      rw [hmb.waiter hwaits]
      exact .ok (SameWorld.modThread (hfetched.waiterRemove r 0) _ fun _ _ ht => ht.resume) _ _
    · exact .ok hfetched _ _

end SameWorld

/-! ## A call -/

namespace SameOutcome

variable {o o' : Outcome}

/-- A write after the call. -/
theorem mapWorld (h : SameOutcome sc o o') {f : World → World}
    (hf : ∀ w w', SameWorld sc w w' → SameWorld sc (f w) (f w')) :
    SameOutcome sc (o.mapWorld f) (o'.mapWorld f) := ⟨hf _ _ h.world, h.log, h.fault, h.ret, h.counted⟩

theorem finish (h : SameOutcome sc o o') : SameOutcome sc o.finish o'.finish :=
  ⟨h.world, h.log, h.fault, rfl, rfl⟩

theorem afterLog (h : SameOutcome sc o o') (es : List LogEntry) :
    SameOutcome sc (o.afterLog es) (o'.afterLog es) :=
  ⟨h.world, congrArg (es ++ ·) h.log, h.fault, h.ret, h.counted⟩

theorem advanceIfTrue (h : SameOutcome sc o o') (tid : Int) :
    SameOutcome sc (o.advanceIfTrue tid) (o'.advanceIfTrue tid) := by
  unfold Outcome.advanceIfTrue
  rw [h.ret]
  split
  · exact h.mapWorld fun _ _ hw => hw.advance tid
  · exact h

theorem armTimeout (h : SameOutcome sc o o') {tid : Int} (ht : sc.IsThread tid) (state : ThreadState)
    (ticks : Int) : SameOutcome sc (o.armTimeout tid state ticks) (o'.armTimeout tid state ticks) := by
  unfold Outcome.armTimeout
  rw [h.ret, (h.world.thread tid ht).state]
  split
  · exact h.mapWorld fun _ _ hw => hw.modThread tid fun _ _ ht =>
      ht.map (fun t => { t with timeoutTicks := ticks }) fun _ _ => rfl
  · exact h

end SameOutcome

namespace SameWorld

variable {w w' : World} {tid : Int}

/-! ### The actions that `smash_execute_step` handles itself -/

theorem actDone (h : SameWorld sc w w') (ht : sc.IsThread tid) :
    SameOutcome sc (actDone w tid) (actDone w' tid) := by
  have hdone : SameWorld sc (w.modThread tid fun t => { t with state := .done })
      (w'.modThread tid fun t => { t with state := .done }) :=
    h.modThread tid fun _ _ ht => ht.map (fun t => { t with state := .done }) fun _ _ => rfl
  unfold Smash.actDone
  dsimp only
  rw [(h.thread tid ht).held]
  split
  · exact SameOutcome.finish (.fail hdone _ _)
  · exact SameOutcome.finish (.ok hdone _ _)

/-- The actions of the context write fields of their own thread. -/
theorem actSysLock (h : SameWorld sc w w') (ht : sc.IsThread tid) :
    SameOutcome sc (actSysLock w tid) (actSysLock w' tid) := by
  unfold Smash.actSysLock
  dsimp only
  rw [(h.thread tid ht).sysLockDepth]
  refine SameOutcome.finish (.ok (SameWorld.advance (h.modThread tid fun _ _ ht => ?_) tid) _ _)
  exact ht.map (fun t => { t with sysLockDepth := (w.threads tid).sysLockDepth + 1, execCtx := .sysLock })
    fun _ _ => rfl

theorem actSysUnlock (h : SameWorld sc w w') (ht : sc.IsThread tid) :
    SameOutcome sc (actSysUnlock w tid) (actSysUnlock w' tid) := by
  unfold Smash.actSysUnlock
  dsimp only
  rw [(h.thread tid ht).sysLockDepth]
  generalize (w.threads tid).sysLockDepth = depth
  split
  · exact .fail h _ _
  · refine SameOutcome.finish (.ok (SameWorld.advance (h.modThread tid fun _ _ ht => ?_) tid) _ _)
    exact ht.map (fun t => { t with
      sysLockDepth := depth - 1, execCtx := if 0 < depth - 1 then .sysLock else .thread }) fun _ _ => rfl

theorem actIsrEnter (h : SameWorld sc w w') (ht : sc.IsThread tid) :
    SameOutcome sc (actIsrEnter w tid) (actIsrEnter w' tid) := by
  unfold Smash.actIsrEnter
  dsimp only
  rw [(h.thread tid ht).isrDepth]
  generalize (w.threads tid).isrDepth = depth
  split
  · exact .fail h _ _
  · refine SameOutcome.finish (.ok (SameWorld.advance (h.modThread tid fun _ _ ht => ?_) tid) _ _)
    exact ht.map (fun t => { t with isrDepth := depth + 1, execCtx := .isr }) fun _ _ => rfl

theorem actIsrExit (h : SameWorld sc w w') (ht : sc.IsThread tid) :
    SameOutcome sc (actIsrExit w tid) (actIsrExit w' tid) := by
  unfold Smash.actIsrExit
  dsimp only
  rw [(h.thread tid ht).isrDepth]
  generalize (w.threads tid).isrDepth = depth
  split
  · exact .fail h _ _
  · refine SameOutcome.finish (.ok (SameWorld.advance (h.modThread tid fun _ _ ht => ?_) tid) _ _)
    exact ht.map (fun t => { t with
      isrDepth := depth - 1
      execCtx := if depth - 1 = 0 then (if 0 < t.sysLockDepth then .sysLock else .thread) else t.execCtx })
      fun _ _ => rfl

theorem actObjectInit (h : SameWorld sc w w') (r : Int) :
    SameOutcome sc (actObjectInit w tid r) (actObjectInit w' tid r) := by
  refine SameOutcome.finish (.ok (SameWorld.advance (h.modResource r fun hs => ?_) tid) _ _)
  exact hs.map (fun r => { r with alive := true }) (fun _ _ _ => rfl) fun _ => rfl

theorem actObjectDestroy (h : SameWorld sc w w') {r : Int} (hr : sc.IsResource r) :
    SameOutcome sc (actObjectDestroy w tid r) (actObjectDestroy w' tid r) := by
  unfold Smash.actObjectDestroy
  rw [(h.resource r hr).alive]
  split
  · exact .fail h _ _
  · refine SameOutcome.finish (.ok (SameWorld.advance (h.modResource r fun hs => ?_) tid) _ _)
    exact hs.map (fun r => { r with alive := false }) (fun _ _ _ => rfl) fun _ => rfl

theorem actCall (h : SameWorld sc w w') (ht : sc.IsThread tid) (arg : Int) :
    SameOutcome sc (actCall sc w tid arg) (actCall sc w' tid arg) := by
  unfold Smash.actCall
  dsimp only
  rw [(h.thread tid ht).stackDepth]
  generalize (w.threads tid).stackDepth + argOr arg 1 = depth
  have hcalled : SameWorld sc
      (w.modThread tid fun t => { t with
        stackDepth := depth, stackWatermark := if t.stackWatermark < depth then depth else t.stackWatermark })
      (w'.modThread tid fun t => { t with
        stackDepth := depth, stackWatermark := if t.stackWatermark < depth then depth else t.stackWatermark }) :=
    h.modThread tid fun _ _ ht => ht.map (fun t => { t with
      stackDepth := depth, stackWatermark := if t.stackWatermark < depth then depth else t.stackWatermark })
      fun _ _ => rfl
  split
  · exact .fail hcalled _ _
  · exact SameOutcome.finish (.ok (hcalled.advance tid) _ _)

theorem actReturn (h : SameWorld sc w w') (ht : sc.IsThread tid) (arg : Int) :
    SameOutcome sc (actReturn w tid arg) (actReturn w' tid arg) := by
  unfold Smash.actReturn
  dsimp only
  rw [(h.thread tid ht).stackDepth]
  generalize (if (w.threads tid).stackDepth - argOr arg 1 < 0 then 0
    else (w.threads tid).stackDepth - argOr arg 1) = depth
  refine SameOutcome.finish (.ok (SameWorld.advance (h.modThread tid fun _ _ ht => ?_) tid) _ _)
  exact ht.map (fun t => { t with stackDepth := depth }) fun _ _ => rfl

/-- **An action does the same in the same states.** -/
theorem dispatch (h : SameWorld sc w w') (hc : Crew sc w) (hf : Fits sc w) (ht : sc.IsThread tid) {a : Action}
    (ha : a.type.needsResource = true → sc.IsResource a.resourceId) (hsafe : a.Safe w) :
    SameOutcome sc (w.dispatch sc tid a) (w'.dispatch sc tid a) := by
  have hstep : ∀ v v', SameWorld sc v v' → SameWorld sc (v.advance tid) (v'.advance tid) :=
    fun _ _ hv => hv.advance tid
  obtain ⟨type, r, arg⟩ := a
  cases type with
  | mutexLock => exact ((h.mutexLock hc ht (ha rfl)).advanceIfTrue tid).finish
  | mutexTimedLock => exact (((h.mutexLock hc ht (ha rfl)).advanceIfTrue tid).armTimeout ht _ _).finish
  | mutexUnlock => exact ((h.mutexUnlock hc ht (ha rfl)).mapWorld hstep).finish
  | semWait => exact ((h.semWait ht (ha rfl)).advanceIfTrue tid).finish
  | semTimedWait => exact (((h.semWait ht (ha rfl)).advanceIfTrue tid).armTimeout ht _ _).finish
  | semSignal => exact ((h.semSignal hc (ha rfl)).mapWorld hstep).finish
  | condWait => exact ((h.condWait ht (ha rfl)).advanceIfTrue tid).finish
  | condSignal => exact ((h.condSignal hc (ha rfl)).mapWorld hstep).finish
  | condBroadcast => exact ((h.condBroadcast (ha rfl)).mapWorld hstep).finish
  | mbPost => exact ((h.mbPost (ha rfl) (hf.mail r (ha rfl)) arg).advanceIfTrue tid).finish
  | mbPostFront =>
    have hsum := fun htype hroom => (hsafe.2.2 rfl htype hroom).1
    exact ((h.mbPostFront (ha rfl) (hf.mail r (ha rfl)) hsum arg).advanceIfTrue tid).finish
  | mbFetch => exact ((h.mbFetch (ha rfl) (hf.mail r (ha rfl))).advanceIfTrue tid).finish
  | yield | nop => exact SameOutcome.finish (.ok (h.advance tid) _ _)
  | done => exact h.actDone ht
  | sysLock => exact h.actSysLock ht
  | sysUnlock => exact h.actSysUnlock ht
  | isrEnter => exact h.actIsrEnter ht
  | isrExit => exact h.actIsrExit ht
  | objectInit => exact h.actObjectInit r
  | objectDestroy => exact h.actObjectDestroy (ha rfl)
  | call => exact h.actCall ht arg
  | ret => exact h.actReturn ht arg
  | condWaitTimeout | mbPostTimeout | mbFetchTimeout => exact SameOutcome.finish (.ok h _ _)

/-! ### The clock and the call -/

/-- The clock. -/
theorem tick (h : SameWorld sc w w') :
    SameWorld sc (w.tick sc).1 (w'.tick sc).1 ∧ (w'.tick sc).2 = (w.tick sc).2 := by
  refine ⟨⟨fun t ht => ?_, fun r hr => ?_⟩, ?_⟩
  · rw [tick_threads, tick_threads, if_pos ht, if_pos ht]
    exact (h.thread t ht).tick
  · rw [tick_resources, tick_resources]
    exact h.resource r hr
  · rw [tick_log, tick_log]
    unfold World.expired
    rw [List.filter_congr fun i hi => (h.thread i (Scenario.mem_threadIds.mp hi)).expires]

/-- What follows the clock. -/
theorem runThread (h : SameWorld sc w w') (hc : Crew sc w) (hf : Fits sc w) (ht : sc.IsThread tid)
    (hsafe : (w.threads tid).state = .ready → ∀ a ∈ sc.actionAt tid (w.threads tid).pc, a.Safe w) :
    SameOutcome sc (w.runThread sc tid) (w'.runThread sc tid) := by
  have hthread := h.thread tid ht
  unfold World.runThread
  dsimp only
  rw [hthread.state, hthread.pc, hthread.priority]
  split
  · exact .ok h _ _
  rename_i hready
  cases hat : sc.actionAt tid (w.threads tid).pc with
  | none =>
    refine .ok (h.modThread tid fun _ _ ht => ?_) _ _
    exact ht.map (fun t => { t with state := .done }) fun _ _ => rfl
  | some a =>
    dsimp only
    split
    · exact .fail h _ _
    · rename_i hrange
      have hsafe := hsafe (not_not.mp hready) a hat
      refine (h.dispatch hc hf ht (fun hneeds => ?_) hsafe).afterLog _
      have hne := hsafe.1 hneeds
      unfold Scenario.IsResource
      omega

/-- **A call of `smash_execute_step` does the same in the same states.** -/
theorem executeStep (h : SameWorld sc w w') (hc : Crew sc w) (hf : Fits sc w) (ht : sc.IsThread tid)
    (hsafe : CallSafe sc w tid) :
    SameOutcome sc (w.executeStep sc tid) (w'.executeStep sc tid) := by
  obtain ⟨hworld, hlog⟩ := @tick sc w w' h
  unfold World.executeStep
  dsimp only
  rw [hlog]
  exact (hworld.runThread hc.tick hf.tick ht hsafe).afterLog _

end SameWorld

end Smash
