import Mathlib.Algebra.GroupWithZero.Nat
import Smash.Proof.Cuts

/-!
# Every thread of every state is accounted for

A node that is expanded offers its READY threads. Each of them is tried, which makes one visit, or is
passed over, which adds one to `sleep_pruned` or `dpor_pruned`. So the numbers that `smash_explore`
returns have to agree: `threads_accounted`. Only an early stop or the limit may leave a thread out of
both, and a walk that ends without having met either never has (`Ledger.Extends.uncut`).

The induction carries one number, `balance`: what is on the books minus what was offered. A call adds
one to it, for the visit it makes, and a loop adds one for each thread of its list.
-/

set_option autoImplicit false

namespace Smash

variable {sc : Scenario} {cfg : Config}

/-- The READY threads that a visit offers to the search. -/
def Visit.offers (sc : Scenario) (v : Visit) : Nat :=
  if v.kind = .expanded then (collectRunnable sc v.world smashMaxThreads).length else 0

/-- The READY threads that these visits offer. -/
def offered (sc : Scenario) (vs : List Visit) : Nat := (vs.map (Visit.offers sc)).sum

/-- Visits and passed-over threads, less the threads offered. -/
def Ledger.balance (sc : Scenario) (l : Ledger) : Int :=
  l.visits.length + l.result.sleepPruned + l.result.dporPruned - offered sc l.visits

theorem offered_append (vs : List Visit) (v : Visit) :
    offered sc (vs ++ [v]) = offered sc vs + v.offers sc := by
  simp [offered, List.sum_append]

/-- One more visit, and nothing passed over. -/
theorem balance_visit {l l' : Ledger} (v : Visit) (hv : l'.visits = l.visits ++ [v])
    (hs : l'.result.sleepPruned = l.result.sleepPruned)
    (hd : l'.result.dporPruned = l.result.dporPruned) :
    l'.balance sc = l.balance sc + 1 - v.offers sc := by
  simp only [Ledger.balance, hv, hs, hd, offered_append, List.length_append, List.length_singleton]
  omega

theorem balance_countPruned (l : Ledger) (depth : Nat) (t : Int) :
    (l.countPruned cfg depth t).balance sc = l.balance sc + 1 := by
  unfold Ledger.countPruned
  split <;> simp only [Ledger.balance] <;> omega

theorem balance_sleep (l : Ledger) (depth : Nat) (t : Int) :
    (l.sleep cfg depth t).balance sc = l.balance sc := by
  unfold Ledger.sleep
  split <;> rfl

theorem balance_propagate (l : Ledger) (depth : Nat) (runnable : List Int) :
    (l.propagate cfg depth runnable).balance sc = l.balance sc := by
  unfold Ledger.propagate
  split <;> rfl

theorem balance_cacheMark (l : Ledger) (w : World) :
    (l.cacheMark sc cfg w).balance sc = l.balance sc := by
  unfold Ledger.cacheMark
  split <;> rfl

/-- Neither the early stop nor the limit has been met. -/
structure Ledger.Uncut (cfg : Config) (l : Ledger) : Prop where
  stopped : l.stopped cfg = false
  enough : l.enough cfg = false

/-- What has been met stays met. -/
theorem Ledger.Extends.uncut {l l' : Ledger} (h : l.Extends l') (h' : l'.Uncut cfg) : l.Uncut cfg := by
  constructor
  · have hstopped := h'.stopped
    unfold Ledger.stopped at hstopped ⊢
    cases hstop : cfg.stopOnFirstBug with
    | false => rw [Bool.and_false]
    | true =>
      rw [hstop, Bool.and_true] at hstopped
      rw [Bool.and_true]
      cases htr : l.result.failingTrace with
      | none => rfl
      | some tr =>
        rw [h.failingTrace tr htr] at hstopped
        exact hstopped
  · have henough := h'.enough
    have hle := h.interleavings
    unfold Ledger.enough at henough ⊢
    cases hmax : cfg.maxInterleavings with
    | none => rfl
    | some m =>
      rw [hmax] at henough
      simp only [decide_eq_false_iff_not] at henough ⊢
      omega

/-- `l'` has `k` more on the books than `l`, or less if the search was cut short. -/
structure Adds (sc : Scenario) (cfg : Config) (k : Nat) (l l' : Ledger) : Prop where
  grows : l.Extends l'
  le : l'.balance sc ≤ l.balance sc + k
  eq : l'.Uncut cfg → l'.balance sc = l.balance sc + k

theorem Adds.of_eq {k : Nat} {l l' : Ledger} (hgrows : l.Extends l') (h : l'.balance sc = l.balance sc + k) :
    Adds sc cfg k l l' :=
  ⟨hgrows, h.le, fun _ => h⟩

theorem Adds.trans {k k' : Nat} {l l' l'' : Ledger} (h : Adds sc cfg k l l')
    (h' : Adds sc cfg k' l' l'') : Adds sc cfg (k + k') l l'' := by
  refine ⟨h.grows.trans h'.grows, ?_, fun hu => ?_⟩
  · have := h.le
    have := h'.le
    omega
  · have := h.eq (h'.grows.uncut hu)
    have := h'.eq hu
    omega

/-- Part of the list is left out: then the search was cut short. -/
theorem Adds.cut {k : Nat} (k' : Nat) {l l' : Ledger} (h : Adds sc cfg k l l') (hcut : ¬ l'.Uncut cfg) :
    Adds sc cfg (k + k') l l' := by
  refine ⟨h.grows, ?_, fun hu => (hcut hu).elim⟩
  have := h.le
  omega

/-- A visit that offers nothing. -/
theorem adds_visit {l l' : Ledger} (hgrows : l.Extends l') (v : Visit) (hv : l'.visits = l.visits ++ [v])
    (hs : l'.result.sleepPruned = l.result.sleepPruned)
    (hd : l'.result.dporPruned = l.result.dporPruned) (hk : v.kind ≠ .expanded) : Adds sc cfg 1 l l' :=
  .of_eq hgrows (by rw [balance_visit v hv hs hd]; simp [Visit.offers, hk])

/-- A call that returns at once. -/
theorem adds_nothing {l : Ledger} (h : (l.stopped cfg || l.enough cfg) = true) : Adds sc cfg 1 l l := by
  refine (Adds.of_eq (k := 0) (.refl l) (by simp)).cut 1 fun hu => ?_
  rw [hu.stopped, hu.enough] at h
  exact absurd h (by simp)

theorem walkLoop_adds {recurse : Saved → Ledger → Ledger} {depth : Nat} {n : Saved}
    (hrec : ∀ m l, Adds sc cfg 1 l (recurse m l)) (tried : Finset Int) (rest : List Int) (l : Ledger) :
    Adds sc cfg rest.length l (walkLoop sc cfg recurse depth n tried rest l) := by
  induction rest generalizing l with
  | nil => exact .of_eq (.refl l) (by simp [walkLoop])
  | cons t rest ih =>
    rw [walkLoop, List.length_cons, Nat.add_comm]
    split
    · exact (Adds.of_eq (.countPruned l depth t) (balance_countPruned l depth t)).trans (ih _)
    have hslept : Adds sc cfg 0 l (l.sleep cfg depth t) :=
      .of_eq (.sleep l depth t) (by rw [balance_sleep]; simp)
    by_cases hfail : stepFails sc n.world t = true
    · have hvisit : Adds sc cfg 1 (l.sleep cfg depth t)
          ((l.sleep cfg depth t).reportViolation (n.step sc t)) :=
        adds_visit (.reportViolation _ _) ⟨.violation, (n.step sc t).schedule, (n.step sc t).world⟩ rfl rfl rfl
          (by simp)
      have hreported : Adds sc cfg 1 l ((l.sleep cfg depth t).reportViolation (n.step sc t)) := by
        simpa using hslept.trans hvisit
      simp only [if_pos hfail]
      split
      · rename_i hstop
        refine hreported.cut _ fun hu => ?_
        have hkept := hu.stopped
        simp [Ledger.stopped, Ledger.reportViolation, Ledger.keepTrace, hstop] at hkept
      · exact hreported.trans (ih _)
    · have hpassed : ∀ l' : Ledger, Adds sc cfg 0 l' (l'.propagate cfg depth
          (collectRunnable sc n.world smashMaxThreads)) :=
        fun l' => .of_eq (.propagate l' _ _) (by rw [balance_propagate]; simp)
      have hback : Adds sc cfg 1 l ((recurse (n.step sc t) (l.sleep cfg depth t)).propagate cfg depth
          (collectRunnable sc n.world smashMaxThreads)) := by
        simpa using (hslept.trans (hrec _ _)).trans (hpassed _)
      simp only [if_neg hfail]
      split
      · rename_i hstop
        exact hback.cut _ fun hu => absurd hstop (by rw [hu.stopped]; simp)
      · exact hback.trans (ih _)

/-- A call adds its own visit, and what is offered below it is all booked. -/
theorem walk_adds (room depth : Nat) (n : Saved) (l : Ledger) :
    Adds sc cfg 1 l (walk sc cfg room depth n l) := by
  induction room generalizing depth n l with
  | zero =>
    rw [walk]
    split
    · exact adds_nothing ‹_›
    · exact adds_visit (.visit _ _ _) ⟨.hardGuard, n.schedule, n.world⟩ rfl rfl rfl (by simp)
  | succ room ih =>
    rw [walk]
    split
    · exact adds_nothing ‹_›
    split
    · exact adds_visit (.reportDepth _ _ _) ⟨.depthLimit, n.schedule, n.world⟩ rfl rfl rfl (by simp)
    unfold walkNode
    split
    · exact adds_visit (.countInterleaving _ _) ⟨.interleaving, n.schedule, n.world⟩ rfl rfl rfl (by simp)
    split
    · exact adds_visit (.reportDeadlock _ _) ⟨.deadlock, n.schedule, n.world⟩ rfl rfl rfl (by simp)
    split
    · exact adds_visit (.countCached _ _) ⟨.cached, n.schedule, n.world⟩ rfl rfl rfl (by simp)
    · have hexpanded : ((l.cacheMark sc cfg n.world).countState n).balance sc
          = l.balance sc + 1 - (collectRunnable sc n.world smashMaxThreads).length := by
        rw [← @balance_cacheMark sc cfg l n.world]
        exact balance_visit ⟨.expanded, n.schedule, n.world⟩ rfl rfl rfl
      have hloop : Adds sc cfg _ ((l.cacheMark sc cfg n.world).countState n)
          (walkLoop sc cfg (walk sc cfg room (depth + 1)) depth n
            (((l.cacheMark sc cfg n.world).countState n).tried sc cfg depth n.world)
            (collectRunnable sc n.world smashMaxThreads) ((l.cacheMark sc cfg n.world).countState n)) :=
        walkLoop_adds (fun m l' => ih (depth + 1) m l') _ _ _
      refine ⟨((Ledger.Extends.cacheMark l _).trans (.countState _ n)).trans hloop.grows, ?_, fun hu => ?_⟩
      · have := hloop.le
        rw [hexpanded] at this
        dsimp only
        omega
      · have := hloop.eq hu
        rw [hexpanded] at this
        dsimp only
        omega

/-- The sum of the counters of a result. -/
def Result.total (r : Result) : Nat :=
  r.interleavings + r.deadlocks + r.violations + r.states + r.cachePruned + r.sleepPruned + r.dporPruned

/-- A visit at which a depth guard returned. -/
def Visit.isCut (v : Visit) : Bool := v.kind = .hardGuard || v.kind = .depthLimit

/-- Every visit is of one kind. -/
theorem length_eq_seen (l : Ledger) : l.visits.length = l.seen .interleaving + l.seen .deadlock
    + l.seen .violation + l.seen .expanded + l.seen .cached + l.visits.countP Visit.isCut := by
  simp only [Ledger.seen]
  induction l.visits with
  | nil => rfl
  | cons v vs ih =>
    obtain ⟨kind, schedule, world⟩ := v
    simp only [List.countP_cons, List.length_cons, ih]
    cases kind <;> simp [Visit.isCut] <;> omega

theorem exploreLedger_accounted (hv : sc.Valid) (cfg : Config) :
    (exploreLedger sc cfg).result.total + (exploreLedger sc cfg).visits.countP Visit.isCut
        ≤ 1 + offered sc (exploreLedger sc cfg).visits ∧
      ((exploreLedger sc cfg).Uncut cfg.clamp →
        (exploreLedger sc cfg).result.total + (exploreLedger sc cfg).visits.countP Visit.isCut
          = 1 + offered sc (exploreLedger sc cfg).visits) := by
  have hadds : Adds sc cfg.clamp 1 .init (exploreLedger sc cfg) := walk_adds _ _ _ _
  have hzero : Ledger.init.balance sc = 0 := rfl
  have hb := exploreLedger_booked hv cfg
  have hlength := length_eq_seen (exploreLedger sc cfg)
  rw [← hb.interleavings, ← hb.deadlocks, ← hb.violations, ← hb.states, ← hb.cachePruned] at hlength
  have hle := hadds.le
  have heq := hadds.eq
  rw [hzero] at hle heq
  simp only [Ledger.balance] at hle heq
  rw [Result.total]
  refine ⟨by omega, fun hu => ?_⟩
  have := heq hu
  omega

/-- **Every READY thread of every expanded state is accounted for.** The initial state is offered, and then
each READY thread of each state that is expanded: the counters, and the nodes cut by a depth guard, never add
up to more than that, and they add up to that unless a bug was found with `stop_on_first_bug` set or the limit
on interleavings was reached. -/
theorem threads_accounted (hv : sc.Valid) (cfg : Config) (stack : Nat → Saved) :
    (explore sc cfg stack).total + (exploreSearch sc cfg stack).visits.countP Visit.isCut
        ≤ 1 + offered sc (exploreSearch sc cfg stack).visits ∧
      ((cfg.stopOnFirstBug = true → (explore sc cfg stack).failingTrace = none) →
        (∀ m, cfg.maxInterleavings = some m → m = 0 ∨ (explore sc cfg stack).interleavings < m) →
        (explore sc cfg stack).total + (exploreSearch sc cfg stack).visits.countP Visit.isCut
          = 1 + offered sc (exploreSearch sc cfg stack).visits) := by
  have htotal : (explore sc cfg stack).total = (exploreLedger sc cfg).result.total := by
    rw [explore_eq hv]
    rfl
  have htrace : (explore sc cfg stack).failingTrace = (exploreLedger sc cfg).result.failingTrace := by
    rw [explore_eq hv]
  have hcount : (explore sc cfg stack).interleavings = (exploreLedger sc cfg).result.interleavings := by
    rw [explore_eq hv]
  rw [exploreSearch_visits hv, htotal, htrace, hcount]
  refine ⟨(exploreLedger_accounted hv cfg).1, fun hstop hlim => (exploreLedger_accounted hv cfg).2 ⟨?_, ?_⟩⟩
  · have hclamp : cfg.clamp.stopOnFirstBug = cfg.stopOnFirstBug := rfl
    rw [Ledger.stopped, hclamp]
    cases hon : cfg.stopOnFirstBug with
    | false => rw [Bool.and_false]
    | true => rw [hstop hon, Option.isSome_none, Bool.false_and]
  · unfold Ledger.enough Config.clamp
    dsimp only
    split_ifs with hzero
    · rfl
    · cases hmax : cfg.maxInterleavings with
      | none => rfl
      | some m =>
        have hpos : m ≠ 0 := fun h0 => hzero (by rw [hmax, h0])
        exact decide_eq_false (Nat.not_le.mpr ((hlim m hmax).resolve_left hpos))

/-- One thread that signals and one that waits, with the options as they are by default and a limit of nine
interleavings: no bug is found and the limit is not reached. -/
theorem threads_accounted_signalWait :
    (explore signalWait ⟨true, true, 64, some 9, true⟩ fun _ => rootNode signalWait).total
        + (exploreSearch signalWait ⟨true, true, 64, some 9, true⟩
            fun _ => rootNode signalWait).visits.countP Visit.isCut
      = 1 + offered signalWait (exploreSearch signalWait ⟨true, true, 64, some 9, true⟩
          fun _ => rootNode signalWait).visits := by
  have hv : signalWait.Valid := by decide
  refine (threads_accounted hv _ _).2 (fun _ => ?_) fun m hm => .inr ?_
  · rw [explore_eq hv]
    exact Option.isNone_iff_eq_none.mp (by decide +kernel)
  · obtain rfl : 9 = m := Option.some.inj hm
    rw [explore_eq hv]
    decide +kernel

end Smash
