import Smash.Proof.CircularWait
import Smash.Proof.Dpor
import Smash.Proof.Prefix

/-!
# When the persistent set is persistent

`compute_persistent_set` compares the next actions of the READY threads, and the comment above it wants more
of the set: that whatever the threads left out do from here on is independent of it. Of the actions that they
stand at this is so, and of those that they come to later it need not be. `ReachesLater` says that one of them
can come to a later action on the resource in question; that is the only way in which a set fails
(`persistent_iff`).

What makes the difference between the two a matter of `pc`s alone is that no sleeper comes back to the action
that put it to sleep: whoever wakes it takes it past that action (`Paces`).
-/

set_option autoImplicit false

namespace Smash

variable {sc : Scenario}

/-! ## Dependent actions -/

theorem dependent_iff {a b : ActionType} {r s : Int} : dependent a r b s = true ↔
    r = s ∧ 0 ≤ r ∧ (a.idle = false ∨ b.idle = false) := by
  unfold dependent
  by_cases hrs : r = s ∧ 0 ≤ r
  · obtain ⟨rfl, hr⟩ := hrs
    rw [if_neg (by omega)]
    cases a.idle <;> cases b.idle <;> simp [hr]
  · rw [if_pos (by omega)]
    simp only [Bool.false_eq_true, false_iff]
    exact fun h => hrs ⟨h.1, h.2.1⟩

/-- What the threads left out of the set execute, from `w` on and by themselves, is independent of what the
threads of the set are about to do at `w`. -/
def Persistent (sc : Scenario) (w : World) (set : Finset Int) : Prop :=
  ∀ ts v, (callSystem sc).Run w ts v → (∀ u ∈ ts, u ∉ set) →
    ∀ t, t ∉ set → sc.Ready v t → ∀ p ∈ set,
      dependent (threadNextAction sc v t).type (threadNextAction sc v t).resourceId
        (threadNextAction sc w p).type (threadNextAction sc w p).resourceId = false

/-! ## Who is in the set -/

/-- A READY thread is about to do more to `r` than a NOP or a YIELD. -/
def Busy (sc : Scenario) (w : World) (r : Int) : Prop :=
  ∃ q, sc.Ready w q ∧ (threadNextAction sc w q).resourceId = r ∧
    (threadNextAction sc w q).type.idle = false

/-- The thread `first` is drawn in, and if `r` is busy so is every READY thread that stands at an action
on `r`. -/
def Drawn (sc : Scenario) (w : World) (r first t : Int) : Prop :=
  t = first ∨ Busy sc w r ∧ sc.Ready w t ∧ (threadNextAction sc w t).resourceId = r

section set

variable {w : World} {first : Int} {rest : List Int}
  (hrunnable : ∀ t, t ∈ first :: rest ↔ sc.Ready w t)
include hrunnable

/-- **The persistent set holds the READY threads on one resource.** -/
theorem mem_computePersistentSet_iff (hr : 0 ≤ (threadNextAction sc w first).resourceId) {t : Int} :
    t ∈ computePersistentSet sc w (first :: rest) ↔
      Drawn sc w (threadNextAction sc w first).resourceId first t := by
  have hfirst : sc.Ready w first := (hrunnable first).mp List.mem_cons_self
  rw [mem_computePersistentSet]
  constructor
  · intro hpulled
    induction hpulled with
    | refl => exact .inl rfl
    | @tail p q _ hpull ih =>
      obtain ⟨hq, hdep⟩ := hpull
      obtain ⟨hsame, _, hidle⟩ := dependent_iff.mp hdep
      have hp : sc.Ready w p ∧
          (threadNextAction sc w p).resourceId = (threadNextAction sc w first).resourceId := by
        rcases ih with rfl | ⟨_, hready, hon⟩
        · exact ⟨hfirst, rfl⟩
        · exact ⟨hready, hon⟩
      have hqr := (hrunnable q).mp hq
      refine .inr ⟨?_, hqr, hsame.symm.trans hp.2⟩
      rcases hidle with hidle | hidle
      · exact ⟨p, hp.1, hp.2, hidle⟩
      · exact ⟨q, hqr, hsame.symm.trans hp.2, hidle⟩
  · rintro (rfl | ⟨⟨q, hq, hqon, hqbusy⟩, ht, hton⟩)
    · exact .refl
    have hpull : ∀ {p u : Int}, sc.Ready w u →
        (threadNextAction sc w p).resourceId = (threadNextAction sc w first).resourceId →
        (threadNextAction sc w u).resourceId = (threadNextAction sc w first).resourceId →
        ((threadNextAction sc w p).type.idle = false ∨ (threadNextAction sc w u).type.idle = false) →
        Saturate.Pulls (nextDependent sc w) (first :: rest) p u := fun hu hp hon hidle =>
      ⟨(hrunnable _).mpr hu, dependent_iff.mpr ⟨hp.trans hon.symm, hp ▸ hr, hidle⟩⟩
    -- Over the busy thread, which everyone on the resource depends on.
    exact (Relation.ReflTransGen.single (hpull hq rfl hqon (.inr hqbusy))).tail
      (hpull ht hqon hton (.inl hqbusy))

theorem drawn_of_mem {p : Int} (hp : p ∈ computePersistentSet sc w (first :: rest))
    (hr : 0 ≤ (threadNextAction sc w p).resourceId) :
    0 ≤ (threadNextAction sc w first).resourceId ∧ sc.Ready w p ∧
      (threadNextAction sc w p).resourceId = (threadNextAction sc w first).resourceId := by
  have hfirst : sc.Ready w first := (hrunnable first).mp List.mem_cons_self
  induction mem_computePersistentSet.mp hp with
  | refl => exact ⟨hr, hfirst, rfl⟩
  | @tail q p hpulled hpull ih =>
    obtain ⟨hmem, hdep⟩ := hpull
    obtain ⟨hsame, hpos, _⟩ := dependent_iff.mp hdep
    obtain ⟨hr₁, _, hon⟩ := ih (mem_computePersistentSet.mpr hpulled) hpos
    exact ⟨hr₁, (hrunnable p).mp hmem, hsame.symm.trans hon⟩

end set

/-! ## Coming to a later action -/

/-- In a run a thread stays where it is, and does not wake there, or at some point it comes, READY, to where
it stands in the end. -/
theorem run_paces (hc : sc.Core) {w v : World} {ts : List Int} (hrun : (callSystem sc).Run w ts v)
    (hw : (callSystem sc).Reach w) (t : Int) :
    ((v.threads t).pc = (w.threads t).pc ∧
      ((v.threads t).state = .ready → (w.threads t).state = .ready)) ∨
    ((w.threads t).pc < (v.threads t).pc ∧ ∃ front v', front <+: ts ∧ (callSystem sc).Run w front v' ∧
      (v'.threads t).state = .ready ∧ (v'.threads t).pc = (v.threads t).pc) := by
  induction hrun with
  | nil => exact .inl ⟨rfl, id⟩
  | @cons w w₁ v u ts hst hrun ih =>
    have hlater : ∀ {front v'}, front <+: ts → (callSystem sc).Run w₁ front v' →
        u :: front <+: u :: ts ∧ (callSystem sc).Run w (u :: front) v' := fun hpre hfront =>
      ⟨List.cons_prefix_cons.mpr ⟨rfl, hpre⟩, .cons hst hfront⟩
    have hnext := ih (.step hw hst)
    obtain ⟨hu, hok, rfl⟩ := id hst
    cases executeStep_paces hc hw hu hok t with
    | stays hpc _ hasleep =>
      rcases hnext with ⟨hsame, hawake⟩ | ⟨hlt, front, v', hpre, hfront, hready, hcome⟩
      · exact .inl ⟨hsame.trans hpc, fun hready => (hasleep.mp (hawake hready)).1⟩
      · have hcons := hlater hpre hfront
        exact .inr ⟨hpc ▸ hlt, _, v', hcons.1, hcons.2, hready, hcome⟩
    | passes b _ hpc _ hawake =>
      rcases hnext with ⟨hsame, _⟩ | ⟨hlt, front, v', hpre, hfront, hready, hcome⟩
      · have hcons := hlater (List.nil_prefix) (.nil _)
        exact .inr ⟨by omega, _, _, hcons.1, hcons.2, hawake, hsame.symm⟩
      · have hcons := hlater hpre hfront
        exact .inr ⟨by omega, _, v', hcons.1, hcons.2, hready, hcome⟩

/-- The threads that are not drawn in can, by themselves, take one of them on to a later action on the
resource of `first`, and one that counts. -/
def ReachesLater (sc : Scenario) (w : World) (first : Int) : Prop :=
  let r := (threadNextAction sc w first).resourceId
  0 ≤ r ∧ ∃ ts v t, (callSystem sc).Run w ts v ∧ (∀ u ∈ ts, ¬ Drawn sc w r first u) ∧
    ¬ Drawn sc w r first t ∧ sc.IsThread t ∧ (w.threads t).pc < (v.threads t).pc ∧
    (threadNextAction sc v t).resourceId = r ∧
    (Busy sc w r ∨ (threadNextAction sc v t).type.idle = false)

section persistent

variable (hc : sc.Core) {w : World} (hw : (callSystem sc).Reach w) {first : Int} {rest : List Int}
  (hrun : collectRunnable sc w smashMaxThreads = first :: rest)
include hc hw hrun

/-- **The computed set is persistent if and only if the threads left out cannot come to a later action on its
resource.** -/
theorem persistent_iff : Persistent sc w (computePersistentSet sc w (collectRunnable sc w smashMaxThreads)) ↔
    ¬ ReachesLater sc w first := by
  have hrunnable : ∀ t, t ∈ first :: rest ↔ sc.Ready w t := fun t => by
    rw [← hrun]
    exact mem_collectRunnable hc.valid
  rw [hrun]
  constructor
  · rintro hpersistent ⟨hr, ts, v, t, hts, hout, ht, hthread, hlt, hon, hcount⟩
    have hset : ∀ {u}, u ∈ computePersistentSet sc w (first :: rest) ↔ _ := fun {u} =>
      mem_computePersistentSet_iff hrunnable hr
    rcases run_paces hc hts hw t with ⟨hsame, _⟩ | ⟨_, front, v', hpre, hfront, hready, hcome⟩
    · omega
    have hnext : threadNextAction sc v' t = threadNextAction sc v t := by
      unfold threadNextAction
      rw [hcome]
    -- Someone in the set is about to do what the later action is dependent on.
    obtain ⟨p, hp, hpon, hidle⟩ : ∃ p ∈ computePersistentSet sc w (first :: rest),
        (threadNextAction sc w p).resourceId = (threadNextAction sc w first).resourceId ∧
        ((threadNextAction sc v t).type.idle = false ∨ (threadNextAction sc w p).type.idle = false) := by
      rcases hcount with ⟨q, hq, hqon, hqbusy⟩ | hidle
      · exact ⟨q, hset.mpr (.inr ⟨⟨q, hq, hqon, hqbusy⟩, hq, hqon⟩), hqon, .inr hqbusy⟩
      · exact ⟨first, hset.mpr (.inl rfl), rfl, .inl hidle⟩
    have hindependent := hpersistent front v' hfront
      (fun u hu => mt hset.mp (hout u (hpre.mem hu))) t (mt hset.mp ht) ⟨hthread, hready⟩ p hp
    rw [hnext, dependent_iff.mpr ⟨hon.trans hpon.symm, by omega, hidle⟩] at hindependent
    exact absurd hindependent (by simp)
  · intro hlater ts v hts hout t ht hready p hp
    by_contra hdependent
    rw [Bool.not_eq_false] at hdependent
    obtain ⟨hsame, hpos, hidle⟩ := dependent_iff.mp hdependent
    obtain ⟨hr, hpready, hpon⟩ := drawn_of_mem hrunnable hp (hsame ▸ hpos)
    have hset : ∀ {u}, u ∈ computePersistentSet sc w (first :: rest) ↔ _ := fun {u} =>
      mem_computePersistentSet_iff hrunnable hr
    have hbusy : Busy sc w (threadNextAction sc w first).resourceId ∨
        (threadNextAction sc v t).type.idle = false :=
      hidle.symm.imp_left fun hpidle => ⟨p, hpready, hpon, hpidle⟩
    rcases run_paces hc hts hw t with ⟨hstays, hawake⟩ | ⟨hlt, _⟩
    · -- What it stood at all along it was compared with.
      have hnext : threadNextAction sc v t = threadNextAction sc w t := by
        unfold threadNextAction
        rw [hstays]
      have htready : sc.Ready w t := ⟨hready.1, hawake hready.2⟩
      rw [hnext] at hsame hbusy
      refine ht (hset.mpr (.inr ⟨?_, htready, hsame.trans hpon⟩))
      exact hbusy.elim id fun htidle => ⟨t, htready, hsame.trans hpon, htidle⟩
    · exact hlater ⟨hr, ts, v, t, hts, fun u hu => mt hset.mpr (hout u hu), mt hset.mpr ht, hready.1,
        hlt, hsame.trans hpon, hbusy⟩

end persistent

/-- At reset, where `T0` is the lowest READY thread. -/
theorem persistent_iff_abba :
    Persistent abbaDeadlock (startWorld abbaDeadlock)
        (computePersistentSet abbaDeadlock (startWorld abbaDeadlock)
          (collectRunnable abbaDeadlock (startWorld abbaDeadlock) smashMaxThreads)) ↔
      ¬ ReachesLater abbaDeadlock (startWorld abbaDeadlock) 0 := by
  have hrun : collectRunnable abbaDeadlock (startWorld abbaDeadlock) smashMaxThreads = 0 :: [1] := by
    decide +kernel
  exact persistent_iff abbaDeadlock_core (.init ⟨World.zero, rfl⟩) hrun

/-- The set is `T0`, which is about to lock the first mutex, and `T1` comes to lock it by itself. -/
theorem abbaDeadlock_not_persistent : ¬ ∀ sc : Scenario, sc.MutexOnly → ∀ w, (callSystem sc).Reach w →
    collectRunnable sc w smashMaxThreads ≠ [] →
      Persistent sc w (computePersistentSet sc w (collectRunnable sc w smashMaxThreads)) := by
  intro hall
  have hpersistent := hall abbaDeadlock abbaDeadlock_mutexOnly (startWorld abbaDeadlock)
    (.init ⟨World.zero, rfl⟩) (by decide +kernel)
  have hset : computePersistentSet abbaDeadlock (startWorld abbaDeadlock)
      (collectRunnable abbaDeadlock (startWorld abbaDeadlock) smashMaxThreads) = {0} := by decide +kernel
  rw [hset] at hpersistent
  have hindependent := hpersistent [1] _ (callSystem_run (by decide +kernel)) (by decide) 1 (by decide)
    (by decide +kernel) 0 (by decide)
  exact absurd hindependent (by decide +kernel)

end Smash
