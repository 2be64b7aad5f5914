import Smash.Proof.Awake
import Smash.Proof.Persistent

/-!
# What sleep sets skip

A thread that sleeps should be one that has had its turn in this very state. The sleep sets are kept by depth
and not by state, so a selected thread that is asleep where an earlier schedule of the same length put it to sleep
is left out whatever the state. `SelectsAwake` says that there is none, and then, and only then, nobody is left out
(`leavesOut_iff`).

The search has to come to a second node at a depth for that to happen. `course` follows it down to the first such
node, and no further. If it `forks`, and the fork wakes no thread below the lowest READY one, the first thing that
happens at the second node is that a thread is left out which was never executed there: in those core scenarios
the condition is exact for the claim of the comment too (`sleep_repeats`).
-/

set_option autoImplicit false

namespace Smash

variable {sc : Scenario} {cfg : Config}

/-! ## The course of a search -/

/-- How a search goes down to its first leaf and back. -/
inductive Course where
  /-- It comes back up without a second node at any depth. -/
  | ended
  /-- A limit is met: a bug with `stop_on_first_bug`, or enough interleavings. -/
  | cut
  /-- It comes to a second node at a depth. The lowest READY thread there is that of its parent, or not. -/
  | forks (lowestStays : Bool)
  deriving DecidableEq

/-- The threads of a node in turn; `gone` if one of them was gone down with. -/
def courseLoop (sc : Scenario) (cfg : Config) (down : World → Course) (deep : Bool) (w : World)
    (tried : Finset Int) : Bool → List Int → Course
  | _, [] => .ended
  | gone, tid :: rest =>
    let below := (w.executeStep sc tid).world
    if tid ∉ tried then courseLoop sc cfg down deep w tried gone rest
    else if stepFails sc w tid then
      if cfg.stopOnFirstBug then .cut else courseLoop sc cfg down deep w tried gone rest
    else if gone then
      if deep then
        .forks ((collectRunnable sc below smashMaxThreads).head?
          = (collectRunnable sc w smashMaxThreads).head?)
      else courseLoop sc cfg down deep w tried gone rest
    else
      match down below with
      | .ended => courseLoop sc cfg down deep w tried true rest
      | course => course

/-- The course from a state at `depth` on, with nothing asleep at this depth or below. -/
def courseFrom (sc : Scenario) (cfg : Config) : Nat → Nat → World → Course
  | 0, _, _ => .ended
  | room + 1, depth, w =>
    let runnable := collectRunnable sc w smashMaxThreads
    if cfg.maxDepth ≤ depth then .ended
    else if allDone sc w then if cfg.maxInterleavings = some 1 then .cut else .ended
    else if runnable = [] then if cfg.stopOnFirstBug then .cut else .ended
    else
      courseLoop sc cfg (courseFrom sc cfg room (depth + 1)) (decide ((depth : Int) + 1 < cfg.maxDepth)) w
        (computePersistentSet sc w runnable) false runnable

/-- The course of a whole exploration. -/
def course (sc : Scenario) (cfg : Config) : Course :=
  courseFrom sc cfg.clamp smashMaxDepth 0 (startWorld sc)

/-! ## No state comes twice -/

theorem clean_calls {w v : World} {ts : List Int} (h : (cleanSystem sc).Run w ts v) :
    (callSystem sc).Run w ts v := by
  induction h with
  | nil => exact .nil _
  | cons hst _ ih => exact .cons ⟨hst.1.1, fault_eq_none_of_not_fails hst.2.1, hst.2.2⟩ ih

section fresh

variable (hc : sc.Core) {w : World} (hw : (callSystem sc).Reach w)
include hc hw

/-- After its step a thread is never again READY where it was. -/
theorem not_back {t : Int} (ht : sc.Ready w t) (hok : (w.executeStep sc t).fault = none) {ts : List Int}
    {v : World} (hrun : (callSystem sc).Run (w.executeStep sc t).world ts v) :
    ¬ ((v.threads t).pc = (w.threads t).pc ∧ (v.threads t).state = .ready) := by
  rintro ⟨hpc, hready⟩
  have hnext : (callSystem sc).Reach (w.executeStep sc t).world := .step hw ⟨ht.1, hok, rfl⟩
  have hlater := run_paces hc hrun hnext t
  cases executeStep_paces hc hw ht.1 hok t with
  | stays hsame _ hasleep =>
    rcases hlater with ⟨_, hawake⟩ | ⟨hlt, _⟩
    · exact (hasleep.mp (hawake hready)).2 rfl
    · omega
  | passes b _ hmoved _ _ _ =>
    rcases hlater with ⟨hstays, _⟩ | ⟨hlt, _⟩
    · omega
    · omega

/-- A search never comes back to a state. -/
theorem ne_of_clean {t : Int} {ts : List Int} {v : World} (hrun : (cleanSystem sc).Run w (t :: ts) v) :
    w ≠ v := by
  rintro rfl
  cases hrun with
  | cons hst hrest =>
    obtain ⟨hready, hok, rfl⟩ := hst
    exact not_back hc hw hready (fault_eq_none_of_not_fails hok) (clean_calls hrest) ⟨rfl, hready.2⟩

/-- A READY thread is left READY where it is by the step of another. -/
theorem ready_of_other {p q : Int} (hp : sc.Ready w p) (hok : (w.executeStep sc p).fault = none)
    (hq : sc.Ready w q) (hne : q ≠ p) :
    ((w.executeStep sc p).world.threads q).pc = (w.threads q).pc ∧
      ((w.executeStep sc p).world.threads q).state = .ready := by
  cases executeStep_paces hc hw hp.1 hok q with
  | stays hsame _ hawake => exact ⟨hsame, hawake.mpr ⟨hq.2, hne⟩⟩
  | passes b _ _ _ _ hself => exact absurd (hself hq.2) hne

end fresh

/-! ## The second node -/

/-- Of the choices made so far, all were executions in states on the way to `w`. -/
def Earlier (sc : Scenario) (w : World) (xs : List Choice) : Prop :=
  ∀ x ∈ xs, ∃ v t u ts, x = .executed v t ∧ (callSystem sc).Reach v ∧ (cleanSystem sc).Run v (u :: ts) w

/-- A thread is left out where it was never executed. -/
def SkipsAnew (xs : List Choice) : Prop :=
  ∃ front w t back, xs = front ++ .leftOut w t :: back ∧ .executed w t ∉ front

theorem SkipsAnew.grows {xs ys : List Choice} (h : SkipsAnew xs) (hle : xs <+: ys) : SkipsAnew ys := by
  obtain ⟨front, w, t, back, rfl, hnew⟩ := h
  obtain ⟨more, rfl⟩ := hle
  exact ⟨front, w, t, back ++ more, by simp, hnew⟩

/-- In states of `w` itself or behind the step of `q`. -/
def HereOrBehind (sc : Scenario) (w : World) (q : Int) (v : World) : Prop :=
  v = w ∨ ∃ ts, (cleanSystem sc).Run (w.executeStep sc q).world ts v

theorem hereOrBehind_run {w : World} {q : Int} (hq : sc.Ready w q) (hok : stepFails sc w q = false) (v : World)
    (hv : HereOrBehind sc w q v) : ∃ ts, (cleanSystem sc).Run w ts v := by
  rcases hv with rfl | ⟨ts, hts⟩
  · exact ⟨[], .nil _⟩
  · exact ⟨q :: ts, .cons ⟨hq, hok, rfl⟩ hts⟩

/-- Where the step of another thread than `q` leads, nothing was executed so far. -/
theorem not_executed (hc : sc.Core) {w : World} (hw : (callSystem sc).Reach w) {p q f : Int}
    (hp : sc.Ready w p) (hpok : stepFails sc w p = false) (hq : sc.Ready w q)
    (hqok : stepFails sc w q = false) (hne : q ≠ p) {depth : Nat} {c₀ c : Chronicle}
    (hearlier : Earlier sc w c₀.choices) (hsince : Since depth (HereOrBehind sc w q) c₀ c) :
    .executed (w.executeStep sc p).world f ∉ c.choices := by
  have hstep : (cleanSystem sc).step w p (w.executeStep sc p).world := ⟨hp, hpok, rfl⟩
  obtain ⟨new, hnew, hexec⟩ := hsince.choices
  intro hmem
  rw [hnew, List.mem_append] at hmem
  rcases hmem with hmem | hmem
  · obtain ⟨v, t, u, ts, heq, hv, hrun⟩ := hearlier _ hmem
    obtain ⟨rfl, _⟩ := Choice.executed.inj heq
    exact ne_of_clean hc hv (hrun.snoc hstep) rfl
  · obtain ⟨v, t, heq, hv⟩ := hexec _ hmem
    obtain ⟨rfl, _⟩ := Choice.executed.inj heq
    rcases hv with hself | ⟨ts, hrun⟩
    · exact ne_of_clean hc hw (.single hstep) hself.symm
    · exact not_back hc hw hq (fault_eq_none_of_not_fails hqok) (clean_calls hrun)
        (ready_of_other hc hw hp (fault_eq_none_of_not_fails hpok) hq hne)

/-! ## The loop of a node -/

/-- What a search leaves behind that takes this course. -/
def Ends (sc : Scenario) (cfg : Config) (depth : Nat) (w : World) (c c' : Chronicle) : Course → Prop
  | .ended => Since depth (fun v => ∃ ts, (cleanSystem sc).Run w ts v) c c' ∧ c'.ledger.limited cfg = false
  | .cut => Since depth (fun v => ∃ ts, (cleanSystem sc).Run w ts v) c c' ∧ c'.ledger.limited cfg = true
  | .forks lowestStays =>
    lowestStays = true → sc.Core → (callSystem sc).Reach w → Earlier sc w c.choices → SkipsAnew c'.choices

section search

variable (hdpor : cfg.enableDpor = true) {depth : Nat}
include hdpor

omit hdpor in
/-- At the depth limit nothing is expanded. -/
theorem chronicle_shallow {c : Chronicle} (hlimit : c.ledger.limited cfg = false) (room : Nat) (n : Saved)
    (hd : cfg.maxDepth ≤ depth) {P : World → Prop} :
    Since depth P c (chronicle sc cfg room depth n c) ∧
      (chronicle sc cfg room depth n c).ledger.limited cfg = false ∧
      (chronicle sc cfg room depth n c).ledger.dpor = c.ledger.dpor := by
  have hgo : (c.ledger.stopped cfg || c.ledger.enough cfg) = false := hlimit
  cases room with
  | zero =>
    rw [chronicle, hgo, if_neg Bool.false_ne_true]
    exact ⟨Since.on fun _ _ => rfl, hlimit, rfl⟩
  | succ room =>
    rw [chronicle, hgo, if_neg Bool.false_ne_true, if_pos hd]
    exact ⟨Since.on fun _ _ => rfl, hlimit, rfl⟩

/-- The first thing that happens at a node is that the threads that sleep are left out. -/
theorem chronicle_leaves_out (hv : sc.Valid) (hcache : cfg.enableStateCaching = false) {c : Chronicle}
    (hlimit : c.ledger.limited cfg = false) (room : Nat) {n : Saved} (hdeep : ¬ cfg.maxDepth ≤ depth)
    (hd : depth < smashMaxDepth) {f : Int} {others : List Int}
    (hrun : collectRunnable sc n.world smashMaxThreads = f :: others)
    (hasleep : f ∈ c.ledger.dpor.sleepSet depth) :
    c.choices ++ [.leftOut n.world f] <+: (chronicle sc cfg (room + 1) depth n c).choices := by
  have hgo : (c.ledger.stopped cfg || c.ledger.enough cfg) = false := hlimit
  have hsome : collectRunnable sc n.world smashMaxThreads ≠ [] := by simp [hrun]
  have hdone : ¬ allDone sc n.world = true := fun h =>
    hsome ((collectRunnable_eq_nil hv).mpr (stuck_of_allDone h))
  have hhit : c.ledger.cacheHit sc cfg n.world = false := by simp [Ledger.cacheHit, hcache]
  rw [chronicle, hgo, if_neg Bool.false_ne_true, if_neg hdeep, chronicleNode, if_neg hdone, if_neg hsome,
    hhit, if_neg Bool.false_ne_true]
  refine List.IsPrefix.trans ?_ (chronicleLoop_grows (chronicle_grows room (depth + 1)) ..)
  have hmark : c.ledger.cacheMark sc cfg n.world = c.ledger := by simp [Ledger.cacheMark, hcache]
  have hfirst : ∃ more, (c.ledger.countState n).asleep sc cfg depth n.world = f :: more := by
    have hmem : f ∈ computePersistentSet sc n.world (f :: others) := mem_computePersistentSet.mpr .refl
    have hcontains : (c.ledger.countState n).dpor.sleepContains depth f = true := by
      show c.ledger.dpor.sleepContains depth f = true
      rw [Dpor.sleepContains, if_neg (by omega)]
      exact decide_eq_true hasleep
    simp only [Ledger.asleep, if_pos hdpor, hrun]
    rw [List.filter_cons_of_pos (by simp [hmem, hcontains])]
    exact ⟨_, rfl⟩
  obtain ⟨more, hmore⟩ := hfirst
  rw [Chronicle.record_choices, Chronicle.on_choices, Chronicle.on_ledger, hmark, hmore, List.map_cons]
  exact ⟨more.map (.leftOut n.world), by simp⟩

/-- What is known in the loop of a node once one of its threads, `q`, was gone down with: the lowest READY
thread sleeps, and at the depth below too. -/
structure Gone (sc : Scenario) (cfg : Config) (depth : Nat) (w : World) (q f : Int) (c₀ c : Chronicle) :
    Prop where
  since : Since depth (HereOrBehind sc w q) c₀ c
  limit : c.ledger.limited cfg = false
  asleep : f ∈ c.ledger.dpor.sleepSet depth
  below : (depth : Int) + 1 < cfg.maxDepth → f ∈ c.ledger.dpor.sleepSet (depth + 1)

omit hdpor in
theorem Gone.on {w : World} {q f : Int} {c₀ c : Chronicle} {g : Ledger → Ledger}
    (h : Gone sc cfg depth w q f c₀ c) (hlimit : (g c.ledger).limited cfg = false)
    (hsame : ∀ k ≤ depth, (g c.ledger).dpor.sleepSet k = c.ledger.dpor.sleepSet k)
    (hbelow : c.ledger.dpor.sleepSet (depth + 1) ⊆ (g c.ledger).dpor.sleepSet (depth + 1)) :
    Gone sc cfg depth w q f c₀ (c.on g) where
  since := h.since.trans (.on fun k hk => hsame k (by omega))
  limit := hlimit
  asleep := by
    rw [Chronicle.on_ledger, hsame depth le_rfl]
    exact h.asleep
  below hd := hbelow (h.below hd)

theorem chronicleLoop_gone (hv : sc.Valid) (hcache : cfg.enableStateCaching = false)
    (hmax : cfg.maxDepth ≤ smashMaxDepth) {room : Nat} {n : Saved} (hn : AtRun sc (room + 1) depth n)
    {down : World → Course} {q f : Int} (hq : sc.Ready n.world q) (hqok : stepFails sc n.world q = false)
    {others : List Int} (hrun : collectRunnable sc n.world smashMaxThreads = f :: others)
    (tried : Finset Int) (rest : List Int) (hrest : ∀ t ∈ rest, sc.Ready n.world t ∧ q ≠ t)
    {c₀ : Chronicle} (c : Chronicle) (h : Gone sc cfg depth n.world q f c₀ c) :
    Ends sc cfg depth n.world c₀
      (chronicleLoop sc cfg (chronicle sc cfg room (depth + 1)) depth n tried rest c)
      (courseLoop sc cfg down (decide ((depth : Int) + 1 < cfg.maxDepth)) n.world tried true rest) := by
  have hd : depth < smashMaxDepth := by have := hn.room; omega
  have hpath := hereOrBehind_run hq hqok
  induction rest generalizing c with
  | nil => exact ⟨h.since.mono le_rfl hpath, h.limit⟩
  | cons t rest ih =>
    have hready := hrest t List.mem_cons_self
    have ih := ih fun u hu => hrest u (List.mem_cons_of_mem _ hu)
    rw [chronicleLoop, courseLoop]
    by_cases htried : t ∉ tried
    · rw [if_pos htried, if_pos htried]
      refine ih _ (h.on ((limited_countPruned ..).trans h.limit) (fun k _ => ?_) ?_)
      · rw [dpor_countPruned]
      · rw [dpor_countPruned]
    rw [if_neg htried, if_neg htried]
    dsimp only
    -- The thread is put to sleep and executed.
    obtain ⟨hsince, hlimit, _, hset⟩ := slept_spec hdpor hd c n.world t
      (P := HereOrBehind sc n.world q) (.inl rfl)
    have hslept : Gone sc cfg depth n.world q f c₀
        ((c.on (·.sleep cfg depth t)).record [.executed n.world t]) := by
      refine ⟨h.since.trans hsince, hlimit.trans h.limit, ?_, fun hdeep => ?_⟩
      · rw [hset, Function.update_self]
        exact Finset.mem_insert_of_mem h.asleep
      · rw [hset, Function.update_of_ne (by omega)]
        exact h.below hdeep
    generalize (c.on (·.sleep cfg depth t)).record [.executed n.world t] = slept at hslept ⊢
    by_cases hfail : stepFails sc n.world t = true
    · rw [if_pos hfail, if_pos hfail]
      by_cases hstop : cfg.stopOnFirstBug = true
      · rw [if_pos hstop, if_pos hstop]
        refine ⟨(hslept.since.trans (.on fun _ _ => rfl)).mono le_rfl hpath, ?_⟩
        rw [Chronicle.on_ledger, limited_reportViolation, hstop, Bool.true_or]
      · rw [if_neg hstop, if_neg hstop]
        refine ih _ (hslept.on ?_ (fun _ _ => rfl) (Finset.Subset.refl _))
        rw [limited_reportViolation, hslept.limit, Bool.eq_false_iff.mpr hstop, Bool.or_false]
    rw [if_neg hfail, if_neg hfail, if_pos rfl]
    have hok : stepFails sc n.world t = false := Bool.eq_false_iff.mpr hfail
    by_cases hdeep : (depth : Int) + 1 < cfg.maxDepth
    · -- A second node at the depth below.
      rw [if_pos (decide_eq_true hdeep)]
      intro hstays hcore hreach hearlier
      rw [decide_eq_true_eq, hrun, List.head?_cons] at hstays
      obtain ⟨room, rfl⟩ : ∃ k, room = k + 1 := ⟨room - 1, by have := hn.room; omega⟩
      obtain ⟨more, hmore⟩ : ∃ more, collectRunnable sc (n.step sc t).world smashMaxThreads = f :: more := by
        exact List.head?_eq_some_iff.mp hstays
      have hleaves := chronicle_leaves_out hdpor hv hcache hslept.limit room
        (by push_cast; omega) (by omega) hmore (hslept.below hdeep)
      have hnew := not_executed hcore hreach hready.1 hok hq hqok hready.2 (f := f) hearlier hslept.since
      have hskips : SkipsAnew (slept.choices ++ [.leftOut (n.step sc t).world f]) :=
        ⟨slept.choices, _, f, [], rfl, hnew⟩
      have hchild := hskips.grows hleaves
      split
      · exact hchild
      · exact hchild.grows (chronicleLoop_grows (chronicle_grows (room + 1) (depth + 1)) depth n tried rest
          (Chronicle.on (chronicle sc cfg (room + 1) (depth + 1) (n.step sc t) slept) _))
    · rw [if_neg (mt of_decide_eq_true hdeep)]
      have hshallow : cfg.maxDepth ≤ ((depth + 1 : Nat) : Int) := by push_cast; omega
      obtain ⟨hchild, hchildLimit, hchildDpor⟩ := chronicle_shallow hslept.limit room (n.step sc t) hshallow
        (P := HereOrBehind sc n.world q)
      generalize chronicle sc cfg room (depth + 1) (n.step sc t) slept = back at hchild hchildLimit hchildDpor ⊢
      have hback : Gone sc cfg depth n.world q f c₀ (back.on
          (·.propagate cfg depth (collectRunnable sc n.world smashMaxThreads))) := by
        refine ⟨(hslept.since.trans (hchild.mono (by omega) fun _ hv => hv)).trans (.on fun k hk => ?_),
          (limited_congr (result_propagate ..)).trans hchildLimit, ?_, fun hlt => absurd hlt hdeep⟩
        · exact above_propagate hdpor _ _ (by omega)
        · rw [Chronicle.on_ledger, above_propagate hdpor _ _ le_rfl, hchildDpor]
          exact hslept.asleep
      have hstopped : (back.on (·.propagate cfg depth
          (collectRunnable sc n.world smashMaxThreads))).ledger.stopped cfg = false :=
        (Bool.or_eq_false_iff.mp hback.limit).1
      rw [hstopped, if_neg Bool.false_ne_true]
      exact ih _ hback

/-! ### Down to the first leaf -/

/-- Nothing is counted, and nothing sleeps from `depth` on. -/
structure Fresh (cfg : Config) (depth : Nat) (l : Ledger) : Prop where
  interleavings : l.result.interleavings = 0
  stopped : l.stopped cfg = false
  awake : ∀ k, depth ≤ k → l.dpor.sleepSet k = ∅

omit hdpor in
theorem Fresh.limited (hsome : cfg.maxInterleavings ≠ some 0) {l : Ledger} (h : Fresh cfg depth l) :
    l.limited cfg = false := by
  rw [Ledger.limited, h.stopped, Bool.false_or, Ledger.enough]
  cases hmax : cfg.maxInterleavings with
  | none => rfl
  | some m =>
    rw [h.interleavings]
    exact decide_eq_false fun hle => hsome (by rw [hmax, Nat.le_zero.mp hle])

omit hdpor in
theorem Earlier.next {w : World} {c₀ c : Chronicle} (h : Earlier sc w c₀.choices)
    (hsince : Since depth (· = w) c₀ c) (hw : (callSystem sc).Reach w) {t : Int} (ht : sc.Ready w t)
    (hok : stepFails sc w t = false) : Earlier sc (w.executeStep sc t).world c.choices := by
  have hstep : (cleanSystem sc).step w t (w.executeStep sc t).world := ⟨ht, hok, rfl⟩
  obtain ⟨new, hnew, hexec⟩ := hsince.choices
  intro x hx
  rw [hnew, List.mem_append] at hx
  rcases hx with hx | hx
  · obtain ⟨v, s, u, ts, rfl, hv, hrun⟩ := h x hx
    exact ⟨v, s, u, ts ++ [t], rfl, hv, hrun.snoc hstep⟩
  · obtain ⟨v, s, rfl, rfl⟩ := hexec x hx
    exact ⟨v, s, t, [], rfl, hw, .single hstep⟩

/-- What is known in the loop of a node while all of its threads failed. -/
structure Ungone (cfg : Config) (depth : Nat) (w : World) (f : Int) (rest : List Int) (c₀ c : Chronicle) :
    Prop where
  since : Since depth (· = w) c₀ c
  fresh : Fresh cfg (depth + 1) c.ledger
  asleep : f ∈ c.ledger.dpor.sleepSet depth ∨ ∃ more, rest = f :: more

omit hdpor in
theorem Ungone.pruned {w : World} {f t : Int} {rest : List Int} {c₀ c : Chronicle}
    (h : Ungone cfg depth w f (t :: rest) c₀ c) (hne : f ≠ t) :
    Ungone cfg depth w f rest c₀ (c.on (·.countPruned cfg depth t)) where
  since := h.since.trans (.on fun k _ => by rw [dpor_countPruned])
  fresh := by
    refine ⟨?_, ?_, ?_⟩
    · rw [Chronicle.on_ledger, interleavings_countPruned]
      exact h.fresh.interleavings
    · rw [Chronicle.on_ledger, stopped_countPruned]
      exact h.fresh.stopped
    · rw [Chronicle.on_ledger, dpor_countPruned]
      exact h.fresh.awake
  asleep := by
    rw [Chronicle.on_ledger, dpor_countPruned]
    exact .inl (h.asleep.resolve_right fun ⟨more, hmore⟩ => hne (List.cons.inj hmore).1.symm)

/-- Once a thread was taken the lowest READY one sleeps. -/
theorem Ungone.slept (hd : depth < smashMaxDepth) {w : World} {f t : Int} {rest : List Int}
    {c₀ c : Chronicle} (h : Ungone cfg depth w f (t :: rest) c₀ c) :
    Since depth (· = w) c₀ ((c.on (·.sleep cfg depth t)).record [.executed w t]) ∧
      Fresh cfg (depth + 1) ((c.on (·.sleep cfg depth t)).record [.executed w t]).ledger ∧
      f ∈ ((c.on (·.sleep cfg depth t)).record [.executed w t]).ledger.dpor.sleepSet depth := by
  obtain ⟨hsince, _, hresult, hset⟩ := slept_spec hdpor hd c w t (P := (· = w)) rfl
  refine ⟨h.since.trans hsince, ⟨?_, ?_, fun k hk => ?_⟩, ?_⟩
  · rw [hresult]
    exact h.fresh.interleavings
  · rw [Ledger.stopped, hresult]
    exact h.fresh.stopped
  · rw [hset, Function.update_of_ne (by omega)]
    exact h.fresh.awake k hk
  · rw [hset, Function.update_self]
    rcases h.asleep with hmem | ⟨more, hmore⟩
    · exact Finset.mem_insert_of_mem hmem
    · rw [(List.cons.inj hmore).1]
      exact Finset.mem_insert_self ..

/-- The search comes back from the first child: what slept at the node sleeps below. -/
theorem gone_of_back (hmax : cfg.maxDepth ≤ smashMaxDepth) {w : World} {f t : Int} {others : List Int}
    (hrun : collectRunnable sc w smashMaxThreads = f :: others) {c₀ slept back : Chronicle}
    (hsince : Since depth (· = w) c₀ slept) (hf : f ∈ slept.ledger.dpor.sleepSet depth)
    (hchild : Since (depth + 1) (fun v => ∃ ts, (cleanSystem sc).Run (w.executeStep sc t).world ts v)
      slept back) (hlimit : back.ledger.limited cfg = false) :
    Gone sc cfg depth w t f c₀
      (back.on (·.propagate cfg depth (collectRunnable sc w smashMaxThreads))) := by
  have hasleep : f ∈ back.ledger.dpor.sleepSet depth := by
    rw [hchild.above depth (by omega)]
    exact hf
  refine ⟨((hsince.mono le_rfl fun _ hv => .inl hv).trans
    (hchild.mono (by omega) fun _ hv => .inr hv)).trans (.on fun k hk => ?_),
    (limited_congr (result_propagate ..)).trans hlimit, ?_, fun hdeep => ?_⟩
  · exact above_propagate hdpor _ _ (by omega)
  · rw [Chronicle.on_ledger, above_propagate hdpor _ _ le_rfl]
    exact hasleep
  · rw [Chronicle.on_ledger, sleepSet_propagate hdpor _ _ (by omega), Function.update_self]
    refine Finset.mem_union_right _ (List.mem_toFinset.mpr (List.mem_filter.mpr ⟨?_, ?_⟩))
    · rw [hrun]
      exact List.mem_cons_self
    · exact decide_eq_true hasleep

theorem chronicleLoop_course (hv : sc.Valid) (hcache : cfg.enableStateCaching = false)
    (hmax : cfg.maxDepth ≤ smashMaxDepth) (hsome : cfg.maxInterleavings ≠ some 0) {room : Nat} {n : Saved}
    (hn : AtRun sc (room + 1) depth n) {down : World → Course}
    (hdown : ∀ t, sc.Ready n.world t → stepFails sc n.world t = false → ∀ c : Chronicle,
      Fresh cfg (depth + 1) c.ledger → Ends sc cfg (depth + 1) (n.step sc t).world c
        (chronicle sc cfg room (depth + 1) (n.step sc t) c) (down (n.step sc t).world))
    {f : Int} {others : List Int} (hrun : collectRunnable sc n.world smashMaxThreads = f :: others)
    {tried : Finset Int} (hf : f ∈ tried) (rest : List Int) (hrest : ∀ t ∈ rest, sc.Ready n.world t)
    (hnodup : rest.Nodup) {c₀ : Chronicle} (c : Chronicle) (h : Ungone cfg depth n.world f rest c₀ c) :
    Ends sc cfg depth n.world c₀
      (chronicleLoop sc cfg (chronicle sc cfg room (depth + 1)) depth n tried rest c)
      (courseLoop sc cfg down (decide ((depth : Int) + 1 < cfg.maxDepth)) n.world tried false rest) := by
  have hd : depth < smashMaxDepth := by have := hn.room; omega
  have hhere : ∀ v, v = n.world → ∃ ts, (cleanSystem sc).Run n.world ts v := by
    rintro v rfl
    exact ⟨[], .nil _⟩
  induction rest generalizing c with
  | nil => exact ⟨h.since.mono le_rfl hhere, h.fresh.limited hsome⟩
  | cons t rest ih =>
    have hready := hrest t List.mem_cons_self
    obtain ⟨hnotin, hnodup⟩ := List.nodup_cons.mp hnodup
    have ih := ih (fun u hu => hrest u (List.mem_cons_of_mem _ hu)) hnodup
    rw [chronicleLoop, courseLoop]
    by_cases htried : t ∉ tried
    · rw [if_pos htried, if_pos htried]
      exact ih _ (h.pruned fun heq => htried (heq ▸ hf))
    rw [if_neg htried, if_neg htried]
    dsimp only
    obtain ⟨hsince, hfresh, hfasleep⟩ := h.slept hdpor hd
    generalize (c.on (·.sleep cfg depth t)).record [.executed n.world t] = slept
      at hsince hfasleep hfresh ⊢
    by_cases hfail : stepFails sc n.world t = true
    · rw [if_pos hfail, if_pos hfail]
      have hreport := hsince.trans (Since.on (f := (·.reportViolation (n.step sc t))) fun _ _ => rfl)
      by_cases hstop : cfg.stopOnFirstBug = true
      · rw [if_pos hstop, if_pos hstop]
        refine ⟨hreport.mono le_rfl hhere, ?_⟩
        rw [Chronicle.on_ledger, limited_reportViolation, hstop, Bool.true_or]
      · rw [if_neg hstop, if_neg hstop]
        refine ih _ ⟨hreport, ⟨hfresh.interleavings, ?_, hfresh.awake⟩, .inl hfasleep⟩
        rw [Ledger.stopped, Bool.eq_false_iff.mpr hstop, Bool.and_false]
    have hok : stepFails sc n.world t = false := Bool.eq_false_iff.mpr hfail
    have hends := hdown t hready hok slept hfresh
    rw [if_neg hfail, if_neg hfail, if_neg Bool.false_ne_true]
    change Ends sc cfg depth n.world c₀ _ (match down (n.step sc t).world with
      | .ended => _
      | course => course)
    generalize hback : chronicle sc cfg room (depth + 1) (n.step sc t) slept = back at hends ⊢
    cases hcourse : down (n.step sc t).world with
    | ended =>
      rw [hcourse] at hends
      obtain ⟨hchild, hchildLimit⟩ := hends
      have hgone := gone_of_back hdpor hmax hrun hsince hfasleep hchild hchildLimit
      have hstopped : (back.on (·.propagate cfg depth
          (collectRunnable sc n.world smashMaxThreads))).ledger.stopped cfg = false :=
        (Bool.or_eq_false_iff.mp hgone.limit).1
      rw [hstopped, if_neg Bool.false_ne_true]
      refine chronicleLoop_gone hdpor hv hcache hmax hn hready hok hrun tried rest (fun u hu => ?_) _ hgone
      exact ⟨hrest u (List.mem_cons_of_mem _ hu), fun heq => hnotin (heq ▸ hu)⟩
    | cut =>
      rw [hcourse] at hends
      obtain ⟨hchild, hchildLimit⟩ := hends
      have hall : Since depth (HereOrBehind sc n.world t) c₀
          (back.on (·.propagate cfg depth (collectRunnable sc n.world smashMaxThreads))) :=
        ((hsince.mono le_rfl fun _ hv => .inl hv).trans (hchild.mono (by omega) fun _ hv => .inr hv)).trans
          (.on fun k hk => above_propagate hdpor _ _ (by omega))
      have hlimited : (back.on (·.propagate cfg depth
          (collectRunnable sc n.world smashMaxThreads))).ledger.limited cfg = true :=
        (limited_congr (result_propagate ..)).trans hchildLimit
      split
      · exact ⟨hall.mono le_rfl (hereOrBehind_run hready hok), hlimited⟩
      · obtain ⟨hrestSince, hrestLimit⟩ := chronicleLoop_limited hdpor hd room n tried rest _ hlimited
        exact ⟨(hall.trans (hrestSince.mono le_rfl fun _ hv => .inl hv)).mono le_rfl
          (hereOrBehind_run hready hok), hrestLimit⟩
    | forks lowestStays =>
      rw [hcourse] at hends
      intro hstays hcore hreach hearlier
      have hskips := hends hstays hcore (.step hreach ⟨hready.1, fault_eq_none_of_not_fails hok, rfl⟩)
        (hearlier.next hsince hreach hready hok)
      split
      · exact hskips
      · exact hskips.grows (chronicleLoop_grows (chronicle_grows room (depth + 1)) depth n tried rest
          (Chronicle.on back _))

omit hdpor in
/-- The first leaf is the first interleaving. -/
theorem ends_of_allDone (hsome : cfg.maxInterleavings ≠ some 0) (n : Saved) {c : Chronicle}
    (h : Fresh cfg depth c.ledger) :
    Ends sc cfg depth n.world c (c.on (·.countInterleaving n))
      (if cfg.maxInterleavings = some 1 then .cut else .ended) := by
  have hstopped : (c.ledger.countInterleaving n).stopped cfg = false := h.stopped
  have hcount : (c.ledger.countInterleaving n).result.interleavings = 1 :=
    congrArg (· + 1) h.interleavings
  split
  next hone =>
    refine ⟨.on fun _ _ => rfl, ?_⟩
    rw [Chronicle.on_ledger, Ledger.limited, hstopped, Ledger.enough, hone, hcount]
    rfl
  next hone =>
    refine ⟨.on fun _ _ => rfl, ?_⟩
    rw [Chronicle.on_ledger, Ledger.limited, hstopped, Ledger.enough, hcount]
    cases hbound : cfg.maxInterleavings with
    | none => rfl
    | some m =>
      have hzero : m ≠ 0 := fun hm => hsome (by rw [hbound, hm])
      have hsecond : m ≠ 1 := fun hm => hone (by rw [hbound, hm])
      exact decide_eq_false (by omega)

omit hdpor in
theorem ends_of_stuck (n : Saved) {c : Chronicle} (hlimit : c.ledger.limited cfg = false) :
    Ends sc cfg depth n.world c (c.on (·.reportDeadlock n))
      (if cfg.stopOnFirstBug then .cut else .ended) := by
  have hstopped : (c.ledger.reportDeadlock n).stopped cfg = cfg.stopOnFirstBug := by
    simp [Ledger.stopped, Ledger.reportDeadlock, Ledger.keepTrace]
  have henough : (c.ledger.reportDeadlock n).enough cfg = c.ledger.enough cfg := rfl
  have hnotEnough : c.ledger.enough cfg = false := (Bool.or_eq_false_iff.mp hlimit).2
  split
  next hstop =>
    refine ⟨.on fun _ _ => rfl, ?_⟩
    rw [Chronicle.on_ledger, Ledger.limited, hstopped, hstop, Bool.true_or]
  next hstop =>
    refine ⟨.on fun _ _ => rfl, ?_⟩
    rw [Chronicle.on_ledger, Ledger.limited, hstopped, henough, hnotEnough, Bool.eq_false_iff.mpr hstop]
    rfl

/-- Where nothing sleeps, the whole persistent set is tried. -/
theorem tried_of_awake {l : Ledger} (h : l.dpor.sleepSet depth = ∅) (hd : depth < smashMaxDepth) (w : World) :
    l.tried sc cfg depth w = computePersistentSet sc w (collectRunnable sc w smashMaxThreads) := by
  rw [tried_dpor hdpor _ _ hd]
  refine Finset.filter_true_of_mem fun t _ => ?_
  rw [h]
  exact Finset.notMem_empty t

omit hdpor in
/-- Where nothing sleeps, nobody is left out. -/
theorem asleep_of_awake {l : Ledger} (h : l.dpor.sleepSet depth = ∅) (hd : depth < smashMaxDepth) (w : World) :
    l.asleep sc cfg depth w = [] := by
  have hcontains : ∀ t, l.dpor.sleepContains depth t = false := fun t => by
    rw [Dpor.sleepContains, if_neg (by omega), h]
    exact decide_eq_false (Finset.notMem_empty t)
  simp [Ledger.asleep, hcontains]

/-- **A search ends as its course says.** -/
theorem chronicle_course (hv : sc.Valid) (hcache : cfg.enableStateCaching = false)
    (hmax : cfg.maxDepth ≤ smashMaxDepth) (hsome : cfg.maxInterleavings ≠ some 0) (room : Nat) (n : Saved)
    (c : Chronicle) (hn : AtRun sc room depth n) (h : Fresh cfg depth c.ledger) :
    Ends sc cfg depth n.world c (chronicle sc cfg room depth n c) (courseFrom sc cfg room depth n.world) := by
  induction room generalizing depth n c with
  | zero =>
    have hshallow : cfg.maxDepth ≤ depth := by have := hn.room; omega
    obtain ⟨hsince, hlimit', _⟩ := chronicle_shallow (h.limited hsome) 0 n hshallow
      (P := fun v => ∃ ts, (cleanSystem sc).Run n.world ts v)
    exact ⟨hsince, hlimit'⟩
  | succ room ih =>
    have hlimit := h.limited hsome
    have hd : depth < smashMaxDepth := by have := hn.room; omega
    rw [courseFrom]
    by_cases hshallow : cfg.maxDepth ≤ depth
    · rw [if_pos hshallow]
      obtain ⟨hsince, hlimit', _⟩ := chronicle_shallow hlimit (room + 1) n hshallow
        (P := fun v => ∃ ts, (cleanSystem sc).Run n.world ts v)
      exact ⟨hsince, hlimit'⟩
    have hgo : (c.ledger.stopped cfg || c.ledger.enough cfg) = false := hlimit
    rw [if_neg hshallow, chronicle, hgo, if_neg Bool.false_ne_true, if_neg hshallow, chronicleNode]
    by_cases hdone : allDone sc n.world = true
    · rw [if_pos hdone, if_pos hdone]
      exact ends_of_allDone hsome n h
    rw [if_neg hdone, if_neg hdone]
    by_cases hstuck : collectRunnable sc n.world smashMaxThreads = []
    · rw [if_pos hstuck, if_pos hstuck]
      exact ends_of_stuck n hlimit
    rw [if_neg hstuck, if_neg hstuck]
    have hhit : c.ledger.cacheHit sc cfg n.world = false := by simp [Ledger.cacheHit, hcache]
    have hmark : c.ledger.cacheMark sc cfg n.world = c.ledger := by simp [Ledger.cacheMark, hcache]
    have hcounted : c.on (fun l => (l.cacheMark sc cfg n.world).countState n) = c.on (·.countState n) := by
      simp only [Chronicle.on, hmark]
    rw [hhit, if_neg Bool.false_ne_true, hcounted]
    dsimp only
    obtain ⟨f, others, hrun⟩ := List.exists_cons_of_ne_nil hstuck
    have hready : ∀ t ∈ collectRunnable sc n.world smashMaxThreads, sc.Ready n.world t := fun t ht =>
      (mem_collectRunnable hv).mp ht
    have hf : f ∈ computePersistentSet sc n.world (collectRunnable sc n.world smashMaxThreads) := by
      rw [hrun]
      exact mem_computePersistentSet.mpr .refl
    have hawake : (c.ledger.countState n).dpor.sleepSet depth = ∅ := h.awake depth le_rfl
    rw [Chronicle.on_ledger, tried_of_awake hdpor hawake hd, asleep_of_awake hawake hd]
    refine chronicleLoop_course hdpor hv hcache hmax hsome hn (fun t ht hok c' hc' => ?_) hrun hf _ hready
      (nodup_collectRunnable ..) _ ⟨⟨⟨[], by simp, by simp⟩, fun _ _ => rfl⟩, ?_, .inr ⟨others, hrun⟩⟩
    · exact ih (n.step sc t) c' (hn.child ht hok) hc'
    · exact ⟨h.interleavings, h.stopped, fun k hk => h.awake k (by omega)⟩

end search

/-! ## The whole exploration -/

section exploration

variable (hv : sc.Valid) (hdpor : cfg.enableDpor = true) (hcache : cfg.enableStateCaching = false)
include hv hdpor hcache

theorem exploreChronicle_course :
    Ends sc cfg.clamp 0 (startWorld sc) ⟨.init, []⟩ (exploreChronicle sc cfg) (course sc cfg) := by
  have hsome := clamp_maxInterleavings cfg
  have hmax : cfg.clamp.maxDepth ≤ smashMaxDepth := by
    unfold Config.clamp
    dsimp only
    split <;> omega
  have hdpor : cfg.clamp.enableDpor = true := hdpor
  have hcache : cfg.clamp.enableStateCaching = false := hcache
  exact chronicle_course hdpor hv hcache hmax hsome smashMaxDepth (rootNode sc) _ atRun_root
    ⟨rfl, rfl, fun _ _ => rfl⟩

/-- **Unless the search forks nothing is left out.** -/
theorem quiet_of_not_forks (hcourse : ∀ lowestStays, course sc cfg ≠ .forks lowestStays) :
    Quiet (exploreChronicle sc cfg) := by
  have hends := exploreChronicle_course hv hdpor hcache
  have hstart : Quiet ⟨.init, []⟩ := by simp [Quiet]
  cases hc : course sc cfg with
  | ended =>
    rw [hc] at hends
    exact hstart.since hends.1
  | cut =>
    rw [hc] at hends
    exact hstart.since hends.1
  | forks lowestStays => exact absurd hc (hcourse lowestStays)

/-- **If it forks, and the lowest READY thread stays that, a thread is left out that is new there.** -/
theorem not_repeatsOnly_of_forks (hc : sc.Core) (hcourse : course sc cfg = .forks true) :
    ¬ RepeatsOnly sc cfg := by
  have hends := exploreChronicle_course hv hdpor hcache
  rw [hcourse] at hends
  obtain ⟨front, w, t, back, hchoices, hnew⟩ := hends rfl hc (.init ⟨World.zero, rfl⟩) (by simp [Earlier])
  exact fun h => hnew (h front w t back hchoices)

/-- **Sleep sets skip only repeated choices where the selected threads are awake**: nobody is left out then.
Everywhere else a thread is left out as asleep, and in a core scenario one that was never executed there, unless
the first step that forks the search wakes a thread below the lowest READY one. -/
theorem sleep_repeats :
    (SelectsAwake sc cfg → RepeatsOnly sc cfg) ∧
    (¬ SelectsAwake sc cfg → ∃ w t, .leftOut w t ∈ (exploreChronicle sc cfg).choices) ∧
    (sc.Core → course sc cfg ≠ .forks false → (RepeatsOnly sc cfg ↔ SelectsAwake sc cfg)) := by
  have hleaves := leavesOut_iff hv hdpor hcache
  have hrepeats : SelectsAwake sc cfg → RepeatsOnly sc cfg := by
    intro hawake front w t back hchoices
    exact absurd (hchoices ▸ by simp) (hleaves.mpr hawake w t)
  refine ⟨hrepeats, fun hnot => ?_, fun hc hwakes => ⟨fun h => ?_, hrepeats⟩⟩
  · by_contra hnone
    exact hnot (hleaves.mp fun w t hmem => hnone ⟨w, t, hmem⟩)
  · refine hleaves.mp (quiet_of_not_forks hv hdpor hcache fun lowestStays hcourse => ?_)
    cases lowestStays with
    | true => exact not_repeatsOnly_of_forks hv hdpor hcache hc hcourse h
    | false => exact hwakes hcourse

end exploration

/-- `T1` and `T2` come to `S0` together, and the signal of `T2` wakes `T0`, which waits for it. -/
def wakesLower : Scenario :=
  .ofSteps [[⟨.semWait, 0, 0⟩], [⟨.semWait, 1, 0⟩, ⟨.semWait, 0, 0⟩],
    [⟨.nop, -1, 0⟩, ⟨.semSignal, 1, 0⟩, ⟨.semSignal, 0, 0⟩]] [.semaphore, .semaphore] [0, 0]

/-- Down to depth 7 the search of `wakesLower` forks, and leaves nobody out. -/
theorem sleep_repeats_wakesLower : RepeatsOnly wakesLower ⟨true, false, 7, none, false⟩ ∧
    course wakesLower ⟨true, false, 7, none, false⟩ = .forks false ∧
    ¬ RepeatsOnly signalWait ⟨true, false, 16, none, false⟩ := by
  have hv : wakesLower.Valid := by decide
  have hv' : signalWait.Valid := by decide
  have hquiet : (exploreChronicle wakesLower ⟨true, false, 7, none, false⟩).choices.all (!·.asleep) = true := by
    decide +kernel
  have hasleep : (exploreChronicle signalWait ⟨true, false, 16, none, false⟩).choices.all (!·.asleep) = false := by
    decide +kernel
  have hforks : course signalWait ⟨true, false, 16, none, false⟩ = .forks true := by decide +kernel
  refine ⟨(sleep_repeats hv rfl rfl).1 ?_, by decide +kernel, fun hrepeats => ?_⟩
  · by_contra hnot
    obtain ⟨w, t, hmem⟩ := (sleep_repeats hv rfl rfl).2.1 hnot
    exact quiet_iff.mpr hquiet w t hmem
  · have hawake := ((sleep_repeats hv' rfl rfl).2.2 signalWait_core (by simp [hforks])).mp hrepeats
    have hnobody := quiet_iff.mp ((leavesOut_iff hv' rfl rfl).mpr hawake)
    exact absurd (hnobody.symm.trans hasleep) (by simp)

/-- `T0` had its turn when it was about to unlock the second mutex. Where `T1` has come to wait for that mutex
in between, it is left out. -/
theorem abbaDeadlock_skips : ¬ ∀ (sc : Scenario) (cfg : Config), sc.Valid → cfg.enableDpor = true →
    cfg.enableStateCaching = false → RepeatsOnly sc cfg := by
  intro hall
  have hv : abbaDeadlock.Valid := by decide
  have hforks : course abbaDeadlock ⟨true, false, 16, none, false⟩ = .forks true := by decide +kernel
  exact not_repeatsOnly_of_forks hv rfl rfl abbaDeadlock_core hforks (hall _ _ hv rfl rfl)

end Smash
