import Smash.Proof.Dpor

/-!
# The chronicle of a search

The `chronicle` writes down, beside the ledger of the walk, which thread was executed where and which thread of
a persistent set was left out as asleep. Without the choices it is the walk (`chronicle_ledger`), so what it says
is said of the search. Choices are only added (`chronicle_grows`), and past a limit nothing is left out any more
(`chronicleLoop_limited`).
-/

set_option autoImplicit false

namespace Smash

variable {sc : Scenario} {cfg : Config}

/-! ## The choices of a search -/

/-- What a node does with a thread of its persistent set. -/
inductive Choice where
  | executed (world : World) (tid : Int)
  /-- The thread is asleep. -/
  | leftOut (world : World) (tid : Int)

def Choice.asleep : Choice → Bool
  | .executed .. => false
  | .leftOut .. => true

/-- A ledger and the choices so far. -/
structure Chronicle where
  ledger : Ledger
  choices : List Choice

namespace Chronicle

def on (c : Chronicle) (f : Ledger → Ledger) : Chronicle := { c with ledger := f c.ledger }

def record (c : Chronicle) (xs : List Choice) : Chronicle := { c with choices := c.choices ++ xs }

@[simp] theorem on_ledger (c : Chronicle) (f : Ledger → Ledger) : (c.on f).ledger = f c.ledger := rfl

@[simp] theorem on_choices (c : Chronicle) (f : Ledger → Ledger) : (c.on f).choices = c.choices := rfl

@[simp] theorem record_ledger (c : Chronicle) (xs : List Choice) : (c.record xs).ledger = c.ledger := rfl

@[simp] theorem record_choices (c : Chronicle) (xs : List Choice) :
    (c.record xs).choices = c.choices ++ xs := rfl

end Chronicle

/-- The threads that a node takes out of its persistent set. -/
def Ledger.asleep (sc : Scenario) (cfg : Config) (depth : Nat) (w : World) (l : Ledger) : List Int :=
  let runnable := collectRunnable sc w smashMaxThreads
  if cfg.enableDpor then
    runnable.filter fun tid => tid ∈ computePersistentSet sc w runnable ∧ l.dpor.sleepContains depth tid
  else []

def chronicleLoop (sc : Scenario) (cfg : Config) (recurse : Saved → Chronicle → Chronicle)
    (depth : Nat) (n : Saved) (tried : Finset Int) : List Int → Chronicle → Chronicle
  | [], c => c
  | tid :: rest, c =>
    if tid ∉ tried then
      chronicleLoop sc cfg recurse depth n tried rest (c.on (·.countPruned cfg depth tid))
    else
      let slept := (c.on (·.sleep cfg depth tid)).record [.executed n.world tid]
      let below := n.step sc tid
      if stepFails sc n.world tid then
        let reported := slept.on (·.reportViolation below)
        if cfg.stopOnFirstBug then reported
        else chronicleLoop sc cfg recurse depth n tried rest reported
      else
        let back := (recurse below slept).on
          (·.propagate cfg depth (collectRunnable sc n.world smashMaxThreads))
        if back.ledger.stopped cfg then back
        else chronicleLoop sc cfg recurse depth n tried rest back

def chronicleNode (sc : Scenario) (cfg : Config) (recurse : Saved → Chronicle → Chronicle)
    (depth : Nat) (n : Saved) (c : Chronicle) : Chronicle :=
  if allDone sc n.world then c.on (·.countInterleaving n)
  else if collectRunnable sc n.world smashMaxThreads = [] then c.on (·.reportDeadlock n)
  else if c.ledger.cacheHit sc cfg n.world then c.on (·.countCached n)
  else
    let c := c.on fun l => (l.cacheMark sc cfg n.world).countState n
    chronicleLoop sc cfg recurse depth n (c.ledger.tried sc cfg depth n.world)
      (collectRunnable sc n.world smashMaxThreads)
      (c.record ((c.ledger.asleep sc cfg depth n.world).map (.leftOut n.world)))

/-- The walk, with its choices written down. -/
def chronicle (sc : Scenario) (cfg : Config) : Nat → Nat → Saved → Chronicle → Chronicle
  | 0, _, n, c =>
    if c.ledger.stopped cfg || c.ledger.enough cfg then c else c.on (·.visit n .hardGuard)
  | room + 1, depth, n, c =>
    if c.ledger.stopped cfg || c.ledger.enough cfg then c
    else if cfg.maxDepth ≤ depth then c.on (·.reportDepth n depth)
    else chronicleNode sc cfg (chronicle sc cfg room (depth + 1)) depth n c

theorem chronicleLoop_ledger {recurse : Saved → Chronicle → Chronicle}
    {recurse' : Saved → Ledger → Ledger} (hrec : ∀ n c, (recurse n c).ledger = recurse' n c.ledger)
    (depth : Nat) (n : Saved) (tried : Finset Int) (rest : List Int) (c : Chronicle) :
    (chronicleLoop sc cfg recurse depth n tried rest c).ledger
      = walkLoop sc cfg recurse' depth n tried rest c.ledger := by
  induction rest generalizing c with
  | nil => rfl
  | cons tid rest ih =>
    rw [chronicleLoop, walkLoop]
    split
    · exact ih _
    dsimp only
    split
    · split
      · rfl
      · exact ih _
    · simp only [Chronicle.on_ledger, Chronicle.record_ledger, hrec]
      split
      · rw [Chronicle.on_ledger, hrec]
        rfl
      · rw [ih, Chronicle.on_ledger, hrec]
        rfl

/-- **The chronicle is kept by the walk**: without the choices it is the walk's ledger. -/
theorem chronicle_ledger (room depth : Nat) (n : Saved) (c : Chronicle) :
    (chronicle sc cfg room depth n c).ledger = walk sc cfg room depth n c.ledger := by
  induction room generalizing depth n c with
  | zero =>
    rw [chronicle, walk]
    split <;> rfl
  | succ room ih =>
    rw [chronicle, walk]
    split
    · rfl
    split
    · rfl
    unfold chronicleNode walkNode
    split
    · rfl
    split
    · rfl
    split
    · rfl
    · exact chronicleLoop_ledger (fun m c => ih (depth + 1) m c) depth n _ _ _

/-- The chronicle of a whole exploration. -/
def exploreChronicle (sc : Scenario) (cfg : Config) : Chronicle :=
  chronicle sc cfg.clamp smashMaxDepth 0 (rootNode sc) ⟨.init, []⟩

theorem exploreChronicle_ledger (hv : sc.Valid) (stack : Nat → Saved) :
    (exploreChronicle sc cfg).ledger = (exploreSearch sc cfg stack).ledger := by
  rw [exploreChronicle, chronicle_ledger, exploreSearch_ledger hv]
  rfl

/-- A thread is left out only where it was executed before. -/
def RepeatsOnly (sc : Scenario) (cfg : Config) : Prop :=
  ∀ front w t back, (exploreChronicle sc cfg).choices = front ++ .leftOut w t :: back →
    .executed w t ∈ front

/-! ## What the events of a search do to its limits -/

/-- A limit of the configuration is met. -/
def Ledger.limited (cfg : Config) (l : Ledger) : Bool := l.stopped cfg || l.enough cfg

@[simp] theorem limited_countPruned (l : Ledger) (depth : Nat) (t : Int) :
    (l.countPruned cfg depth t).limited cfg = l.limited cfg :=
  countPruned_field (·.limited cfg) (fun _ _ _ => rfl) l depth t

theorem stopped_countPruned (l : Ledger) (depth : Nat) (t : Int) :
    (l.countPruned cfg depth t).stopped cfg = l.stopped cfg :=
  countPruned_field (·.stopped cfg) (fun _ _ _ => rfl) l depth t

/-- Whether a limit is met is read off the result. -/
theorem limited_congr {l l' : Ledger} (h : l'.result = l.result) : l'.limited cfg = l.limited cfg := by
  simp only [Ledger.limited, Ledger.stopped, Ledger.enough, h]

/-- `smash_explore` takes a limit of 0 for no limit, … -/
theorem clamp_maxInterleavings (cfg : Config) : cfg.clamp.maxInterleavings ≠ some 0 := by
  unfold Config.clamp
  dsimp only
  split
  · simp
  · assumption

/-- … so that none is met at the start. -/
theorem limited_init (cfg : Config) : Ledger.init.limited cfg.clamp = false := by
  unfold Ledger.limited Ledger.enough
  cases hmax : cfg.clamp.maxInterleavings with
  | none => rfl
  | some m =>
    have hm : m ≠ 0 := fun hzero => clamp_maxInterleavings cfg (hmax.trans (congrArg some hzero))
    exact decide_eq_false fun hle => hm (Nat.le_zero.mp hle)

/-- A violation meets the limit if the search is to stop, and changes nothing if not. -/
theorem limited_reportViolation (l : Ledger) (n : Saved) :
    (l.reportViolation n).limited cfg = (cfg.stopOnFirstBug || l.limited cfg) := by
  have henough : (l.reportViolation n).enough cfg = l.enough cfg := rfl
  have hstopped : (l.reportViolation n).stopped cfg = cfg.stopOnFirstBug := by
    simp [Ledger.stopped, Ledger.reportViolation, Ledger.keepTrace]
  rw [Ledger.limited, Ledger.limited, henough, hstopped, Ledger.stopped]
  cases cfg.stopOnFirstBug <;> simp

/-- Past a limit the search returns at once. -/
theorem chronicle_limited {c : Chronicle} (h : c.ledger.limited cfg = true) (room depth : Nat) (n : Saved) :
    chronicle sc cfg room depth n c = c := by
  cases room with
  | zero => exact if_pos h
  | succ room => exact if_pos h

/-! ## What happened since -/

/-- Since `c₀` threads were executed in states of `P`, none was left out, and the sleep sets above `depth` are
as they were. -/
structure Since (depth : Nat) (P : World → Prop) (c₀ c : Chronicle) : Prop where
  choices : ∃ new, c.choices = c₀.choices ++ new ∧ ∀ x ∈ new, ∃ v t, x = .executed v t ∧ P v
  above : ∀ k < depth, c.ledger.dpor.sleepSet k = c₀.ledger.dpor.sleepSet k

namespace Since

variable {depth : Nat} {P : World → Prop} {c₀ c c' : Chronicle}

theorem refl (c : Chronicle) : Since depth P c c := ⟨⟨[], by simp, by simp⟩, fun _ _ => rfl⟩

theorem trans (h : Since depth P c₀ c) (h' : Since depth P c c') : Since depth P c₀ c' := by
  obtain ⟨new, hnew, hexec⟩ := h.choices
  obtain ⟨new', hnew', hexec'⟩ := h'.choices
  refine ⟨⟨new ++ new', by rw [hnew', hnew, List.append_assoc], fun x hx => ?_⟩,
    fun k hk => (h'.above k hk).trans (h.above k hk)⟩
  exact (List.mem_append.mp hx).elim (hexec x) (hexec' x)

theorem mono {depth' : Nat} {Q : World → Prop} (h : Since depth P c₀ c) (hle : depth' ≤ depth)
    (hPQ : ∀ v, P v → Q v) : Since depth' Q c₀ c := by
  obtain ⟨new, hnew, hexec⟩ := h.choices
  refine ⟨⟨new, hnew, fun x hx => ?_⟩, fun k hk => h.above k (by omega)⟩
  obtain ⟨v, t, hv, hP⟩ := hexec x hx
  exact ⟨v, t, hv, hPQ v hP⟩

/-- An event that leaves the sleep sets above alone. -/
theorem on {f : Ledger → Ledger}
    (h : ∀ k < depth, (f c.ledger).dpor.sleepSet k = c.ledger.dpor.sleepSet k) :
    Since depth P c (c.on f) := ⟨⟨[], by simp, by simp⟩, h⟩

/-- A thread was executed in a state of `P`. -/
theorem executed {w : World} (t : Int) (hP : P w) : Since depth P c (c.record [.executed w t]) :=
  ⟨⟨[.executed w t], rfl, fun _ hx => ⟨w, t, List.mem_singleton.mp hx, hP⟩⟩, fun _ _ => rfl⟩

theorem grows (h : Since depth P c₀ c) : c₀.choices <+: c.choices := by
  obtain ⟨new, hnew, _⟩ := h.choices
  exact ⟨new, hnew.symm⟩

end Since

/-- Choices are only added. -/
theorem chronicleLoop_grows {recurse : Saved → Chronicle → Chronicle}
    (hrec : ∀ n c, c.choices <+: (recurse n c).choices) (depth : Nat) (n : Saved) (tried : Finset Int)
    (rest : List Int) (c : Chronicle) :
    c.choices <+: (chronicleLoop sc cfg recurse depth n tried rest c).choices := by
  induction rest generalizing c with
  | nil => exact List.prefix_rfl
  | cons tid rest ih =>
    rw [chronicleLoop]
    split
    · exact ih (c.on _)
    have hrecord : c.choices <+: ((c.on (·.sleep cfg depth tid)).record [.executed n.world tid]).choices :=
      List.prefix_append ..
    dsimp only
    generalize (c.on (·.sleep cfg depth tid)).record [.executed n.world tid] = slept at hrecord ⊢
    split
    · split
      · exact hrecord
      · exact hrecord.trans (ih (slept.on _))
    · have hback := hrecord.trans (hrec (n.step sc tid) slept)
      split
      · exact hback
      · exact hback.trans (ih (Chronicle.on (recurse (n.step sc tid) slept) _))

theorem chronicle_grows (room depth : Nat) (n : Saved) (c : Chronicle) :
    c.choices <+: (chronicle sc cfg room depth n c).choices := by
  induction room generalizing depth n c with
  | zero =>
    rw [chronicle]
    split <;> exact List.prefix_rfl
  | succ room ih =>
    rw [chronicle]
    split
    · exact List.prefix_rfl
    split
    · exact List.prefix_rfl
    unfold chronicleNode
    split
    · exact List.prefix_rfl
    split
    · exact List.prefix_rfl
    split
    · exact List.prefix_rfl
    · refine List.IsPrefix.trans ?_ (chronicleLoop_grows (fun m c => ih (depth + 1) m c) ..)
      exact List.prefix_append ..

/-! ## A thread is executed -/

section search

variable (hdpor : cfg.enableDpor = true) {depth : Nat}
include hdpor

theorem above_propagate (l : Ledger) (ts : List Int) {k : Nat} (hk : k ≤ depth) :
    (l.propagate cfg depth ts).dpor.sleepSet k = l.dpor.sleepSet k := by
  by_cases hd : depth + 1 < smashMaxDepth
  · rw [sleepSet_propagate hdpor l ts hd, Function.update_of_ne (by omega)]
  · rw [Ledger.propagate, if_pos hdpor]
    show (l.dpor.sleepPropagate depth ts).sleepSet k = _
    rw [Dpor.sleepPropagate, if_pos (by omega)]

/-- Taking a thread to execute it: it is put to sleep, and nothing else changes. -/
theorem slept_spec (hd : depth < smashMaxDepth) (c : Chronicle) (w : World) (t : Int) {P : World → Prop}
    (hP : P w) : Since depth P c ((c.on (·.sleep cfg depth t)).record [.executed w t]) ∧
      ((c.on (·.sleep cfg depth t)).record [.executed w t]).ledger.limited cfg = c.ledger.limited cfg ∧
      ((c.on (·.sleep cfg depth t)).record [.executed w t]).ledger.result = c.ledger.result ∧
      ((c.on (·.sleep cfg depth t)).record [.executed w t]).ledger.dpor.sleepSet
        = Function.update c.ledger.dpor.sleepSet depth (insert t (c.ledger.dpor.sleepSet depth)) := by
  have hset := sleepSet_sleep hdpor c.ledger t hd
  refine ⟨(Since.on fun k hk => ?_).trans (.executed t hP), limited_congr (result_sleep ..),
    result_sleep .., hset⟩
  rw [hset, Function.update_of_ne (by omega)]

/-- Past a limit the loop executes what is left, and goes nowhere. -/
theorem chronicleLoop_limited (hd : depth < smashMaxDepth) (room : Nat) (n : Saved) (tried : Finset Int)
    (rest : List Int) (c : Chronicle) (h : c.ledger.limited cfg = true) :
    Since depth (· = n.world) c
        (chronicleLoop sc cfg (chronicle sc cfg room (depth + 1)) depth n tried rest c) ∧
      (chronicleLoop sc cfg (chronicle sc cfg room (depth + 1)) depth n tried rest c).ledger.limited cfg
        = true := by
  induction rest generalizing c with
  | nil => exact ⟨.refl c, h⟩
  | cons t rest ih =>
    rw [chronicleLoop]
    by_cases htried : t ∉ tried
    · rw [if_pos htried]
      have hnext := ih (c.on (·.countPruned cfg depth t)) ((limited_countPruned ..).trans h)
      exact ⟨(Since.on fun _ _ => by rw [dpor_countPruned]).trans hnext.1, hnext.2⟩
    rw [if_neg htried]
    dsimp only
    obtain ⟨hsince, hlimit, _, _⟩ := slept_spec hdpor hd c n.world t (P := (· = n.world)) rfl
    rw [h] at hlimit
    generalize (c.on (·.sleep cfg depth t)).record [.executed n.world t] = slept at hsince hlimit ⊢
    by_cases hfail : stepFails sc n.world t = true
    · rw [if_pos hfail]
      have hreport : (slept.on (·.reportViolation (n.step sc t))).ledger.limited cfg = true := by
        rw [Chronicle.on_ledger, limited_reportViolation, hlimit, Bool.or_true]
      have hsince' := hsince.trans (Since.on (f := (·.reportViolation (n.step sc t))) fun _ _ => rfl)
      split
      · exact ⟨hsince', hreport⟩
      · have hnext := ih _ hreport
        exact ⟨hsince'.trans hnext.1, hnext.2⟩
    · rw [if_neg hfail, chronicle_limited hlimit]
      have hback : (slept.on (·.propagate cfg depth
          (collectRunnable sc n.world smashMaxThreads))).ledger.limited cfg = true :=
        (limited_congr (result_propagate ..)).trans hlimit
      have hsince' := hsince.trans (Since.on (f := (·.propagate cfg depth
        (collectRunnable sc n.world smashMaxThreads))) fun k hk => above_propagate hdpor _ _ (by omega))
      split
      · exact ⟨hsince', hback⟩
      · have hnext := ih _ hback
        exact ⟨hsince'.trans hnext.1, hnext.2⟩

end search

end Smash
