import Smash.Model.Explorer
import Smash.Proof.Runs

/-!
# The search without the machine

`explore_dfs` mutates one engine and undoes its own steps. What it computes is simpler: a walk over
the tree of schedules that carries a node down and a ledger (result, sleep sets, visited table)
along. `walk` is that walk. A node is a value, so nothing is saved and nothing restored.

`exploreDfs_ledger` says the machine keeps the same ledger as the walk, and `exploreDfs_saveStack`
that it leaves the stack below its own depth alone, which is why every restore brings the parent
back. Everything else about the exploration is proved of `walk`.
-/

set_option autoImplicit false

namespace Smash

/-! ## Nodes and ledgers -/

/-- The node below `n` that thread `tid` leads to. -/
def Saved.step (sc : Scenario) (n : Saved) (tid : Int) : Saved :=
  let recorded := if n.trace.schedule.count < smashMaxDepth then
    { n.trace with schedule := n.trace.schedule.push tid } else n.trace
  let o := n.world.executeStep sc tid
  { world := o.world
    trace := recorded.logAll n.stepCounter o.log
    stepCounter := if o.counted then n.stepCounter + 1 else n.stepCounter }

/-- The schedule that led to a node. -/
def Saved.schedule (n : Saved) : List Int := n.trace.schedule.toList

/-- What the search carries along and never restores. -/
structure Ledger where
  result : Result
  dpor : Dpor
  table : StateTable
  maxDepthReached : Nat
  visits : List Visit

namespace Ledger

def visit (l : Ledger) (n : Saved) (kind : VisitKind) : Ledger :=
  { l with visits := l.visits ++ [⟨kind, n.schedule, n.world⟩] }

def keepTrace (l : Ledger) (trace : Trace) : Ledger :=
  { l with result := { l.result with failingTrace := l.result.failingTrace.or (some trace) } }

def countInterleaving (l : Ledger) (n : Saved) : Ledger :=
  { l.visit n .interleaving with
    result := { l.result with interleavings := l.result.interleavings + 1 } }

def reportDeadlock (l : Ledger) (n : Saved) : Ledger :=
  { l.visit n .deadlock with
    result := { l.result with deadlocks := l.result.deadlocks + 1 } }.keepTrace
      (n.trace.log n.stepCounter ⟨.deadlock, -1, -1, 0⟩)

def reportViolation (l : Ledger) (n : Saved) : Ledger :=
  { l.visit n .violation with
    result := { l.result with violations := l.result.violations + 1 } }.keepTrace n.trace

def reportDepth (l : Ledger) (n : Saved) (depth : Nat) : Ledger :=
  { l.visit n .depthLimit with
    maxDepthReached := if l.maxDepthReached < depth then depth else l.maxDepthReached }

def countCached (l : Ledger) (n : Saved) : Ledger :=
  { l.visit n .cached with result := { l.result with cachePruned := l.result.cachePruned + 1 } }

def countState (l : Ledger) (n : Saved) : Ledger :=
  { l.visit n .expanded with result := { l.result with states := l.result.states + 1 } }

def countPruned (l : Ledger) (cfg : Config) (depth : Nat) (tid : Int) : Ledger :=
  if cfg.enableDpor && l.dpor.sleepContains depth tid then
    { l with result := { l.result with sleepPruned := l.result.sleepPruned + 1 } }
  else
    { l with result := { l.result with dporPruned := l.result.dporPruned + 1 } }

def sleep (l : Ledger) (cfg : Config) (depth : Nat) (tid : Int) : Ledger :=
  if cfg.enableDpor then { l with dpor := l.dpor.sleepAdd depth tid } else l

def propagate (l : Ledger) (cfg : Config) (depth : Nat) (runnable : List Int) : Ledger :=
  if cfg.enableDpor then { l with dpor := l.dpor.sleepPropagate depth runnable } else l

def stopped (l : Ledger) (cfg : Config) : Bool :=
  l.result.failingTrace.isSome && cfg.stopOnFirstBug

def enough (l : Ledger) (cfg : Config) : Bool :=
  match cfg.maxInterleavings with
  | none => false
  | some n => n ≤ l.result.interleavings

def cacheHit (l : Ledger) (sc : Scenario) (cfg : Config) (w : World) : Bool :=
  cfg.enableStateCaching && l.table.visited (stateHash (captureState sc w))

def cacheMark (l : Ledger) (sc : Scenario) (cfg : Config) (w : World) : Ledger :=
  if cfg.enableStateCaching then
    { l with table := (l.table.markVisited (stateHash (captureState sc w))).1 }
  else l

/-- The threads tried at a node. -/
def tried (sc : Scenario) (cfg : Config) (depth : Nat) (w : World) (l : Ledger) : Finset Int :=
  let runnable := collectRunnable sc w smashMaxThreads
  if cfg.enableDpor then
    (computePersistentSet sc w runnable).filter fun tid => ¬ l.dpor.sleepContains depth tid
  else runnable.toFinset

end Ledger

/-! ## The walk -/

/-- The children of a node in turn. -/
def walkLoop (sc : Scenario) (cfg : Config) (recurse : Saved → Ledger → Ledger) (depth : Nat)
    (n : Saved) (tried : Finset Int) : List Int → Ledger → Ledger
  | [], l => l
  | tid :: rest, l =>
    if tid ∉ tried then
      walkLoop sc cfg recurse depth n tried rest (l.countPruned cfg depth tid)
    else
      let slept := l.sleep cfg depth tid
      let below := n.step sc tid
      if stepFails sc n.world tid then
        let reported := slept.reportViolation below
        if cfg.stopOnFirstBug then reported
        else walkLoop sc cfg recurse depth n tried rest reported
      else
        let back := (recurse below slept).propagate cfg depth
          (collectRunnable sc n.world smashMaxThreads)
        if back.stopped cfg then back
        else walkLoop sc cfg recurse depth n tried rest back

/-- A node inside the depth bounds. -/
def walkNode (sc : Scenario) (cfg : Config) (recurse : Saved → Ledger → Ledger) (depth : Nat)
    (n : Saved) (l : Ledger) : Ledger :=
  if allDone sc n.world then l.countInterleaving n
  else if collectRunnable sc n.world smashMaxThreads = [] then l.reportDeadlock n
  else if l.cacheHit sc cfg n.world then l.countCached n
  else
    let l := (l.cacheMark sc cfg n.world).countState n
    walkLoop sc cfg recurse depth n (l.tried sc cfg depth n.world)
      (collectRunnable sc n.world smashMaxThreads) l

/-- The walk from a node at `depth = SMASH_MAX_DEPTH - room`. -/
def walk (sc : Scenario) (cfg : Config) : Nat → Nat → Saved → Ledger → Ledger
  | 0, _, n, l => if l.stopped cfg || l.enough cfg then l else l.visit n .hardGuard
  | room + 1, depth, n, l =>
    if l.stopped cfg || l.enough cfg then l
    else if cfg.maxDepth ≤ depth then l.reportDepth n depth
    else walkNode sc cfg (walk sc cfg room (depth + 1)) depth n l

/-! ## The machine keeps the walk's ledger -/

namespace Search

/-- The node the engine is at. -/
def node (s : Search) : Saved := ⟨s.engine.world, s.engine.trace, s.engine.stepCounter⟩

def ledger (s : Search) : Ledger :=
  { result := s.result, dpor := s.dpor, table := s.engine.table
    maxDepthReached := s.engine.maxDepthReached, visits := s.visits }

@[simp] theorem node_world (s : Search) : s.node.world = s.engine.world := rfl

theorem ledger_countInterleaving (s : Search) :
    s.countInterleaving.ledger = s.ledger.countInterleaving s.node := rfl

theorem ledger_reportDeadlock (s : Search) :
    s.reportDeadlock.ledger = s.ledger.reportDeadlock s.node := rfl

theorem ledger_reportViolation (s : Search) :
    s.reportViolation.ledger = s.ledger.reportViolation s.node := rfl

theorem ledger_reportDepth (s : Search) (depth : Nat) :
    (s.reportDepth depth).ledger = s.ledger.reportDepth s.node depth := rfl

theorem ledger_countCached (s : Search) : s.countCached.ledger = s.ledger.countCached s.node := rfl

theorem ledger_countState (s : Search) : s.countState.ledger = s.ledger.countState s.node := rfl

theorem ledger_restoreEngine (s : Search) (depth : Nat) :
    (s.restoreEngine depth).ledger = s.ledger := rfl

theorem stopped_ledger (s : Search) (cfg : Config) : s.ledger.stopped cfg = s.stopped cfg := rfl

theorem enough_ledger (s : Search) (cfg : Config) : s.ledger.enough cfg = s.enough cfg := rfl

/-- `s₁` is where `s` is, with the ledger `l`: only what a restore does not touch has changed. -/
structure SameNode (s s₁ : Search) (l : Ledger) : Prop where
  ledger : s₁.ledger = l
  node : s₁.node = s.node
  failed : s₁.engine.failed = s.engine.failed
  saveStack : s₁.saveStack = s.saveStack

theorem sameNode_countPruned (s : Search) (cfg : Config) (depth : Nat) (tid : Int) :
    SameNode s (s.countPruned cfg depth tid) (s.ledger.countPruned cfg depth tid) := by
  unfold countPruned Ledger.countPruned
  by_cases h : (cfg.enableDpor && s.dpor.sleepContains depth tid) = true
  · have h' : (cfg.enableDpor && s.ledger.dpor.sleepContains depth tid) = true := h
    rw [if_pos h, if_pos h']
    exact ⟨rfl, rfl, rfl, rfl⟩
  · have h' : ¬ (cfg.enableDpor && s.ledger.dpor.sleepContains depth tid) = true := h
    rw [if_neg h, if_neg h']
    exact ⟨rfl, rfl, rfl, rfl⟩

theorem sameNode_sleep (s : Search) (cfg : Config) (depth : Nat) (tid : Int) :
    SameNode s (s.sleep cfg depth tid) (s.ledger.sleep cfg depth tid) := by
  unfold sleep Ledger.sleep
  split <;> exact ⟨rfl, rfl, rfl, rfl⟩

theorem sameNode_propagate (s : Search) (cfg : Config) (depth : Nat) (runnable : List Int) :
    SameNode s (s.propagate cfg depth runnable) (s.ledger.propagate cfg depth runnable) := by
  unfold propagate Ledger.propagate
  split <;> exact ⟨rfl, rfl, rfl, rfl⟩

theorem sameNode_cacheMark (s : Search) (sc : Scenario) (cfg : Config) :
    SameNode s (s.cacheMark sc cfg) (s.ledger.cacheMark sc cfg s.engine.world) := by
  unfold cacheMark Ledger.cacheMark
  split <;> exact ⟨rfl, rfl, rfl, rfl⟩

/-! ### One step down -/

/-- Recording and executing a choice is the step of the node, whatever the ledger. -/
theorem node_execute (s : Search) (sc : Scenario) (tid : Int) :
    ((s.recordChoice tid).execute sc tid).node = s.node.step sc tid := by
  unfold recordChoice Saved.step
  by_cases hc : s.engine.trace.schedule.count < smashMaxDepth
  · have hc' : s.node.trace.schedule.count < smashMaxDepth := hc
    simp only [if_pos hc, if_pos hc']
    rfl
  · have hc' : ¬ s.node.trace.schedule.count < smashMaxDepth := hc
    simp only [if_neg hc, if_neg hc']
    rfl

theorem execute_rest (s : Search) (sc : Scenario) (tid : Int) :
    ((s.recordChoice tid).execute sc tid).ledger = s.ledger ∧
      ((s.recordChoice tid).execute sc tid).saveStack = s.saveStack ∧
      ((s.recordChoice tid).execute sc tid).engine.failed =
        (s.engine.failed || (s.engine.world.executeStep sc tid).fault.isSome) := by
  unfold recordChoice
  split <;> exact ⟨rfl, rfl, rfl⟩

section descend

variable (sc : Scenario) (cfg : Config) (depth : Nat) (tid : Int) (s : Search)

theorem descend_node : (s.descend sc cfg depth tid).node = s.node.step sc tid := by
  rw [descend, node_execute]
  exact congrArg (fun n => Saved.step sc n tid) (sameNode_sleep s cfg depth tid).node

theorem descend_ledger : (s.descend sc cfg depth tid).ledger = s.ledger.sleep cfg depth tid := by
  rw [descend, (execute_rest _ sc tid).1]
  exact (sameNode_sleep s cfg depth tid).ledger

theorem descend_saveStack :
    (s.descend sc cfg depth tid).saveStack = Function.update s.saveStack depth s.node := by
  have hsame := sameNode_sleep s cfg depth tid
  rw [descend, (execute_rest _ sc tid).2.1, saveEngine, hsame.saveStack]
  exact congrArg (Function.update s.saveStack depth) hsame.node

/-- The child is a bug exactly when the step fails in the live state. -/
theorem descend_bug (h : s.engine.failed = false) :
    (s.descend sc cfg depth tid).bug sc = stepFails sc s.engine.world tid := by
  have hsame := sameNode_sleep s cfg depth tid
  have hworld : (s.descend sc cfg depth tid).engine.world
      = (s.engine.world.executeStep sc tid).world :=
    congrArg Saved.world (descend_node sc cfg depth tid s)
  have hfailed : (s.descend sc cfg depth tid).engine.failed
      = (s.engine.world.executeStep sc tid).fault.isSome := by
    have hsleep : (s.sleep cfg depth tid).engine.world = s.engine.world :=
      congrArg Saved.world hsame.node
    rw [descend, (execute_rest _ sc tid).2.2]
    show ((s.sleep cfg depth tid).engine.failed ||
      ((s.sleep cfg depth tid).engine.world.executeStep sc tid).fault.isSome) = _
    rw [hsame.failed, h, hsleep, Bool.false_or]
  rw [bug, hworld, hfailed]
  rfl

end descend

/-- A child is entered with the `failed` flag clear. -/
theorem failed_of_not_bug {sc : Scenario} {s : Search} (h : ¬ s.bug sc = true) : s.engine.failed = false := by
  rw [Bool.not_eq_true, bug, Bool.or_eq_false_iff] at h
  exact h.1

/-- A restore from the cell a step was saved in brings the parent back. -/
theorem node_restoreEngine {s s' : Search} {depth : Nat} (h : s'.saveStack depth = s.node) :
    (s'.restoreEngine depth).node = s.node := by
  simp only [restoreEngine, node] at h ⊢
  rw [h]

/-- Whatever has happened below: if the cells up to `depth` are still those of the step down, a restore from
the last of them brings the parent back, with its cells. -/
theorem restore_of_descend (sc : Scenario) (cfg : Config) (tid : Int) (s s' : Search) {depth : Nat}
    (hstack : ∀ k < depth + 1, s'.saveStack k = (s.descend sc cfg depth tid).saveStack k) :
    (s'.restoreEngine depth).node = s.node ∧
      ∀ k < depth, (s'.restoreEngine depth).saveStack k = s.saveStack k := by
  constructor
  · refine node_restoreEngine ?_
    rw [hstack depth (Nat.lt_succ_self depth), descend_saveStack, Function.update_self]
  · intro k hk
    show s'.saveStack k = s.saveStack k
    rw [hstack k (Nat.lt_succ_of_lt hk), descend_saveStack, Function.update_of_ne (Nat.ne_of_lt hk)]

/-! ### The simulation -/

/-- `s'` is where a part of the search that started at `s`, at `depth`, stops: it has kept the
ledger `l` and left the stack below alone. -/
structure Follows (depth : Nat) (s s' : Search) (l : Ledger) : Prop where
  ledger : s'.ledger = l
  saveStack : ∀ k < depth, s'.saveStack k = s.saveStack k

theorem Follows.after {depth : Nat} {s s₁ s' : Search} {l : Ledger} (h : Follows depth s₁ s' l)
    (hstack : ∀ k < depth, s₁.saveStack k = s.saveStack k) : Follows depth s s' l :=
  ⟨h.ledger, fun k hk => (h.saveStack k hk).trans (hstack k hk)⟩

theorem exploreLoop_follows {sc : Scenario} {cfg : Config} {depth : Nat}
    {recurse : Search → Search} {recurse' : Saved → Ledger → Ledger}
    (hrec : ∀ s : Search, s.engine.failed = false →
      Follows (depth + 1) s (recurse s) (recurse' s.node s.ledger))
    (n : Saved) (tried : Finset Int) (rest : List Int) (s : Search) (hn : s.node = n)
    (hs : s.engine.failed = false) :
    Follows depth s
      (exploreLoop sc cfg recurse depth (collectRunnable sc n.world smashMaxThreads) tried rest s)
      (walkLoop sc cfg recurse' depth n tried rest s.ledger) := by
  induction rest generalizing s with
  | nil => exact ⟨rfl, fun _ _ => rfl⟩
  | cons tid rest ih =>
    rw [exploreLoop, walkLoop]
    by_cases htried : tid ∉ tried
    · -- Passed over: only a counter moves.
      have hsame := sameNode_countPruned s cfg depth tid
      rw [if_pos htried, if_pos htried, ← hsame.ledger]
      exact (ih _ (hsame.node.trans hn) (hsame.failed.trans hs)).after fun k _ => by
        rw [hsame.saveStack]
    · rw [if_neg htried, if_neg htried]
      have hdown : (s.descend sc cfg depth tid).node = n.step sc tid := by rw [descend_node, hn]
      have hledger := descend_ledger sc cfg depth tid s
      have hbug : (s.descend sc cfg depth tid).bug sc = stepFails sc n.world tid := by
        rw [descend_bug sc cfg depth tid s hs, ← hn]; rfl
      simp only [hbug]
      by_cases hfail : stepFails sc n.world tid = true
      · simp only [hfail, if_true]
        have hback : ((s.descend sc cfg depth tid).reportViolation.restoreEngine depth).ledger
            = (s.ledger.sleep cfg depth tid).reportViolation (n.step sc tid) := by
          rw [ledger_restoreEngine, ledger_reportViolation, hdown, hledger]
        obtain ⟨hnode, hkeep⟩ := restore_of_descend sc cfg tid s
          (s.descend sc cfg depth tid).reportViolation fun _ _ => rfl
        by_cases hstop : cfg.stopOnFirstBug = true
        · rw [if_pos hstop, if_pos hstop]
          exact ⟨hback, hkeep⟩
        · rw [if_neg hstop, if_neg hstop, ← hback]
          exact (ih _ (hnode.trans hn) rfl).after hkeep
      · simp only [hfail, Bool.false_eq_true, if_false]
        have hok : (s.descend sc cfg depth tid).engine.failed = false :=
          failed_of_not_bug (by rw [hbug]; exact hfail)
        have hrec' := hrec _ hok
        have hpass := sameNode_propagate (recurse (s.descend sc cfg depth tid)) cfg depth
          (collectRunnable sc n.world smashMaxThreads)
        rw [hrec'.ledger, hdown, hledger] at hpass
        generalize (recurse (s.descend sc cfg depth tid)).propagate cfg depth
          (collectRunnable sc n.world smashMaxThreads) = passed at hpass ⊢
        -- The child has written no cell up to `depth`.
        obtain ⟨hnode, hkeep⟩ := restore_of_descend sc cfg tid s passed fun k hk => by
          rw [hpass.saveStack, hrec'.saveStack k hk]
        rw [← hpass.ledger, ← ledger_restoreEngine passed depth, stopped_ledger]
        by_cases hstop : (passed.restoreEngine depth).stopped cfg = true
        · rw [if_pos hstop, if_pos hstop]
          exact ⟨rfl, hkeep⟩
        · rw [if_neg hstop, if_neg hstop]
          exact (ih _ (hnode.trans hn) rfl).after hkeep

theorem exploreNode_follows {sc : Scenario} {cfg : Config} {depth : Nat}
    {recurse : Search → Search} {recurse' : Saved → Ledger → Ledger}
    (hrec : ∀ s : Search, s.engine.failed = false →
      Follows (depth + 1) s (recurse s) (recurse' s.node s.ledger))
    (s : Search) (hs : s.engine.failed = false) :
    Follows depth s (exploreNode sc cfg recurse depth s)
      (walkNode sc cfg recurse' depth s.node s.ledger) := by
  unfold exploreNode walkNode
  have hhit : s.ledger.cacheHit sc cfg s.node.world = s.cacheHit sc cfg := rfl
  rw [hhit, node_world]
  by_cases hdone : allDone sc s.engine.world = true
  · rw [if_pos hdone, if_pos hdone]
    exact ⟨ledger_countInterleaving s, fun _ _ => rfl⟩
  rw [if_neg hdone, if_neg hdone]
  by_cases hstuck : collectRunnable sc s.engine.world smashMaxThreads = []
  · simp only [if_pos hstuck]
    exact ⟨ledger_reportDeadlock s, fun _ _ => rfl⟩
  simp only [if_neg hstuck]
  by_cases hcached : s.cacheHit sc cfg = true
  · rw [if_pos hcached, if_pos hcached]
    exact ⟨ledger_countCached s, fun _ _ => rfl⟩
  · rw [if_neg hcached, if_neg hcached]
    have hmark := sameNode_cacheMark s sc cfg
    generalize s.cacheMark sc cfg = marked at hmark ⊢
    have hworld : marked.engine.world = s.engine.world := congrArg Saved.world hmark.node
    have hset : exploreSet sc cfg depth (collectRunnable sc s.engine.world smashMaxThreads)
        marked.countState = marked.countState.ledger.tried sc cfg depth s.engine.world := by
      unfold exploreSet Ledger.tried
      rw [← hworld]
      rfl
    rw [hset, ledger_countState, hmark.ledger, hmark.node, ← hmark.ledger, ← hmark.node,
      ← ledger_countState, hmark.node]
    exact (exploreLoop_follows hrec s.node _ _ marked.countState hmark.node
      (hmark.failed.trans hs)).after fun k _ => by
        show marked.saveStack k = _
        rw [hmark.saveStack]

/-- **The machine keeps the walk's ledger**, and the stack below its depth. -/
theorem exploreDfs_follows (sc : Scenario) (cfg : Config) (room depth : Nat) (s : Search)
    (hs : s.engine.failed = false) :
    Follows depth s (exploreDfs sc cfg room depth s) (walk sc cfg room depth s.node s.ledger) := by
  induction room generalizing depth s with
  | zero =>
    rw [exploreDfs, walk, stopped_ledger, enough_ledger]
    split
    · exact ⟨rfl, fun _ _ => rfl⟩
    · exact ⟨rfl, fun _ _ => rfl⟩
  | succ room ih =>
    rw [exploreDfs, walk, stopped_ledger, enough_ledger]
    split
    · exact ⟨rfl, fun _ _ => rfl⟩
    split
    · exact ⟨ledger_reportDepth s depth, fun _ _ => rfl⟩
    · exact exploreNode_follows (fun s' hs' => ih (depth + 1) s' hs') s hs

end Search

/-! ## From the top -/

/-- The node every exploration starts from. -/
def rootNode (sc : Scenario) : Saved :=
  { world := startWorld sc, trace := Engine.zero.trace.reset, stepCounter := 0 }

def Ledger.init : Ledger :=
  { result := .zero, dpor := .reset, table := .empty, maxDepthReached := 0, visits := [] }

/-- The ledger of a whole exploration. -/
def exploreLedger (sc : Scenario) (cfg : Config) : Ledger :=
  walk sc cfg.clamp smashMaxDepth 0 (rootNode sc) .init

theorem engineInit_of_valid {sc : Scenario} (hv : sc.Valid) : engineInit sc = Engine.zero.reset sc := by
  unfold engineInit
  rw [show scenarioValidate sc = none from hv]

/-- **What `smash_explore` computes is what the walk computes**, whatever an earlier exploration
left in the save stack. -/
theorem exploreSearch_ledger {sc : Scenario} (hv : sc.Valid) (cfg : Config) (stack : Nat → Saved) :
    (exploreSearch sc cfg stack).ledger = exploreLedger sc cfg := by
  have hinit : (searchInit sc stack).engine = Engine.zero.reset sc := engineInit_of_valid hv
  have hfollows := Search.exploreDfs_follows sc cfg.clamp smashMaxDepth 0 (searchInit sc stack)
    (by rw [hinit]; rfl)
  have hnode : (searchInit sc stack).node = rootNode sc := by
    simp only [Search.node, hinit]; rfl
  have hledger : (searchInit sc stack).ledger = .init := by
    simp only [Search.ledger, hinit]; rfl
  rw [hnode, hledger] at hfollows
  exact hfollows.ledger

theorem explore_eq {sc : Scenario} (hv : sc.Valid) (cfg : Config) (stack : Nat → Saved) :
    explore sc cfg stack = { (exploreLedger sc cfg).result with
      maxDepthReached := (exploreLedger sc cfg).maxDepthReached } := by
  have hnone : (scenarioValidate sc).isSome = false := by
    rw [show scenarioValidate sc = none from hv]; rfl
  rw [explore, hnone, ← exploreSearch_ledger hv cfg stack]
  rfl

theorem exploreSearch_visits {sc : Scenario} (hv : sc.Valid) (cfg : Config) (stack : Nat → Saved) :
    (exploreSearch sc cfg stack).visits = (exploreLedger sc cfg).visits :=
  congrArg Ledger.visits (exploreSearch_ledger hv cfg stack)

theorem explore_maxDepthReached {sc : Scenario} (hv : sc.Valid) (cfg : Config) (stack : Nat → Saved) :
    (explore sc cfg stack).maxDepthReached = (exploreLedger sc cfg).maxDepthReached := by
  rw [explore_eq hv]

end Smash
