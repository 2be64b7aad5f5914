import Smash.Model.Dpor
import Smash.Model.Spec
import Smash.Model.State

/-!
# The exploration (`explorer.c`)

`explore_dfs` walks one engine through the tree of schedules, saving it in a stack cell before a
step and restoring it after. The model passes all of what it mutates (the engine, the result, the
sleep sets, the save stack) in one `Search`.

* The recursion is structural on `room = SMASH_MAX_DEPTH - depth`. No room left is exactly the
  "hard guard on save-stack bounds".
* The loop over `runnable` is `exploreLoop`, with the recursive call as a parameter.
* `max_interleavings` is `none` for `UINT64_MAX`, the value a zero is replaced by.
* What is printed under `verbose`, the elapsed time and `malloc` returning `NULL` are left out.

`Search.visits` is not in the source. It records every node the search enters or passes over, with
the state and the schedule there, so that a result can say what the search has seen.
-/

set_option autoImplicit false

namespace Smash

/-! ## The search's data -/

/-- `smash_config_t`. -/
structure Config where
  enableDpor : Bool
  enableStateCaching : Bool
  maxDepth : Int
  maxInterleavings : Option Nat
  stopOnFirstBug : Bool
  deriving DecidableEq

/-- `SMASH_CONFIG_DEFAULT`. -/
def Config.default : Config :=
  { enableDpor := true
    enableStateCaching := true
    maxDepth := smashMaxDepth
    maxInterleavings := none
    stopOnFirstBug := true }

/-- `smash_result_t`. -/
structure Result where
  interleavings : Nat
  states : Nat
  cachePruned : Nat
  dporPruned : Nat
  sleepPruned : Nat
  deadlocks : Nat
  violations : Nat
  failingTrace : Option Trace
  maxDepthReached : Nat

def Result.zero : Result :=
  { interleavings := 0, states := 0, cachePruned := 0, dporPruned := 0, sleepPruned := 0
    deadlocks := 0, violations := 0, failingTrace := none, maxDepthReached := 0 }

/-- `saved_state_t`. -/
structure Saved where
  world : World
  trace : Trace
  stepCounter : Nat

/-- What becomes of a node of the search. -/
inductive VisitKind where
  /-- All threads are DONE. -/
  | interleaving
  | deadlock
  /-- The step into the node failed, or a check failed on it. -/
  | violation
  /-- The hard guard, `depth >= SMASH_MAX_DEPTH`. -/
  | hardGuard
  /-- The guard on the configured depth. -/
  | depthLimit
  | cached
  /-- The node's threads are tried in turn. -/
  | expanded
  deriving DecidableEq

/-- A node of the search: what became of it, the schedule that led there, the live state. -/
structure Visit where
  kind : VisitKind
  schedule : List Int
  world : World

structure Search where
  engine : Engine
  result : Result
  dpor : Dpor
  saveStack : Nat → Saved
  visits : List Visit

namespace Search

/-! ## The pieces of `explore_dfs` -/

/-- Record the node the engine is at. -/
def visit (s : Search) (kind : VisitKind) : Search :=
  { s with visits := s.visits ++ [⟨kind, s.engine.trace.schedule.toList, s.engine.world⟩] }

/-- `save_engine`. -/
def saveEngine (s : Search) (depth : Nat) : Search :=
  { s with
    saveStack := Function.update s.saveStack depth
      ⟨s.engine.world, s.engine.trace, s.engine.stepCounter⟩ }

/-- `restore_engine`. -/
def restoreEngine (s : Search) (depth : Nat) : Search :=
  { s with
    engine := { s.engine with
      world := (s.saveStack depth).world
      trace := (s.saveStack depth).trace
      stepCounter := (s.saveStack depth).stepCounter
      failed := false
      failMsg := "" } }

/-- `if (!result->failing_trace)`: keep the trace of the first bug. -/
def keepTrace (s : Search) : Search :=
  { s with result := { s.result with
      failingTrace := s.result.failingTrace.or (some s.engine.trace) } }

/-- A leaf at which every thread is DONE. -/
def countInterleaving (s : Search) : Search :=
  let s := s.visit .interleaving
  { s with result := { s.result with interleavings := s.result.interleavings + 1 } }

/-- A leaf at which no thread is READY: count it, log it, keep the trace. -/
def reportDeadlock (s : Search) : Search :=
  let s := s.visit .deadlock
  let s := { s with result := { s.result with deadlocks := s.result.deadlocks + 1 } }
  let s := { s with engine := { s.engine with
    trace := s.engine.trace.log s.engine.stepCounter ⟨.deadlock, -1, -1, 0⟩ } }
  s.keepTrace

/-- A step that failed, or after which a check fails. -/
def reportViolation (s : Search) : Search :=
  let s := s.visit .violation
  let s := { s with result := { s.result with violations := s.result.violations + 1 } }
  s.keepTrace

/-- The depth guard that leaves a mark. -/
def reportDepth (s : Search) (depth : Nat) : Search :=
  let s := s.visit .depthLimit
  { s with engine := { s.engine with
    maxDepthReached := if s.engine.maxDepthReached < depth then depth else s.engine.maxDepthReached } }

/-- `trace.schedule[schedule_len++] = tid`, while there is space. -/
def recordChoice (s : Search) (tid : Int) : Search :=
  if s.engine.trace.schedule.count < smashMaxDepth then
    { s with engine := { s.engine with trace := { s.engine.trace with
        schedule := s.engine.trace.schedule.push tid } } }
  else s

/-- The counter of a runnable thread that is not tried. -/
def countPruned (s : Search) (cfg : Config) (depth : Nat) (tid : Int) : Search :=
  if cfg.enableDpor && s.dpor.sleepContains depth tid then
    { s with result := { s.result with sleepPruned := s.result.sleepPruned + 1 } }
  else
    { s with result := { s.result with dporPruned := s.result.dporPruned + 1 } }

/-- `stop_on_first_bug`, with a bug found. -/
def stopped (s : Search) (cfg : Config) : Bool :=
  s.result.failingTrace.isSome && cfg.stopOnFirstBug

/-- `result->interleavings >= config->max_interleavings`. -/
def enough (s : Search) (cfg : Config) : Bool :=
  match cfg.maxInterleavings with
  | none => false
  | some n => n ≤ s.result.interleavings

/-- "Add thread to sleep set BEFORE exploring." -/
def sleep (s : Search) (cfg : Config) (depth : Nat) (tid : Int) : Search :=
  if cfg.enableDpor then { s with dpor := s.dpor.sleepAdd depth tid } else s

/-- "Propagate sleep set to next depth", after the recursive call. -/
def propagate (s : Search) (cfg : Config) (depth : Nat) (runnable : List Int) : Search :=
  if cfg.enableDpor then { s with dpor := s.dpor.sleepPropagate depth runnable } else s

def execute (s : Search) (sc : Scenario) (tid : Int) : Search :=
  { s with engine := s.engine.executeStep sc tid }

/-- From a node to the one below it. -/
def descend (sc : Scenario) (cfg : Config) (depth : Nat) (tid : Int) (s : Search) : Search :=
  (((s.sleep cfg depth tid).saveEngine depth).recordChoice tid).execute sc tid

/-- The step set `failed`, or a check fails on the state it left. -/
def bug (sc : Scenario) (s : Search) : Bool :=
  s.engine.failed || (checkAll sc s.engine.world).isSome

/-- Whether the state caching has met the state before. -/
def cacheHit (s : Search) (sc : Scenario) (cfg : Config) : Bool :=
  cfg.enableStateCaching && s.engine.table.visited (stateHash (captureState sc s.engine.world))

/-- Enter a state the caching has not met into the table. -/
def cacheMark (s : Search) (sc : Scenario) (cfg : Config) : Search :=
  if cfg.enableStateCaching then
    { s with engine := { s.engine with
        table := (s.engine.table.markVisited (stateHash (captureState sc s.engine.world))).1 } }
  else s

/-- `result->cache_pruned++`. -/
def countCached (s : Search) : Search :=
  let s := s.visit .cached
  { s with result := { s.result with cachePruned := s.result.cachePruned + 1 } }

/-- `result->states++`. -/
def countState (s : Search) : Search :=
  let s := s.visit .expanded
  { s with result := { s.result with states := s.result.states + 1 } }

end Search

/-! ## The recursion -/

/-- The threads a node tries. -/
def exploreSet (sc : Scenario) (cfg : Config) (depth : Nat) (runnable : List Int) (s : Search) :
    Finset Int :=
  if cfg.enableDpor then
    (computePersistentSet sc s.engine.world runnable).filter fun tid =>
      ¬ s.dpor.sleepContains depth tid
  else runnable.toFinset

/-- The loop over the runnable threads of a node. -/
def exploreLoop (sc : Scenario) (cfg : Config) (recurse : Search → Search) (depth : Nat)
    (runnable : List Int) (tried : Finset Int) : List Int → Search → Search
  | [], s => s
  | tid :: rest, s =>
    if tid ∉ tried then
      exploreLoop sc cfg recurse depth runnable tried rest (s.countPruned cfg depth tid)
    else
      let below := s.descend sc cfg depth tid
      if below.bug sc then
        let back := below.reportViolation.restoreEngine depth
        if cfg.stopOnFirstBug then back
        else exploreLoop sc cfg recurse depth runnable tried rest back
      else
        let back := ((recurse below).propagate cfg depth runnable).restoreEngine depth
        if back.stopped cfg then back
        else exploreLoop sc cfg recurse depth runnable tried rest back

/-- What `explore_dfs` does with a node once the two depth guards have let it pass. -/
def exploreNode (sc : Scenario) (cfg : Config) (recurse : Search → Search) (depth : Nat)
    (s : Search) : Search :=
  if allDone sc s.engine.world then s.countInterleaving
  else
    let runnable := collectRunnable sc s.engine.world smashMaxThreads
    if runnable = [] then s.reportDeadlock
    else if s.cacheHit sc cfg then s.countCached
    else
      let s := (s.cacheMark sc cfg).countState
      exploreLoop sc cfg recurse depth runnable (exploreSet sc cfg depth runnable s) runnable s

/-- `explore_dfs`, at `depth = SMASH_MAX_DEPTH - room`. -/
def exploreDfs (sc : Scenario) (cfg : Config) : Nat → Nat → Search → Search
  | 0, _, s =>
    if s.stopped cfg || s.enough cfg then s else s.visit .hardGuard
  | room + 1, depth, s =>
    if s.stopped cfg || s.enough cfg then s
    else if cfg.maxDepth ≤ depth then s.reportDepth depth
    else exploreNode sc cfg (exploreDfs sc cfg room (depth + 1)) depth s

/-- The clamps of `smash_explore`. -/
def Config.clamp (cfg : Config) : Config :=
  { cfg with
    maxDepth := if cfg.maxDepth ≤ 0 ∨ (smashMaxDepth : Int) < cfg.maxDepth then smashMaxDepth else cfg.maxDepth
    maxInterleavings := if cfg.maxInterleavings = some 0 then none else cfg.maxInterleavings }

/-- The search `smash_explore` starts. The save stack and the sleep sets are globals: the sleep sets
are reset, the stack holds what an earlier call left in it. -/
def searchInit (sc : Scenario) (stack : Nat → Saved) : Search :=
  { engine := engineInit sc, result := .zero, dpor := .reset, saveStack := stack, visits := [] }

/-- The search `smash_explore` runs on a scenario it accepts. -/
def exploreSearch (sc : Scenario) (cfg : Config) (stack : Nat → Saved) : Search :=
  exploreDfs sc cfg.clamp smashMaxDepth 0 (searchInit sc stack)

/-- `smash_explore`. -/
def explore (sc : Scenario) (cfg : Config) (stack : Nat → Saved) : Result :=
  if (scenarioValidate sc).isSome then
    { Result.zero with
      violations := 1
      failingTrace := some (Engine.zero.trace.reset.log 0 ⟨.invariantFail, -1, -1, 0⟩) }
  else
    let s := exploreSearch sc cfg stack
    { s.result with maxDepthReached := s.engine.maxDepthReached }

end Smash
