import Smash.Proof.Walk

/-!
# Backtracking restores the engine

The whole recursion of `explore_dfs` shares one engine and one save stack, and a call returns in many places.
`Restored` is what they have in common: threads, resources, step counter and the `failed` flag are as the call
found them, and so are the cells of the stack below its depth. A child only writes cells above, so the cell
that its parent was saved in is intact when the parent is restored from it (`restored_restoreEngine`); the
loop goes from restored engine to restored engine, and the leaves write none of these.

The trace is not among them: a call that ends in a deadlock leaves an `EVT_DEADLOCK` in it, and it is the
caller's restore that takes that out.
-/

set_option autoImplicit false

namespace Smash

variable {sc : Scenario} {cfg : Config} {depth : Nat}

/-! ## The calls of an exploration -/

/-- A call of `explore_dfs`: its depth, the search that it finds and the one that it leaves. -/
structure DfsCall where
  depth : Nat
  entry : Search
  exit : Search

/-- The calls that the loop over the runnable threads makes; `calls` are those that a child makes, itself
included. -/
def loopCalls (sc : Scenario) (cfg : Config) (recurse : Search → Search) (calls : Search → List DfsCall)
    (depth : Nat) (runnable : List Int) (tried : Finset Int) : List Int → Search → List DfsCall
  | [], _ => []
  | tid :: rest, s =>
    if tid ∉ tried then
      loopCalls sc cfg recurse calls depth runnable tried rest (s.countPruned cfg depth tid)
    else
      let below := s.descend sc cfg depth tid
      if below.bug sc then
        if cfg.stopOnFirstBug then []
        else loopCalls sc cfg recurse calls depth runnable tried rest
          (below.reportViolation.restoreEngine depth)
      else
        let back := ((recurse below).propagate cfg depth runnable).restoreEngine depth
        calls below ++
          if back.stopped cfg then []
          else loopCalls sc cfg recurse calls depth runnable tried rest back

/-- The calls that a node inside the depth bounds makes. -/
def nodeCalls (sc : Scenario) (cfg : Config) (recurse : Search → Search) (calls : Search → List DfsCall)
    (depth : Nat) (s : Search) : List DfsCall :=
  if allDone sc s.engine.world then []
  else
    let runnable := collectRunnable sc s.engine.world smashMaxThreads
    if runnable = [] then []
    else if s.cacheHit sc cfg then []
    else
      let s := (s.cacheMark sc cfg).countState
      loopCalls sc cfg recurse calls depth runnable (exploreSet sc cfg depth runnable s) runnable s

/-- A call of `explore_dfs`, and all that it makes. -/
def dfsCalls (sc : Scenario) (cfg : Config) : Nat → Nat → Search → List DfsCall
  | 0, depth, s => [⟨depth, s, exploreDfs sc cfg 0 depth s⟩]
  | room + 1, depth, s =>
    ⟨depth, s, exploreDfs sc cfg (room + 1) depth s⟩ ::
      if s.stopped cfg || s.enough cfg then []
      else if cfg.maxDepth ≤ depth then []
      else nodeCalls sc cfg (exploreDfs sc cfg room (depth + 1)) (dfsCalls sc cfg room (depth + 1)) depth s

/-- The calls of `explore_dfs` that `smash_explore` makes on a scenario it accepts. -/
def exploreCalls (sc : Scenario) (cfg : Config) (stack : Nat → Saved) : List DfsCall :=
  dfsCalls sc cfg.clamp smashMaxDepth 0 (searchInit sc stack)

theorem mem_dfsCalls (sc : Scenario) (cfg : Config) (room depth : Nat) (s : Search) :
    ⟨depth, s, exploreDfs sc cfg room depth s⟩ ∈ dfsCalls sc cfg room depth s := by
  cases room with
  | zero => exact List.mem_singleton.mpr rfl
  | succ room => exact List.mem_cons_self

/-- The first of the calls is the whole search. -/
theorem exploreSearch_mem (sc : Scenario) (cfg : Config) (stack : Nat → Saved) :
    ⟨0, searchInit sc stack, exploreSearch sc cfg stack⟩ ∈ exploreCalls sc cfg stack :=
  mem_dfsCalls sc cfg.clamp smashMaxDepth 0 (searchInit sc stack)

/-- No call is missed: what the loop computes depends on nothing else. -/
theorem exploreLoop_calls {recurse recurse' : Search → Search} {runnable : List Int} {tried : Finset Int}
    {rest : List Int} {s : Search}
    (h : ∀ c ∈ loopCalls sc cfg recurse (fun s => [⟨depth + 1, s, recurse s⟩]) depth runnable tried rest s,
      recurse' c.entry = c.exit) :
    exploreLoop sc cfg recurse' depth runnable tried rest s
      = exploreLoop sc cfg recurse depth runnable tried rest s := by
  induction rest generalizing s with
  | nil => rfl
  | cons tid rest ih =>
    rw [loopCalls] at h
    rw [exploreLoop, exploreLoop]
    by_cases htried : tid ∉ tried
    · rw [if_pos htried] at h ⊢
      rw [if_pos htried]
      exact ih h
    rw [if_neg htried] at h ⊢
    rw [if_neg htried]
    dsimp only at h ⊢
    by_cases hbug : (s.descend sc cfg depth tid).bug sc = true
    · rw [if_pos hbug] at h ⊢
      rw [if_pos hbug]
      by_cases hstop : cfg.stopOnFirstBug = true
      · rw [if_pos hstop, if_pos hstop]
      · rw [if_neg hstop] at h ⊢
        rw [if_neg hstop]
        exact ih h
    · rw [if_neg hbug] at h ⊢
      rw [if_neg hbug]
      have hhead : recurse' (s.descend sc cfg depth tid) = recurse (s.descend sc cfg depth tid) :=
        h _ (List.mem_append_left _ List.mem_cons_self)
      rw [hhead]
      by_cases hstop : (((recurse (s.descend sc cfg depth tid)).propagate cfg depth runnable).restoreEngine
          depth).stopped cfg = true
      · rw [if_pos hstop, if_pos hstop]
      · rw [if_neg hstop] at h ⊢
        rw [if_neg hstop]
        exact ih fun c hc => h c (List.mem_append_right _ hc)

/-! ## What a call leaves as it was -/

/-- `s'` has the live state, the step counter and the `failed` flag of `s`, and its save stack below
`depth`. -/
structure Restored (depth : Nat) (s s' : Search) : Prop where
  threads : s'.engine.world.threads = s.engine.world.threads
  resources : s'.engine.world.resources = s.engine.world.resources
  stepCounter : s'.engine.stepCounter = s.engine.stepCounter
  failed : s'.engine.failed = s.engine.failed
  saveStack : ∀ k < depth, s'.saveStack k = s.saveStack k

namespace Restored

theorem refl (depth : Nat) (s : Search) : Restored depth s s := ⟨rfl, rfl, rfl, rfl, fun _ _ => rfl⟩

theorem trans {s s₁ s₂ : Search} (h : Restored depth s s₁) (h' : Restored depth s₁ s₂) :
    Restored depth s s₂ where
  threads := h'.threads.trans h.threads
  resources := h'.resources.trans h.resources
  stepCounter := h'.stepCounter.trans h.stepCounter
  failed := h'.failed.trans h.failed
  saveStack k hk := (h'.saveStack k hk).trans (h.saveStack k hk)

theorem of_sameNode {s s₁ : Search} {l : Ledger} (h : s.SameNode s₁ l) : Restored depth s s₁ where
  threads := congrArg (fun n => n.world.threads) h.node
  resources := congrArg (fun n => n.world.resources) h.node
  stepCounter := congrArg Saved.stepCounter h.node
  failed := h.failed
  saveStack k _ := congrFun h.saveStack k

end Restored

/-- **The turn of the loop**: a restore after a step down leaves all as it was before the step. -/
theorem restored_restoreEngine (sc : Scenario) (cfg : Config) (tid : Int) {s s' : Search}
    (hs : s.engine.failed = false)
    (hstack : ∀ k < depth + 1, s'.saveStack k = (s.descend sc cfg depth tid).saveStack k) :
    Restored depth s (s'.restoreEngine depth) := by
  obtain ⟨hnode, hkeep⟩ := Search.restore_of_descend sc cfg tid s s' hstack
  exact ⟨congrArg (fun n => n.world.threads) hnode, congrArg (fun n => n.world.resources) hnode,
    congrArg Saved.stepCounter hnode, hs.symm, hkeep⟩

section

variable {recurse : Search → Search}
  (hrec : ∀ s : Search, s.engine.failed = false → Restored (depth + 1) s (recurse s))
include hrec

/-- The turn that goes into a child and comes back. -/
theorem restored_child {s : Search} {tid : Int} (hs : s.engine.failed = false) (runnable : List Int)
    (hbug : ¬ (s.descend sc cfg depth tid).bug sc = true) :
    Restored depth s
      (((recurse (s.descend sc cfg depth tid)).propagate cfg depth runnable).restoreEngine depth) := by
  refine restored_restoreEngine sc cfg tid hs fun k hk => ?_
  rw [(Search.sameNode_propagate _ cfg depth runnable).saveStack]
  exact (hrec _ (Search.failed_of_not_bug hbug)).saveStack k hk

theorem exploreLoop_restored (runnable : List Int) (tried : Finset Int) (rest : List Int) {s : Search}
    (hs : s.engine.failed = false) :
    Restored depth s (exploreLoop sc cfg recurse depth runnable tried rest s) := by
  induction rest generalizing s with
  | nil => exact .refl depth s
  | cons tid rest ih =>
    rw [exploreLoop]
    by_cases htried : tid ∉ tried
    · rw [if_pos htried]
      have hpassed : Restored depth s (s.countPruned cfg depth tid) :=
        .of_sameNode (Search.sameNode_countPruned s cfg depth tid)
      exact hpassed.trans (ih (hpassed.failed.trans hs))
    rw [if_neg htried]
    dsimp only
    by_cases hbug : (s.descend sc cfg depth tid).bug sc = true
    · rw [if_pos hbug]
      have hback : Restored depth s ((s.descend sc cfg depth tid).reportViolation.restoreEngine depth) :=
        restored_restoreEngine sc cfg tid hs fun _ _ => rfl
      split
      · exact hback
      · exact hback.trans (ih (hback.failed.trans hs))
    · rw [if_neg hbug]
      have hback := restored_child hrec hs runnable hbug
      split
      · exact hback
      · exact hback.trans (ih (hback.failed.trans hs))

theorem exploreNode_restored {s : Search} (hs : s.engine.failed = false) :
    Restored depth s (exploreNode sc cfg recurse depth s) := by
  unfold exploreNode
  split
  · exact ⟨rfl, rfl, rfl, rfl, fun _ _ => rfl⟩
  dsimp only
  split
  · exact ⟨rfl, rfl, rfl, rfl, fun _ _ => rfl⟩
  split
  · exact ⟨rfl, rfl, rfl, rfl, fun _ _ => rfl⟩
  · have hmark : Restored depth s (s.cacheMark sc cfg).countState :=
      (Restored.of_sameNode (Search.sameNode_cacheMark s sc cfg)).trans
        ⟨rfl, rfl, rfl, rfl, fun _ _ => rfl⟩
    exact hmark.trans (exploreLoop_restored hrec _ _ _ (hmark.failed.trans hs))

end

/-- **A call restores what it found**, wherever it returns. -/
theorem exploreDfs_restored (sc : Scenario) (cfg : Config) (room depth : Nat) {s : Search}
    (hs : s.engine.failed = false) : Restored depth s (exploreDfs sc cfg room depth s) := by
  induction room generalizing depth s with
  | zero =>
    rw [exploreDfs]
    split
    · exact .refl depth s
    · exact ⟨rfl, rfl, rfl, rfl, fun _ _ => rfl⟩
  | succ room ih =>
    rw [exploreDfs]
    split
    · exact .refl depth s
    split
    · exact ⟨rfl, rfl, rfl, rfl, fun _ _ => rfl⟩
    · exact exploreNode_restored (fun _ hs' => ih (depth + 1) hs') hs

/-! ## Every call of an exploration -/

/-- A call that found the flag clear and has restored the engine. -/
def DfsCall.Restores (c : DfsCall) : Prop :=
  c.entry.engine.failed = false ∧ Restored c.depth c.entry c.exit

section

variable {recurse : Search → Search} {calls : Search → List DfsCall}
  (hcalls : ∀ s : Search, s.engine.failed = false → ∀ c ∈ calls s, c.Restores)
include hcalls

theorem loopCalls_restore (runnable : List Int) (tried : Finset Int) (rest : List Int) {s : Search}
    (hs : s.engine.failed = false) :
    ∀ c ∈ loopCalls sc cfg recurse calls depth runnable tried rest s, c.Restores := by
  induction rest generalizing s with
  | nil => exact fun c hc => absurd hc List.not_mem_nil
  | cons tid rest ih =>
    rw [loopCalls]
    by_cases htried : tid ∉ tried
    · rw [if_pos htried]
      exact ih ((Search.sameNode_countPruned s cfg depth tid).failed.trans hs)
    rw [if_neg htried]
    dsimp only
    by_cases hbug : (s.descend sc cfg depth tid).bug sc = true
    · rw [if_pos hbug]
      split
      · exact fun c hc => absurd hc List.not_mem_nil
      · exact ih rfl
    · rw [if_neg hbug]
      intro c hc
      rcases List.mem_append.mp hc with hbelow | hrest
      · exact hcalls _ (Search.failed_of_not_bug hbug) c hbelow
      · split at hrest
        · exact absurd hrest List.not_mem_nil
        · exact ih rfl c hrest

theorem nodeCalls_restore {s : Search} (hs : s.engine.failed = false) :
    ∀ c ∈ nodeCalls sc cfg recurse calls depth s, c.Restores := by
  unfold nodeCalls
  split
  · exact fun c hc => absurd hc List.not_mem_nil
  dsimp only
  split
  · exact fun c hc => absurd hc List.not_mem_nil
  split
  · exact fun c hc => absurd hc List.not_mem_nil
  · exact loopCalls_restore hcalls _ _ _ ((Search.sameNode_cacheMark s sc cfg).failed.trans hs)

end

theorem dfsCalls_restore (sc : Scenario) (cfg : Config) (room depth : Nat) {s : Search}
    (hs : s.engine.failed = false) : ∀ c ∈ dfsCalls sc cfg room depth s, c.Restores := by
  induction room generalizing depth s with
  | zero =>
    intro c hc
    rw [dfsCalls, List.mem_singleton] at hc
    subst hc
    exact ⟨hs, exploreDfs_restored sc cfg 0 depth hs⟩
  | succ room ih =>
    intro c hc
    rw [dfsCalls] at hc
    cases hc with
    | head => exact ⟨hs, exploreDfs_restored sc cfg (room + 1) depth hs⟩
    | tail _ hin =>
      split at hin
      · exact absurd hin List.not_mem_nil
      split at hin
      · exact absurd hin List.not_mem_nil
      · exact nodeCalls_restore (fun _ hs' => ih (depth + 1) hs') hs c hin

/-- **Backtracking restores the engine**, in every call of `explore_dfs` that an exploration makes, whatever
its config and whatever an earlier exploration left in the save stack. -/
theorem explore_restores (hv : sc.Valid) (cfg : Config) (stack : Nat → Saved) :
    ∀ c ∈ exploreCalls sc cfg stack, Restored c.depth c.entry c.exit := by
  have hclear : (searchInit sc stack).engine.failed = false := by
    rw [show (searchInit sc stack).engine = Engine.zero.reset sc from engineInit_of_valid hv]
    rfl
  intro c hc
  exact (dfsCalls_restore sc cfg.clamp smashMaxDepth 0 hclear c hc).2

/-- The search of a scenario that can deadlock ends where it began. -/
theorem explore_restores_abba : Restored 0 (searchInit abbaDeadlock fun _ => ⟨.zero, Engine.zero.trace, 0⟩)
    (exploreSearch abbaDeadlock .default fun _ => ⟨.zero, Engine.zero.trace, 0⟩) := by
  have hv : abbaDeadlock.Valid := by decide
  have htop := explore_restores hv .default _ _
    (exploreSearch_mem abbaDeadlock .default fun _ => ⟨.zero, Engine.zero.trace, 0⟩)
  dsimp only at htop
  exact htop

end Smash
