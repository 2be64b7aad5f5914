import Mathlib.Data.List.Chain
import Mathlib.Data.List.Count
import Mathlib.Data.List.Nodup
import Mathlib.Logic.Function.Basic
import Mathlib.Logic.Relation

/-!
# Looking for a cycle with an explicit stack

Depth-first search as C programs write it: an array of marks, an array of "on the stack" flags, and a
stack that holds for each node the neighbours it has still to examine. The search stops at the first
edge back to a node on the stack. It runs from every root in turn and keeps the marks in between.

The results, for any graph on a finite list of nodes:

* `search_lasso`: what is reported is a path whose last node has an edge back into it.
* `search_clear`: when nothing is reported, no infinite walk starts at a root.
* `search_cycle_iff`: so a cycle is reported exactly when the nodes have one.
* `search_ne_stuck`: two units of fuel for each node are enough, so the loop ends by itself.
* `stack_length_le`: at every turn the stack has at most one entry for each node.
-/

set_option autoImplicit false

namespace CycleSearch

variable {α : Type} [DecidableEq α]

/-! ## The search -/

/-- The marks, the flags, and the stack: top first, each node with the neighbours it has not yet
examined. -/
structure State (α : Type) where
  visited : α → Bool
  inStack : α → Bool
  stack : List (α × List α)

/-- Nothing visited. -/
def State.empty : State α := ⟨fun _ => false, fun _ => false, []⟩

/-- How the scan of a node's neighbours ends. -/
inductive Scan (α : Type) where
  | exhausted
  | back (next : α)
  | fresh (next : α) (rest : List α)

/-- Examine the neighbours of `cur` up to one that is on the stack or is not yet visited. -/
def scan (edge : α → α → Bool) (st : State α) (cur : α) : List α → Scan α
  | [] => .exhausted
  | next :: rest =>
    if edge cur next = false then scan edge st cur rest
    else if st.inStack next = true then .back next
    else if st.visited next = true then scan edge st cur rest
    else .fresh next rest

/-- Visit `x`, with all its neighbours to examine. -/
def State.push (nodes : List α) (st : State α) (x : α) : State α where
  visited := Function.update st.visited x true
  inStack := Function.update st.inStack x true
  stack := (x, nodes) :: st.stack

/-- The nodes on the stack, from the bottom. -/
def State.path (st : State α) : List α := (st.stack.map Prod.fst).reverse

/-- How a search ends: at an edge back to `back`, with the stack empty, or out of fuel. -/
inductive Result (α : Type) where
  | cycle (path : List α) (back : α)
  | clear (st : State α)
  | stuck

/-- The loop that runs until the stack is empty. -/
def loop (edge : α → α → Bool) (nodes : List α) : Nat → State α → Result α
  | 0, _ => .stuck
  | fuel + 1, st =>
    match st.stack with
    | [] => .clear st
    | (cur, left) :: below =>
      match scan edge st cur left with
      | .back next => .cycle st.path next
      | .fresh next rest => loop edge nodes fuel ({ st with stack := (cur, rest) :: below }.push nodes next)
      | .exhausted =>
        loop edge nodes fuel { st with inStack := Function.update st.inStack cur false, stack := below }

/-- The loop over the roots. -/
def search (edge : α → α → Bool) (nodes : List α) (root : α → Bool) : List α → State α → Result α
  | [], st => .clear st
  | start :: starts, st =>
    if st.visited start = true ∨ root start = false then search edge nodes root starts st
    else
      match loop edge nodes (2 * nodes.length) (st.push nodes start) with
      | .clear st' => search edge nodes root starts st'
      | r => r

/-- The states at the turns of `loop`. -/
def loopStates (edge : α → α → Bool) (nodes : List α) : Nat → State α → List (State α)
  | 0, _ => []
  | fuel + 1, st =>
    st :: match st.stack with
      | [] => []
      | (cur, left) :: below =>
        match scan edge st cur left with
        | .back _ => []
        | .fresh next rest =>
          loopStates edge nodes fuel ({ st with stack := (cur, rest) :: below }.push nodes next)
        | .exhausted =>
          loopStates edge nodes fuel
            { st with inStack := Function.update st.inStack cur false, stack := below }

/-- The states at the turns of the loops that `search` runs. -/
def searchStates (edge : α → α → Bool) (nodes : List α) (root : α → Bool) :
    List α → State α → List (State α)
  | [], _ => []
  | start :: starts, st =>
    if st.visited start = true ∨ root start = false then searchStates edge nodes root starts st
    else
      loopStates edge nodes (2 * nodes.length) (st.push nodes start) ++
        match loop edge nodes (2 * nodes.length) (st.push nodes start) with
        | .clear st' => searchStates edge nodes root starts st'
        | _ => []

/-! ## What the scan finds -/

variable {edge : α → α → Bool} {nodes : List α} {st : State α}

omit [DecidableEq α] in
theorem scan_back {cur next : α} {left : List α} (h : scan edge st cur left = .back next) :
    edge cur next = true ∧ st.inStack next = true := by
  induction left with
  | nil => exact absurd h (by simp [scan])
  | cons y left ih =>
    rw [scan] at h
    split at h
    · exact ih h
    · rename_i hedge
      split at h
      · rename_i hin
        cases h
        exact ⟨by simpa using hedge, hin⟩
      · split at h
        · exact ih h
        · exact absurd h (by simp)

/-- `y` is visited and off the stack again. -/
def State.Settled (st : State α) (y : α) : Prop := st.visited y = true ∧ st.inStack y = false

omit [DecidableEq α] in
theorem scan_fresh {cur next : α} {left rest : List α}
    (h : scan edge st cur left = .fresh next rest) :
    edge cur next = true ∧ st.visited next = false ∧ next ∈ left ∧ rest ⊆ left ∧
      ∀ y ∈ left, edge cur y = true → y ∈ rest ∨ y = next ∨ st.Settled y := by
  induction left with
  | nil => exact absurd h (by simp [scan])
  | cons y left ih =>
    have hskip : scan edge st cur left = .fresh next rest →
        (edge cur y = true → st.Settled y) →
        edge cur next = true ∧ st.visited next = false ∧ next ∈ y :: left ∧ rest ⊆ y :: left ∧
          ∀ z ∈ y :: left, edge cur z = true → z ∈ rest ∨ z = next ∨ st.Settled z := by
      intro hrec hy
      obtain ⟨hedge, hnew, hmem, hsub, hseen⟩ := ih hrec
      refine ⟨hedge, hnew, List.mem_cons_of_mem _ hmem, fun z hz => List.mem_cons_of_mem _ (hsub hz),
        fun z hz hez => ?_⟩
      rcases List.mem_cons.mp hz with rfl | hz
      · exact .inr (.inr (hy hez))
      · exact hseen z hz hez
    rw [scan] at h
    split at h
    · rename_i hno
      exact hskip h fun hyes => absurd hyes (by simp [hno])
    · rename_i hedge
      split at h
      · exact absurd h (by simp)
      · rename_i hin
        split at h
        · rename_i hvis
          exact hskip h fun _ => ⟨hvis, by simpa using hin⟩
        · rename_i hvis
          cases h
          refine ⟨by simpa using hedge, by simpa using hvis, List.mem_cons_self,
            fun z hz => List.mem_cons_of_mem _ hz, fun z hz _ => ?_⟩
          rcases List.mem_cons.mp hz with rfl | hz
          · exact .inr (.inl rfl)
          · exact .inl hz

omit [DecidableEq α] in
theorem scan_exhausted {cur : α} {left : List α} (h : scan edge st cur left = .exhausted) :
    ∀ y ∈ left, edge cur y = true → st.Settled y := by
  induction left with
  | nil => exact fun _ hy => absurd hy (List.not_mem_nil)
  | cons y left ih =>
    have hskip : scan edge st cur left = .exhausted → (edge cur y = true → st.Settled y) →
        ∀ z ∈ y :: left, edge cur z = true → st.Settled z := by
      intro hrec hy z hz hez
      rcases List.mem_cons.mp hz with rfl | hz
      · exact hy hez
      · exact ih hrec z hz hez
    rw [scan] at h
    split at h
    · rename_i hno
      exact hskip h fun hyes => absurd hyes (by simp [hno])
    · split at h
      · exact absurd h (by simp)
      · rename_i hin
        split at h
        · rename_i hvis
          exact hskip h fun _ => ⟨hvis, by simpa using hin⟩
        · exact absurd h (by simp)

/-! ## The invariant -/

/-- Every walk from `x` inside the nodes ends. -/
def Ends (edge : α → α → Bool) (nodes : List α) (x : α) : Prop :=
  Acc (fun y x => y ∈ nodes ∧ edge x y = true) x

/-- The frames under `above`: each was left along an edge to the one above it, and whatever else it has
examined is settled. -/
def Frames (edge : α → α → Bool) (nodes : List α) (settled : α → Prop) :
    Option α → List (α × List α) → Prop
  | _, [] => True
  | above, (x, left) :: below =>
    x ∈ nodes ∧ left ⊆ nodes ∧ (∀ y, above = some y → edge x y = true) ∧
      (∀ y ∈ nodes, edge x y = true → y ∈ left ∨ above = some y ∨ settled y) ∧
      Frames edge nodes settled (some x) below

omit [DecidableEq α] in
theorem Frames.mono {settled settled' : α → Prop} {above : Option α} {fs : List (α × List α)}
    (h : Frames edge nodes settled above fs) (hs : ∀ y, settled y → settled' y) :
    Frames edge nodes settled' above fs := by
  induction fs generalizing above with
  | nil => trivial
  | cons f fs ih =>
    obtain ⟨hx, hleft, hedge, hseen, hbelow⟩ := h
    exact ⟨hx, hleft, hedge, fun y hy he => (hseen y hy he).imp id (Or.imp id (hs y)), ih hbelow⟩

omit [DecidableEq α] in
/-- When the node above is settled, it need not be named. -/
theorem Frames.drop {settled : α → Prop} {x : α} {fs : List (α × List α)}
    (h : Frames edge nodes settled (some x) fs) (hx : settled x) :
    Frames edge nodes settled none fs := by
  cases fs with
  | nil => trivial
  | cons f fs =>
    obtain ⟨hmem, hleft, _, hseen, hbelow⟩ := h
    refine ⟨hmem, hleft, fun _ hn => absurd hn (by simp), fun y hy he => ?_, hbelow⟩
    rcases hseen y hy he with hl | habove | hs
    · exact .inl hl
    · cases habove
      exact .inr (.inr hx)
    · exact .inr (.inr hs)

omit [DecidableEq α] in
theorem Frames.mem {settled : α → Prop} {above : Option α} {fs : List (α × List α)}
    (h : Frames edge nodes settled above fs) {x : α} (hx : x ∈ fs.map Prod.fst) : x ∈ nodes := by
  induction fs generalizing above with
  | nil => exact absurd hx (List.not_mem_nil)
  | cons f fs ih =>
    obtain ⟨hmem, _, _, _, hbelow⟩ := h
    rcases List.mem_cons.mp hx with rfl | hx
    · exact hmem
    · exact ih hbelow hx

omit [DecidableEq α] in
/-- From the top down, each node is a successor of the next. -/
theorem Frames.chain {settled : α → Prop} {x : α} {left : List α} {fs : List (α × List α)}
    (h : Frames edge nodes settled (some x) fs) :
    List.IsChain (fun a b => edge b a = true) (((x, left) :: fs).map Prod.fst) := by
  induction fs generalizing x left with
  | nil => exact .singleton _
  | cons f fs ih =>
    obtain ⟨_, _, hedge, _, hbelow⟩ := h
    exact .cons_cons (hedge x rfl) (ih hbelow)

/-- What holds at every turn of the loop. -/
structure Inv (edge : α → α → Bool) (nodes : List α) (st : State α) : Prop where
  nodup : (st.stack.map Prod.fst).Nodup
  inStack_iff : ∀ x, st.inStack x = true ↔ x ∈ st.stack.map Prod.fst
  visited : ∀ x, st.inStack x = true → st.visited x = true
  settled : ∀ x, st.Settled x → Ends edge nodes x
  frames : Frames edge nodes st.Settled none st.stack

omit [DecidableEq α] in
theorem Inv.empty : Inv edge nodes (State.empty : State α) where
  nodup := List.nodup_nil
  inStack_iff x := by simp [State.empty]
  visited x hx := absurd hx (by simp [State.empty])
  settled x hx := absurd hx.1 (by simp [State.empty])
  frames := trivial

/-- A node that is visited for the first time; the frames under it may have moved on. -/
theorem Inv.push (h : Inv edge nodes st) {next : α} {stack : List (α × List α)}
    (hmem : next ∈ nodes) (hnew : st.visited next = false)
    (hsame : stack.map Prod.fst = st.stack.map Prod.fst)
    (hframes : Frames edge nodes st.Settled (some next) stack) :
    Inv edge nodes ({ st with stack := stack }.push nodes next) := by
  have hout : next ∉ stack.map Prod.fst := fun hin => by
    have := h.visited _ ((h.inStack_iff _).mpr (hsame ▸ hin))
    rw [hnew] at this
    exact absurd this (by simp)
  have hkeep : ∀ x, ({ st with stack := stack }.push nodes next).Settled x ↔ st.Settled x := by
    intro x
    simp only [State.Settled, State.push, Function.update_apply]
    by_cases hx : x = next
    · subst hx
      simp [hnew]
    · simp [hx]
  refine ⟨List.nodup_cons.mpr ⟨hout, hsame ▸ h.nodup⟩, fun x => ?_, fun x => ?_,
    fun x hx => h.settled x ((hkeep x).mp hx), hmem, List.Subset.refl _,
    fun _ hn => absurd hn (by simp), fun y hy _ => .inl hy,
    hframes.mono fun y hy => (hkeep y).mpr hy⟩
  · simp only [State.push, Function.update_apply, List.map_cons, List.mem_cons]
    split
    · simp [*]
    · rw [h.inStack_iff, hsame]
      simp [*]
  · simp only [State.push, Function.update_apply]
    split
    · exact fun _ => rfl
    · exact h.visited x

/-- A node whose successors are all settled. -/
theorem Inv.pop (h : Inv edge nodes st) {cur : α} {left : List α} {below : List (α × List α)}
    (hstack : st.stack = (cur, left) :: below)
    (hleft : ∀ y ∈ left, edge cur y = true → st.Settled y) :
    Inv edge nodes { st with inStack := Function.update st.inStack cur false, stack := below } := by
  obtain ⟨hnodup, hin, hvisited, hsettled, hframes⟩ := h
  rw [hstack] at hnodup hframes
  simp only [hstack] at hin
  obtain ⟨_, _, _, hseen, hbelow⟩ := hframes
  obtain ⟨hout, hnodup⟩ := List.nodup_cons.mp hnodup
  have hcur : st.visited cur = true := hvisited _ ((hin cur).mpr List.mem_cons_self)
  have hends : Ends edge nodes cur := by
    refine ⟨_, fun y hy => hsettled y ?_⟩
    rcases hseen y hy.1 hy.2 with hl | hn | hs
    · exact hleft y hl hy.2
    · exact absurd hn (by simp)
    · exact hs
  have hkeep : ∀ x, st.Settled x → (⟨st.visited, Function.update st.inStack cur false, below⟩ :
      State α).Settled x := by
    intro x hx
    refine ⟨hx.1, ?_⟩
    simp only [Function.update_apply]
    split
    · rfl
    · exact hx.2
  refine ⟨hnodup, fun x => ?_, fun x => ?_, fun x hx => ?_,
    (hbelow.mono hkeep).drop ⟨hcur, Function.update_self ..⟩⟩
  · simp only [Function.update_apply]
    split
    · subst x
      simpa using hout
    · rw [hin]
      simp [*]
  · simp only [Function.update_apply]
    split
    · exact fun hno => absurd hno (by simp)
    · exact hvisited x
  · obtain ⟨hv, hno⟩ := hx
    by_cases hx : x = cur
    · rw [hx]
      exact hends
    · exact hsettled x ⟨hv, by simpa [Function.update_apply, hx] using hno⟩

/-- The top of the stack moves to an unvisited neighbour. -/
theorem Inv.fresh (h : Inv edge nodes st) {cur next : α} {left rest : List α}
    {below : List (α × List α)} (hstack : st.stack = (cur, left) :: below)
    (hscan : scan edge st cur left = .fresh next rest) :
    Inv edge nodes ({ st with stack := (cur, rest) :: below }.push nodes next) := by
  obtain ⟨hedge, hnew, hmem, hsub, hrest⟩ := scan_fresh hscan
  have hframes := h.frames
  rw [hstack] at hframes
  obtain ⟨hcur, hleft, _, hseen, hbelow⟩ := hframes
  refine h.push (hleft hmem) hnew (by rw [hstack]; rfl)
    ⟨hcur, fun y hy => hleft (hsub hy), fun y hy => ?_, fun y hy he => ?_, hbelow⟩
  · cases hy
    exact hedge
  · rcases hseen y hy he with hl | hn | hs
    · rcases hrest y hl he with hr | rfl | hs
      · exact .inl hr
      · exact .inr (.inl rfl)
      · exact .inr (.inr hs)
    · exact absurd hn (by simp)
    · exact .inr (.inr hs)

/-! ## What is reported -/

/-- A path whose last node has an edge back into it. -/
structure Lasso (edge : α → α → Bool) (path : List α) (back : α) : Prop where
  chain : List.IsChain (fun a b => edge a b = true) path
  closes : ∃ last, path.getLast? = some last ∧ edge last back = true
  mem : back ∈ path

omit [DecidableEq α] in
/-- Nothing on a lasso is a dead end, or leads off it only. -/
theorem Lasso.succ {path : List α} {back : α} (h : Lasso edge path back) {x : α} (hx : x ∈ path) :
    ∃ y ∈ path, edge x y = true := by
  obtain ⟨last, hlast, hclose⟩ := h.closes
  have hback := h.mem
  obtain ⟨front, rear, rfl⟩ := List.append_of_mem hx
  cases rear with
  | nil =>
    rw [List.getLast?_append_cons, List.getLast?_singleton, Option.some.injEq] at hlast
    exact ⟨back, hback, hlast ▸ hclose⟩
  | cons y rear =>
    have hpair := (List.isChain_append.mp h.chain).2.1
    exact ⟨y, by simp, (List.isChain_cons_cons.mp hpair).1⟩

/-- An edge between nodes. -/
def Edge (edge : α → α → Bool) (nodes : List α) (x y : α) : Prop :=
  x ∈ nodes ∧ y ∈ nodes ∧ edge x y = true

omit [DecidableEq α] in
/-- From `back` along the path to its last node, and over the edge that closes it. -/
theorem Lasso.cycle {path : List α} {back : α} (h : Lasso edge path back) (hsub : path ⊆ nodes) :
    Relation.TransGen (Edge edge nodes) back back := by
  obtain ⟨last, hlast, hclose⟩ := h.closes
  have hmem := h.mem
  have hchain : List.IsChain (Edge edge nodes) path :=
    h.chain.imp_of_mem_imp fun x y hx hy hedge => ⟨hsub hx, hsub hy, hedge⟩
  have hend : Edge edge nodes last back := ⟨hsub (List.mem_of_getLast? hlast), hsub hmem, hclose⟩
  obtain ⟨front, rear, rfl⟩ := List.append_of_mem hmem
  rw [List.getLast?_append_cons, List.getLast?_eq_some_getLast (List.cons_ne_nil _ _),
    Option.some.injEq] at hlast
  exact .tail' (List.relationReflTransGen_of_exists_isChain_cons rear
    (List.isChain_append.mp hchain).2.1 hlast) hend

omit [DecidableEq α] in
theorem Inv.lasso (h : Inv edge nodes st) {cur next : α} {left : List α}
    {below : List (α × List α)} (hstack : st.stack = (cur, left) :: below)
    (hscan : scan edge st cur left = .back next) :
    Lasso edge st.path next ∧ st.path ⊆ nodes := by
  obtain ⟨hedge, hin⟩ := scan_back hscan
  have hframes := h.frames
  refine ⟨⟨?_, ⟨cur, ?_, hedge⟩, ?_⟩, fun x hx => ?_⟩
  · rw [hstack] at hframes
    unfold State.path
    rw [List.isChain_reverse, hstack]
    exact hframes.2.2.2.2.chain
  · simp [State.path, hstack]
  · simpa [State.path] using (h.inStack_iff next).mp hin
  · exact hframes.mem (by simpa [State.path] using hx)

/-! ## How the loop ends -/

/-- A turn of the loop takes one off this. -/
def State.work (nodes : List α) (st : State α) : Nat :=
  2 * nodes.countP (fun x => !st.visited x) + st.stack.length

theorem work_push {next : α} {stack : List (α × List α)} (hmem : next ∈ nodes)
    (hnew : st.visited next = false) (hlen : stack.length = st.stack.length) :
    ({ st with stack := stack }.push nodes next).work nodes < st.work nodes := by
  have hle : ∀ l : List α, l.countP (fun x => !Function.update st.visited next true x)
      ≤ l.countP (fun x => !st.visited x) := by
    refine fun l => List.countP_mono_left fun x _ hx => ?_
    by_cases hxn : x = next
    · rw [hxn, hnew]
      rfl
    · rwa [Function.update_of_ne hxn] at hx
  have hlt : nodes.countP (fun x => !Function.update st.visited next true x)
      < nodes.countP (fun x => !st.visited x) := by
    obtain ⟨front, rear, rfl⟩ := List.append_of_mem hmem
    have hfront := hle front
    have hrear := hle rear
    simp only [List.countP_append, List.countP_cons, Function.update_self, hnew, Bool.not_true,
      Bool.not_false, if_true, Bool.false_eq_true, if_false]
    omega
  have hdef : ({ st with stack := stack }.push nodes next).work nodes
      = 2 * nodes.countP (fun x => !Function.update st.visited next true x)
        + (stack.length + 1) := rfl
  rw [hdef, State.work, hlen]
  omega

/-- The loop's fuel is enough for a root. -/
theorem root_work {start : α} (hempty : st.stack = []) (hstart : start ∈ nodes)
    (hnew : st.visited start = false) : (st.push nodes start).work nodes < 2 * nodes.length := by
  have hlt : (st.push nodes start).work nodes < st.work nodes := work_push hstart hnew rfl
  have hle : nodes.countP (fun x => !st.visited x) ≤ nodes.length := List.countP_le_length
  have hdef : st.work nodes = 2 * nodes.countP (fun x => !st.visited x) := by
    rw [State.work, hempty]
    rfl
  omega

/-- The end of a run that had to visit `seen`. -/
def Result.Ok (edge : α → α → Bool) (nodes : List α) (seen : α → Prop) : Result α → Prop
  | .cycle path back => Lasso edge path back ∧ path ⊆ nodes
  | .clear st => Inv edge nodes st ∧ st.stack = [] ∧ ∀ x, seen x → st.visited x = true
  | .stuck => False

omit [DecidableEq α] in
theorem Result.Ok.mono {seen seen' : α → Prop} {r : Result α} (h : r.Ok edge nodes seen)
    (hs : ∀ x, seen' x → seen x) : r.Ok edge nodes seen' := by
  cases r with
  | cycle => exact h
  | clear => exact ⟨h.1, h.2.1, fun x hx => h.2.2 x (hs x hx)⟩
  | stuck => exact h

theorem loop_ok (h : Inv edge nodes st) {fuel : Nat} (hfuel : st.work nodes < fuel) :
    (loop edge nodes fuel st).Ok edge nodes (fun x => st.visited x = true) := by
  induction fuel generalizing st with
  | zero => exact absurd hfuel (Nat.not_lt_zero _)
  | succ fuel ih =>
    rw [loop]
    split
    · rename_i hstack
      exact ⟨h, hstack, fun _ hx => hx⟩
    · rename_i cur left below hstack
      split
      · rename_i next hscan
        exact h.lasso hstack hscan
      · rename_i next rest hscan
        obtain ⟨_, hnew, hmem, _⟩ := scan_fresh hscan
        have hframes := h.frames
        rw [hstack] at hframes
        have hwork : ({ st with stack := (cur, rest) :: below }.push nodes next).work nodes
            < st.work nodes := work_push (hframes.2.1 hmem) hnew (by rw [hstack]; rfl)
        refine (ih (h.fresh hstack hscan) (by omega)).mono fun x hx => ?_
        simp only [State.push, Function.update_apply]
        split
        · rfl
        · exact hx
      · rename_i hscan
        have hwork : ({ st with inStack := Function.update st.inStack cur false, stack := below } :
            State α).work nodes < st.work nodes := by
          simp only [State.work, hstack, List.length_cons]
          omega
        exact ih (h.pop hstack (scan_exhausted hscan)) (by omega)

theorem search_ok {root : α → Bool} {starts : List α} (h : Inv edge nodes st) (hempty : st.stack = [])
    (hstarts : starts ⊆ nodes) :
    (search edge nodes root starts st).Ok edge nodes
      (fun x => st.visited x = true ∨ (x ∈ starts ∧ root x = true)) := by
  induction starts generalizing st with
  | nil => exact ⟨h, hempty, fun x hx => hx.resolve_right fun hno => absurd hno.1 (List.not_mem_nil)⟩
  | cons start starts ih =>
    obtain ⟨hstart, hrest⟩ := List.cons_subset.mp hstarts
    rw [search]
    by_cases hskip : st.visited start = true ∨ root start = false
    · rw [if_pos hskip]
      refine (ih h hempty hrest).mono fun x hx => ?_
      rcases hx with hv | ⟨hx, hr⟩
      · exact .inl hv
      · rcases List.mem_cons.mp hx with rfl | hx
        · exact .inl (hskip.resolve_right (by simp [hr]))
        · exact .inr ⟨hx, hr⟩
    · rw [if_neg hskip]
      have hnew : st.visited start = false := by
        simpa using fun hv => hskip (.inl hv)
      have hinv : Inv edge nodes (st.push nodes start) :=
        h.push hstart hnew rfl (by rw [hempty]; trivial)
      have hloop := loop_ok hinv (root_work hempty hstart hnew)
      cases hrun : loop edge nodes (2 * nodes.length) (st.push nodes start) with
      | cycle path back =>
        rw [hrun] at hloop
        exact hloop
      | stuck =>
        rw [hrun] at hloop
        exact hloop
      | clear st' =>
        rw [hrun] at hloop
        obtain ⟨hinv', hempty', hseen⟩ := hloop
        refine (ih hinv' hempty' hrest).mono fun x hx => ?_
        rcases hx with hv | ⟨hx, hr⟩
        · refine .inl (hseen x ?_)
          simp only [State.push, Function.update_apply]
          split
          · rfl
          · exact hv
        · rcases List.mem_cons.mp hx with rfl | hx
          · exact .inl (hseen _ (Function.update_self ..))
          · exact .inr ⟨hx, hr⟩

/-! ## The three results -/

variable {root : α → Bool}

theorem search_ends : (search edge nodes root nodes .empty).Ok edge nodes
    (fun x => x ∈ nodes ∧ root x = true) :=
  (search_ok Inv.empty rfl (List.Subset.refl nodes)).mono fun _ hx => .inr hx

/-- **What is reported is a cycle** with a path into it. -/
theorem search_lasso {path : List α} {back : α}
    (h : search edge nodes root nodes .empty = .cycle path back) :
    Lasso edge path back ∧ path ⊆ nodes := by
  have hok : (search edge nodes root nodes .empty).Ok edge nodes _ := search_ends
  rw [h] at hok
  exact hok

/-- **When nothing is reported, every walk from a root ends.** -/
theorem search_clear {last : State α} (h : search edge nodes root nodes .empty = .clear last) {x : α}
    (hx : x ∈ nodes) (hroot : root x = true) : Ends edge nodes x := by
  have hok : (search edge nodes root nodes .empty).Ok edge nodes _ := search_ends
  rw [h] at hok
  obtain ⟨hinv, hempty, hseen⟩ := hok
  refine hinv.settled x ⟨hseen x ⟨hx, hroot⟩, ?_⟩
  rw [Bool.eq_false_iff, ne_eq, hinv.inStack_iff, hempty]
  exact List.not_mem_nil

/-- **The search ends by itself.** -/
theorem search_ne_stuck : search edge nodes root nodes .empty ≠ .stuck := by
  intro h
  have hok : (search edge nodes root nodes .empty).Ok edge nodes _ := search_ends
  rw [h] at hok
  exact hok

omit [DecidableEq α] in
/-- No walk that ends goes round a cycle. -/
theorem Ends.not_cycle {x : α} (h : Ends edge nodes x) :
    ¬ Relation.TransGen (Edge edge nodes) x x := by
  induction h with
  | intro x _ ih =>
    intro hcycle
    obtain ⟨y, hstep, hback⟩ := Relation.TransGen.head'_iff.mp hcycle
    exact ih y hstep.2 (.tail' hback hstep)

/-- **A cycle is reported exactly when the nodes have one**, in a graph whose edges start at roots. -/
theorem search_cycle_iff (hroot : ∀ x ∈ nodes, ∀ y, edge x y = true → root x = true) :
    (∃ path back, search edge nodes root nodes .empty = .cycle path back) ↔
      ∃ x, Relation.TransGen (Edge edge nodes) x x := by
  constructor
  · rintro ⟨path, back, hfound⟩
    obtain ⟨hlasso, hsub⟩ := search_lasso hfound
    exact ⟨back, hlasso.cycle hsub⟩
  · rintro ⟨x, hcycle⟩
    cases hsearch : search edge nodes root nodes .empty with
    | cycle path back => exact ⟨path, back, rfl⟩
    | stuck => exact absurd hsearch search_ne_stuck
    | clear last =>
      obtain ⟨y, hstep, _⟩ := Relation.TransGen.head'_iff.mp hcycle
      exact absurd hcycle
        (search_clear hsearch hstep.1 (hroot x hstep.1 y hstep.2.2)).not_cycle

/-! ## How high the stack gets -/

omit [DecidableEq α] in
/-- The stack holds distinct nodes. -/
theorem Inv.length_le (h : Inv edge nodes st) : st.stack.length ≤ nodes.length := by
  have hsub : st.stack.map Prod.fst ⊆ nodes := fun _ hx => h.frames.mem hx
  have hlen := (List.subperm_of_subset h.nodup hsub).length_le
  rwa [List.length_map] at hlen

theorem Inv.loopStates (h : Inv edge nodes st) {fuel : Nat} :
    ∀ s ∈ loopStates edge nodes fuel st, Inv edge nodes s := by
  induction fuel generalizing st with
  | zero => exact fun s hs => absurd hs List.not_mem_nil
  | succ fuel ih =>
    intro s hs
    rw [CycleSearch.loopStates] at hs
    rcases List.mem_cons.mp hs with rfl | hs
    · exact h
    split at hs
    · exact absurd hs List.not_mem_nil
    · rename_i cur left below hstack
      split at hs
      · exact absurd hs List.not_mem_nil
      · rename_i next rest hscan
        exact ih (h.fresh hstack hscan) s hs
      · rename_i hscan
        exact ih (h.pop hstack (scan_exhausted hscan)) s hs

theorem Inv.searchStates {starts : List α} (h : Inv edge nodes st) (hempty : st.stack = [])
    (hstarts : starts ⊆ nodes) :
    ∀ s ∈ searchStates edge nodes root starts st, Inv edge nodes s := by
  induction starts generalizing st with
  | nil => exact fun s hs => absurd hs List.not_mem_nil
  | cons start starts ih =>
    obtain ⟨hstart, hrest⟩ := List.cons_subset.mp hstarts
    intro s hs
    rw [CycleSearch.searchStates] at hs
    split at hs
    · exact ih h hempty hrest s hs
    · rename_i hskip
      have hnew : st.visited start = false := by
        simpa using fun hv => hskip (.inl hv)
      have hinv : Inv edge nodes (st.push nodes start) :=
        h.push hstart hnew rfl (by rw [hempty]; trivial)
      rcases List.mem_append.mp hs with hs | hs
      · exact hinv.loopStates s hs
      · have hloop := loop_ok hinv (root_work hempty hstart hnew)
        cases hrun : loop edge nodes (2 * nodes.length) (st.push nodes start) with
        | cycle | stuck =>
          rw [hrun] at hs
          exact absurd hs List.not_mem_nil
        | clear st' =>
          rw [hrun] at hs hloop
          exact ih hloop.1 hloop.2.1 hrest s hs

/-- **The stack never has more entries than there are nodes.** -/
theorem stack_length_le :
    ∀ s ∈ searchStates edge nodes root nodes .empty, s.stack.length ≤ nodes.length :=
  fun s hs => (Inv.empty.searchStates rfl (List.Subset.refl nodes) s hs).length_le

/-- The path that is reported is that of a state of the loop, … -/
theorem loop_path {fuel : Nat} {path : List α} {back : α} (h : loop edge nodes fuel st = .cycle path back) :
    ∃ s ∈ loopStates edge nodes fuel st, path = s.path := by
  induction fuel generalizing st with
  | zero => exact absurd h (by simp [loop])
  | succ fuel ih =>
    rw [loop] at h
    rw [CycleSearch.loopStates]
    split at h
    · exact absurd h (by simp)
    · rename_i cur left below hstack
      split at h
      · cases h
        exact ⟨st, List.mem_cons_self, rfl⟩
      · rename_i next rest hscan
        obtain ⟨s, hs, hpath⟩ := ih h
        refine ⟨s, List.mem_cons_of_mem _ ?_, hpath⟩
        exact hs
      · rename_i hscan
        obtain ⟨s, hs, hpath⟩ := ih h
        refine ⟨s, List.mem_cons_of_mem _ ?_, hpath⟩
        exact hs

/-- … so also of the search. -/
theorem search_path {starts path : List α} {back : α}
    (h : search edge nodes root starts st = .cycle path back) :
    ∃ s ∈ searchStates edge nodes root starts st, path = s.path := by
  induction starts generalizing st with
  | nil => exact absurd h (by simp [search])
  | cons start starts ih =>
    rw [search] at h
    rw [CycleSearch.searchStates]
    split at h
    · rename_i hskip
      rw [if_pos hskip]
      exact ih h
    · rename_i hskip
      rw [if_neg hskip]
      cases hrun : loop edge nodes (2 * nodes.length) (st.push nodes start) with
      | cycle path' back' =>
        rw [hrun] at h
        cases h
        obtain ⟨s, hs, hpath⟩ := loop_path hrun
        exact ⟨s, List.mem_append_left _ hs, hpath⟩
      | clear st' =>
        rw [hrun] at h
        obtain ⟨s, hs, hpath⟩ := ih h
        exact ⟨s, List.mem_append_right _ hs, hpath⟩
      | stuck =>
        rw [hrun] at h
        exact absurd h (by simp)

/-- **The reported path is no longer than there are nodes.** -/
theorem search_path_length_le {path : List α} {back : α}
    (h : search edge nodes root nodes .empty = .cycle path back) : path.length ≤ nodes.length := by
  obtain ⟨s, hs, rfl⟩ := search_path h
  rw [State.path, List.length_reverse, List.length_map]
  exact stack_length_le s hs

end CycleSearch
