import Smash.Proof.Exhaustive
import Smash.Proof.Table
import Smash.Proof.Waiting

/-!
# State caching

`explore_dfs` skips a state whose snapshot it has hashed before. It then relies on the snapshot to decide
what lies ahead, and the snapshot leaves out the countdowns, the order of the waiters and more.

The table holds the hashes of the first `SMASH_MAX_STATES` states that the search went on from (`Recalls`). So
a state is skipped only for one of the same hash that the search went on from before (`exists_of_cached`), and
below each state that it went on from it comes to what every READY thread leads to (`Unfolds`).

`countdownScenario` has a violation, and with caching none is found.
-/

set_option autoImplicit false

namespace Smash

variable {sc : Scenario} {cfg : Config}

/-! ## The statement -/

def Config.caching (cfg : Config) (on : Bool) : Config := { cfg with enableStateCaching := on }

/-- With and without caching, a bug of each kind is reported or not. -/
def CachingLosesNoBug (sc : Scenario) (cfg : Config) : Prop :=
  ∀ stack stack' : Nat → Saved,
    (0 < (explore sc (cfg.caching true) stack).violations ↔
      0 < (explore sc (cfg.caching false) stack').violations) ∧
    (0 < (explore sc (cfg.caching true) stack).deadlocks ↔
      0 < (explore sc (cfg.caching false) stack').deadlocks)

/-- The snapshot does not tell the two states apart. -/
def LooksLike (sc : Scenario) (w w' : World) : Prop :=
  stateEqual (captureState sc w) (captureState sc w') = true

instance (sc : Scenario) (w w' : World) : Decidable (LooksLike sc w w') :=
  inferInstanceAs (Decidable (_ = true))

/-- On the states of clean runs, equal hashes come from equal snapshots. -/
def NoCollision (sc : Scenario) : Prop :=
  ∀ s w s' w', CleanRun sc s w → CleanRun sc s' w' →
    stateHash (captureState sc w) = stateHash (captureState sc w') → LooksLike sc w w'

/-! ### The fields of a snapshot -/

/-- The bytes that a snapshot takes of a thread. -/
def Thread.look (t : Thread) : UInt8 × UInt8 × UInt8 × UInt8 × UInt8 :=
  (UInt8.ofNat t.state.code, UInt8.ofNat t.pc, UInt8.ofInt t.priority, UInt8.ofNat t.execCtx.code,
    UInt8.ofInt t.sysLockDepth)

/-- What it takes of a resource. -/
def Resource.look (m : Resource) : Int8 × Int8 × Bool := (Int8.ofInt m.owner, Int8.ofInt m.count, m.alive)

theorem looksLike_iff {w w' : World} : LooksLike sc w w' ↔
    (∀ t, sc.IsThread t → (w.threads t).look = (w'.threads t).look) ∧
      ∀ r, sc.IsResource r → (w.resources r).look = (w'.resources r).look := by
  have hthread : ∀ t, t ∈ upTo sc.threadCount ↔ sc.IsThread t := fun t => Scenario.mem_threadIds
  have hres : ∀ r, r ∈ upTo sc.resourceCount ↔ sc.IsResource r := fun r => Scenario.mem_resourceIds
  simp only [LooksLike, stateEqual, captureState, decide_true, Bool.true_and, Bool.and_eq_true,
    List.all_eq_true, hthread, hres]
  refine and_congr (forall_congr' fun t => ?_) (forall_congr' fun r => ?_)
  · refine imp_congr_right fun ht => ?_
    simp [ht, Thread.look, and_assoc]
  · refine imp_congr_right fun hr => ?_
    cases h : (w.resources r).alive <;> cases h' : (w'.resources r).alive <;>
      simp [hr, Resource.look, h, h']

/-- Threads of one look are in the same state. -/
theorem state_of_look {t t' : Thread} (h : t.look = t'.look) : t.state = t'.state := by
  have hcode : UInt8.ofNat t.state.code = UInt8.ofNat t'.state.code := congrArg Prod.fst h
  cases hs : t.state <;> cases hs' : t'.state <;> simp_all [ThreadState.code]

/-! ## What is visited below the states the search went on from -/

/-- The visit `u` is what the step of `t` at the visit `v` leads to. -/
structure Below (sc : Scenario) (v : Visit) (t : Int) (u : Visit) : Prop where
  schedule : u.schedule = v.schedule ++ [t]
  world : u.world = (v.world.executeStep sc t).world
  violation : u.kind = .violation ↔ stepFails sc v.world t = true

/-- Where the search goes on, it comes to what every READY thread leads to. -/
def Unfolds (sc : Scenario) (visits : List Visit) : Prop :=
  ∀ v ∈ visits, v.kind = .expanded → ∀ t, sc.Ready v.world t → ∃ u ∈ visits, Below sc v t u

theorem Unfolds.append {xs ys : List Visit} (hx : Unfolds sc xs) (hy : Unfolds sc ys) :
    Unfolds sc (xs ++ ys) := by
  intro v hv hk t ht
  cases List.mem_append.mp hv with
  | inl hv =>
    obtain ⟨u, hu, hbelow⟩ := hx v hv hk t ht
    exact ⟨u, List.mem_append_left _ hu, hbelow⟩
  | inr hv =>
    obtain ⟨u, hu, hbelow⟩ := hy v hv hk t ht
    exact ⟨u, List.mem_append_right _ hu, hbelow⟩

/-- The visits of the search from `root` on. -/
structure Subtree (sc : Scenario) (root : Visit) (visits : List Visit) : Prop where
  mem_root : root ∈ visits
  unfolds : Unfolds sc visits

/-- A visit that is not expanded stands alone. -/
theorem Subtree.leaf {v : Visit} (hk : v.kind ≠ .expanded) : Subtree sc v [v] :=
  ⟨List.mem_singleton_self v, fun _ hu hku => absurd (List.mem_singleton.mp hu ▸ hku) hk⟩

/-- The visits below the node `v`, which is expanded, along the threads `ts`. -/
structure Branches (sc : Scenario) (v : Visit) (ts : List Int) (visits : List Visit) : Prop where
  child : ∀ t ∈ ts, ∃ u ∈ visits, Below sc v t u
  unfolds : Unfolds sc visits

theorem Branches.nil (v : Visit) : Branches sc v [] [] := ⟨by simp, fun u hu => absurd hu (by simp)⟩

/-- The first branch, and the others. -/
theorem Branches.cons {v u : Visit} {t : Int} {ts : List Int} {first others : List Visit}
    (hu : Below sc v t u) (hfirst : Subtree sc u first) (hothers : Branches sc v ts others) :
    Branches sc v (t :: ts) (first ++ others) := by
  refine ⟨fun t' ht' => ?_, hfirst.unfolds.append hothers.unfolds⟩
  cases List.mem_cons.mp ht' with
  | inl heq => exact heq ▸ ⟨u, List.mem_append_left _ hfirst.mem_root, hu⟩
  | inr hmem =>
    obtain ⟨x, hx, hbelow⟩ := hothers.child t' hmem
    exact ⟨x, List.mem_append_right _ hx, hbelow⟩

/-- An expanded node and its branches. -/
theorem Subtree.node {v : Visit} {ts : List Int} {visits : List Visit}
    (hts : ∀ t, sc.Ready v.world t → t ∈ ts) (h : Branches sc v ts visits) :
    Subtree sc v (v :: visits) := by
  refine ⟨List.mem_cons_self, fun u hu hku t ht => ?_⟩
  rcases List.mem_cons.mp hu with rfl | hu
  · obtain ⟨x, hx, hchild⟩ := h.child t (hts t ht)
    exact ⟨x, List.mem_cons_of_mem _ hx, hchild⟩
  · obtain ⟨x, hx, hchild⟩ := h.unfolds u hu hku t ht
    exact ⟨x, List.mem_cons_of_mem _ hx, hchild⟩

section unpruned

variable (hdpor : cfg.enableDpor = false) (hstop : cfg.stopOnFirstBug = false)
include hstop

theorem walkLoop_branches {recurse : Saved → Ledger → Ledger} {room depth : Nat} {n : Saved}
    (hn : AtRun sc (room + 1) depth n)
    (hrec : ∀ m l, AtRun sc room (depth + 1) m → ∃ k new, k ≠ .violation ∧
      (recurse m l).visits = l.visits ++ new ∧ Subtree sc ⟨k, m.schedule, m.world⟩ new)
    {tried : Finset Int} (rest : List Int) (hready : ∀ t ∈ rest, sc.Ready n.world t)
    (htried : ∀ t ∈ rest, t ∈ tried) (l : Ledger) :
    ∃ new, (walkLoop sc cfg recurse depth n tried rest l).visits = l.visits ++ new ∧
      Branches sc ⟨.expanded, n.schedule, n.world⟩ rest new := by
  induction rest generalizing l with
  | nil => exact ⟨[], by simp [walkLoop], .nil _⟩
  | cons t rest ih =>
    have ih := ih (fun u hu => hready u (List.mem_cons_of_mem _ hu))
      fun u hu => htried u (List.mem_cons_of_mem _ hu)
    rw [walkLoop, if_neg (not_not.mpr (htried t List.mem_cons_self))]
    simp only [Ledger.stopped, hstop, Bool.and_false, Bool.false_eq_true, if_false]
    have hschedule := hn.schedule_step t
    by_cases hfail : stepFails sc n.world t = true
    · rw [if_pos hfail]
      obtain ⟨others, hvisits, hothers⟩ := ih ((l.sleep cfg depth t).reportViolation (n.step sc t))
      refine ⟨[⟨.violation, (n.step sc t).schedule, (n.step sc t).world⟩] ++ others, ?_,
        Branches.cons ⟨hschedule, rfl, by simp [hfail]⟩ (.leaf (by simp)) hothers⟩
      rw [hvisits]
      show ((l.sleep cfg depth t).visits ++ _) ++ _ = _
      rw [visits_sleep, List.append_assoc]
    · rw [if_neg hfail]
      obtain ⟨k, first, hk, hroot, hfirst⟩ := hrec (n.step sc t) (l.sleep cfg depth t)
        (hn.child (hready t List.mem_cons_self) (by simpa using hfail))
      obtain ⟨others, hvisits, hothers⟩ := ih ((recurse (n.step sc t) (l.sleep cfg depth t)).propagate
        cfg depth (collectRunnable sc n.world smashMaxThreads))
      refine ⟨first ++ others, ?_,
        Branches.cons ⟨hschedule, rfl, by simp [hk, hfail]⟩ hfirst hothers⟩
      rw [hvisits, visits_propagate, hroot, visits_sleep, List.append_assoc]

include hdpor

theorem walk_subtree (hv : sc.Valid) (hlim : cfg.maxInterleavings = none) (room depth : Nat) (n : Saved)
    (hn : AtRun sc room depth n) (l : Ledger) : ∃ k new, k ≠ .violation ∧
      (walk sc cfg room depth n l).visits = l.visits ++ new ∧
      Subtree sc ⟨k, n.schedule, n.world⟩ new := by
  have hgo : ∀ l : Ledger, (l.stopped cfg || l.enough cfg) = false := fun l => by
    simp [Ledger.stopped, Ledger.enough, hstop, hlim]
  induction room generalizing depth n l with
  | zero =>
    rw [walk, hgo, if_neg Bool.false_ne_true]
    exact ⟨.hardGuard, _, by simp, rfl, .leaf (by simp)⟩
  | succ room ih =>
    rw [walk, hgo, if_neg Bool.false_ne_true]
    split
    · exact ⟨.depthLimit, _, by simp, rfl, .leaf (by simp)⟩
    unfold walkNode
    split
    · exact ⟨.interleaving, _, by simp, rfl, .leaf (by simp)⟩
    split
    · exact ⟨.deadlock, _, by simp, rfl, .leaf (by simp)⟩
    split
    · exact ⟨.cached, _, by simp, rfl, .leaf (by simp)⟩
    · -- The node is expanded: its branches are all its READY threads.
      obtain ⟨new, hnew, hbranches⟩ := walkLoop_branches hstop hn (fun m l hm => ih (depth + 1) m hm l)
        (collectRunnable sc n.world smashMaxThreads) (fun t ht => (mem_collectRunnable hv).mp ht)
        (fun t ht => show t ∈ ((l.cacheMark sc cfg n.world).countState n).tried sc cfg depth n.world by
          simpa [Ledger.tried, hdpor] using ht)
        ((l.cacheMark sc cfg n.world).countState n)
      refine ⟨.expanded, _, by simp, ?_,
        .node (fun t ht => (mem_collectRunnable hv).mpr ht) hbranches⟩
      rw [hnew]
      show ((l.cacheMark sc cfg n.world).visits ++ _) ++ _ = _
      rw [visits_cacheMark, List.append_assoc, List.singleton_append]

end unpruned

/-! ## The table holds the first states the search went on from -/

def Visit.hash (sc : Scenario) (v : Visit) : UInt64 := stateHash (captureState sc v.world)

def expandedIn (visits : List Visit) : List Visit := visits.filter fun v => v.kind = .expanded

/-- The hashes that are stored once these visits have been made. -/
def stored (sc : Scenario) (visits : List Visit) : Finset UInt64 :=
  (((expandedIn visits).take smashMaxStates).map (Visit.hash sc)).toFinset

theorem mem_stored {visits : List Visit} {hash : UInt64} : hash ∈ stored sc visits ↔
    ∃ u ∈ (expandedIn visits).take smashMaxStates, u.hash sc = hash := by
  simp only [stored, List.mem_toFinset, List.mem_map]

/-- What the table held when `v` was met decides whether it is skipped. -/
def Recalled (sc : Scenario) (before : List Visit) (v : Visit) : Prop :=
  (v.kind = .cached → v.hash sc ∈ stored sc before) ∧
    (v.kind = .expanded → v.hash sc ∉ stored sc before)

structure Recalls (sc : Scenario) (l : Ledger) : Prop where
  table : l.table.Holds (stored sc l.visits)
  /-- No two of the stored states have the same hash. -/
  card : (stored sc l.visits).card = min smashMaxStates (expandedIn l.visits).length
  past : ∀ before v after, l.visits = before ++ v :: after → Recalled sc before v

/-- Every visit is the last one or an earlier one. -/
theorem recalled_snoc {visits : List Visit} {v : Visit} (hv : Recalled sc visits v)
    (h : ∀ before u after, visits = before ++ u :: after → Recalled sc before u) :
    ∀ before u after, visits ++ [v] = before ++ u :: after → Recalled sc before u := by
  intro before u after heq
  rcases List.eq_nil_or_concat after with rfl | ⟨after', x, rfl⟩
  · obtain ⟨rfl, huv⟩ := List.append_inj' heq rfl
    obtain rfl := (List.cons.inj huv).1
    exact hv
  · rw [List.concat_eq_append, ← List.cons_append, ← List.append_assoc] at heq
    exact h before u after' (List.append_inj' heq rfl).1

theorem Recalls.same {l l' : Ledger} (h : Recalls sc l) (hv : l'.visits = l.visits)
    (ht : l'.table = l.table) : Recalls sc l' := by
  refine ⟨?_, ?_, ?_⟩
  · rw [hv, ht]; exact h.table
  · rw [hv]; exact h.card
  · rw [hv]; exact h.past

/-- The hashes that are stored come from as many states. -/
theorem Recalls.nodup {l : Ledger} (h : Recalls sc l) :
    (((expandedIn l.visits).take smashMaxStates).map (Visit.hash sc)).Nodup := by
  rw [← Multiset.coe_nodup, ← Multiset.toFinset_card_eq_card_iff_nodup, Multiset.coe_card, List.length_map,
    List.length_take]
  exact h.card

/-- One more visit, of a state that the search does not go on from. -/
theorem Recalls.visit {l l' : Ledger} {v : Visit} (h : Recalls sc l)
    (hv : l'.visits = l.visits ++ [v]) (ht : l'.table = l.table) (hk : v.kind ≠ .expanded)
    (hc : v.kind = .cached → v.hash sc ∈ stored sc l.visits) : Recalls sc l' := by
  have hexp : expandedIn l'.visits = expandedIn l.visits := by simp [hv, expandedIn, hk]
  have hstored : stored sc l'.visits = stored sc l.visits := by rw [stored, hexp, stored]
  refine ⟨?_, ?_, ?_⟩
  · rw [hstored, ht]; exact h.table
  · rw [hstored, hexp]; exact h.card
  · rw [hv]
    exact recalled_snoc ⟨hc, fun he => absurd he hk⟩ h.past

/-- **Going on from a new state** stores its hash, as long as there is room. -/
theorem Recalls.expand {l l' : Ledger} {v : Visit} (h : Recalls sc l)
    (hv : l'.visits = l.visits ++ [v]) (ht : l'.table = (l.table.markVisited (v.hash sc)).1)
    (hk : v.kind = .expanded) (hnew : v.hash sc ∉ stored sc l.visits) : Recalls sc l' := by
  have hexp : expandedIn l'.visits = expandedIn l.visits ++ [v] := by simp [hv, expandedIn, hk]
  have hmark := (h.table.mark (stateHash_ne_zero (captureState sc v.world))).1
  have hcard := h.card
  have hpast : ∀ before u after, l'.visits = before ++ u :: after → Recalled sc before u := by
    rw [hv]
    exact recalled_snoc ⟨fun hc => absurd (hk.symm.trans hc) (by simp), fun _ => hnew⟩ h.past
  by_cases hroom : (stored sc l.visits).card < smashMaxStates
  · have hlen : (expandedIn l.visits).length < smashMaxStates := by omega
    have hstored : stored sc l'.visits = insert (v.hash sc) (stored sc l.visits) := by
      ext hash
      simp only [stored, hexp, Finset.mem_insert, List.mem_toFinset]
      rw [List.take_of_length_le (by rw [List.length_append, List.length_singleton]; omega),
        List.take_of_length_le hlen.le, List.map_append, List.mem_append, List.map_singleton,
        List.mem_singleton, or_comm]
    refine ⟨?_, ?_, hpast⟩
    · rw [if_pos hroom] at hmark
      rw [hstored, ht]
      exact hmark
    · rw [hstored, Finset.card_insert_of_notMem hnew, hexp, List.length_append, List.length_singleton]
      omega
  · have hlen : smashMaxStates ≤ (expandedIn l.visits).length := by omega
    have hstored : stored sc l'.visits = stored sc l.visits := by
      simp only [stored, hexp]
      rw [List.take_append_of_le_length hlen]
    refine ⟨?_, ?_, hpast⟩
    · rw [if_neg hroom] at hmark
      rw [hstored, ht]
      exact hmark
    · rw [hstored, hexp, List.length_append]
      omega

theorem walkInv_recalls (sc : Scenario) (henable : cfg.enableStateCaching = true) :
    WalkInv sc cfg (fun _ _ _ => True) (Recalls sc) where
  child _ _ _ := trivial
  hardGuard _ hl := hl.visit rfl rfl (by simp) (by simp)
  depthLimit _ _ hl := hl.visit rfl rfl (by simp) (by simp)
  interleaving _ _ hl := hl.visit rfl rfl (by simp) (by simp)
  deadlock _ _ _ hl := hl.visit rfl rfl (by simp) (by simp)
  cached _ _ hhit hl := hl.visit rfl rfl (by simp) fun _ => by
    simp only [Ledger.cacheHit, henable, Bool.true_and] at hhit
    exact (hl.table.visited_iff (stateHash_ne_zero _)).mp hhit
  expanded {_ _ n l} _ _ hmiss hl := by
    simp only [Ledger.cacheHit, henable, Bool.true_and] at hmiss
    refine hl.expand (v := ⟨.expanded, n.schedule, n.world⟩) ?_ ?_ rfl fun hmem => ?_
    · show _ ++ _ = _
      rw [visits_cacheMark]
    · show (l.cacheMark sc cfg n.world).table = _
      rw [Ledger.cacheMark, if_pos henable]
      rfl
    · rw [(hl.table.visited_iff (stateHash_ne_zero _)).mpr hmem] at hmiss
      exact absurd hmiss (by simp)
  violation _ _ _ hl := hl.visit rfl rfl (by simp) (by simp)
  pruned hl := by
    unfold Ledger.countPruned
    split <;> exact hl.same rfl rfl
  sleep hl := by
    unfold Ledger.sleep
    split
    · exact hl.same rfl rfl
    · exact hl
  propagate hl := by
    unfold Ledger.propagate
    split
    · exact hl.same rfl rfl
    · exact hl

theorem exploreLedger_recalls (hv : sc.Valid) (henable : cfg.enableStateCaching = true) :
    Recalls sc (exploreLedger sc cfg) := by
  have hcfg : cfg.clamp.enableStateCaching = true := henable
  refine (walkInv_recalls sc hcfg).walk hv _ _ _ _ trivial ⟨.empty, rfl, fun before v after h => ?_⟩
  exact absurd h.symm (by simp [Ledger.init])

/-! ## The visits of a search with caching -/

/-- What a visit says of itself, when no run is long enough to be cut. -/
theorem visitOk_of_short {v : Visit} {bound : Nat} (hshort : RunsShorter sc bound)
    (hle : bound ≤ smashMaxDepth) (hok : VisitOk sc bound v) (hk : v.kind ≠ .violation) :
    CleanRun sc v.schedule v.world ∧
      ((v.kind = .interleaving ∧ allDone sc v.world = true) ∨ (v.kind = .deadlock ∧ Stuck sc v.world) ∨
        ((v.kind = .cached ∨ v.kind = .expanded) ∧ ¬ Stuck sc v.world)) := by
  obtain ⟨kind, schedule, world⟩ := v
  cases kind with
  | violation => exact absurd rfl hk
  | interleaving => exact ⟨hok.1, Or.inl ⟨rfl, hok.2⟩⟩
  | deadlock => exact ⟨hok.1, Or.inr (Or.inl ⟨rfl, hok.2.2.1⟩)⟩
  | cached => exact ⟨hok.1, Or.inr (Or.inr ⟨Or.inl rfl, hok.2⟩)⟩
  | expanded => exact ⟨hok.1, Or.inr (Or.inr ⟨Or.inr rfl, hok.2⟩)⟩
  | hardGuard =>
    have hlen : schedule.length = smashMaxDepth := hok.2
    have hlt : (schedule.length : Int) < bound := hshort _ _ hok.1
    omega
  | depthLimit =>
    have hlen : (bound : Int) ≤ schedule.length := hok.2.1
    have hlt : (schedule.length : Int) < bound := hshort _ _ hok.1
    omega

section cachingSearch

variable (hv : sc.Valid)
include hv

/-- The search starts, and where it goes on it comes to what every READY thread leads to. -/
theorem exploreLedger_subtree (hp : (cfg.caching false).Plain) : ∃ k, k ≠ .violation ∧
    Subtree sc ⟨k, [], startWorld sc⟩ (exploreLedger sc (cfg.caching true)).visits := by
  have hlim : (cfg.caching true).clamp.maxInterleavings = none := by
    rcases hp.maxInterleavings with h | h <;>
      simp only [Config.caching] at h <;> simp [Config.clamp, Config.caching, h]
  have hdpor : (cfg.caching true).clamp.enableDpor = false := hp.enableDpor
  have hstop : (cfg.caching true).clamp.stopOnFirstBug = false := hp.stopOnFirstBug
  obtain ⟨k, new, hk, hvisits, htree⟩ := walk_subtree hdpor hstop hv hlim _ _ (rootNode sc)
    atRun_root Ledger.init
  have hnew : (exploreLedger sc (cfg.caching true)).visits = new := hvisits
  exact ⟨k, hk, hnew ▸ htree⟩

theorem exploreLedger_kinds (hshort : RunsShorter sc cfg.bound) {v : Visit}
    (hmem : v ∈ (exploreLedger sc (cfg.caching true)).visits) (hk : v.kind ≠ .violation) :
    CleanRun sc v.schedule v.world ∧
      ((v.kind = .interleaving ∧ allDone sc v.world = true) ∨ (v.kind = .deadlock ∧ Stuck sc v.world) ∨
        ((v.kind = .cached ∨ v.kind = .expanded) ∧ ¬ Stuck sc v.world)) :=
  visitOk_of_short hshort cfg.bound_le
    (cfg.bound_eq ▸ exploreLedger_visitOk hv (cfg.caching true) v hmem) hk

/-- **What is skipped**: a state is skipped only for one that the search went on from before, … -/
theorem exists_of_cached {v : Visit} (hmem : v ∈ (exploreLedger sc (cfg.caching true)).visits)
    (hk : v.kind = .cached) : ∃ u ∈ (exploreLedger sc (cfg.caching true)).visits, u.kind = .expanded ∧
      u.hash sc = v.hash sc := by
  obtain ⟨before, after, heq⟩ := List.append_of_mem hmem
  obtain ⟨u, hu, hhash⟩ := mem_stored.mp (((exploreLedger_recalls hv rfl).past before v after heq).1 hk)
  have hu' := List.mem_filter.mp (List.mem_of_mem_take hu)
  exact ⟨u, heq ▸ List.mem_append_left _ hu'.1, by simpa using hu'.2, hhash⟩

/-- … and of two states of one hash it goes on from the first only, as long as the table has room. -/
theorem eq_of_expanded (hroom : (expandedIn (exploreLedger sc (cfg.caching true)).visits).length
      ≤ smashMaxStates) {u v : Visit} (hu : u ∈ (exploreLedger sc (cfg.caching true)).visits)
    (hku : u.kind = .expanded) (hv' : v ∈ (exploreLedger sc (cfg.caching true)).visits)
    (hkv : v.kind = .expanded) (hhash : u.hash sc = v.hash sc) : u = v := by
  have hrecalls : Recalls sc (exploreLedger sc (cfg.caching true)) := exploreLedger_recalls hv rfl
  have hnodup := hrecalls.nodup
  rw [List.take_of_length_le hroom] at hnodup
  exact List.inj_on_of_nodup_map hnodup (List.mem_filter.mpr ⟨hu, by simp [hku]⟩)
    (List.mem_filter.mpr ⟨hv', by simp [hkv]⟩) hhash

end cachingSearch

/-! ## Reading the hashes off plain search -/

/-- The states of the clean runs can be read off the visits of plain search. -/
theorem noCollision_of_visits (hv : sc.Valid) (hp : cfg.Plain) (hshort : RunsShorter sc cfg.bound)
    (h : ∀ v ∈ (exploreLedger sc cfg).visits, ∀ v' ∈ (exploreLedger sc cfg).visits,
      stateHash (captureState sc v.world) = stateHash (captureState sc v'.world) →
      stateEqual (captureState sc v.world) (captureState sc v'.world) = true) : NoCollision sc := by
  intro s w s' w' hrun hrun' hhash
  obtain ⟨v, hmem, -, rfl, -⟩ := (untruncated_of_short hv hp hshort).followed s w hrun
  obtain ⟨v', hmem', -, rfl, -⟩ := (untruncated_of_short hv hp hshort).followed s' w' hrun'
  exact h v hmem v' hmem' hhash

/-! ### The countdown the snapshot leaves out -/

/-- T1 waits two ticks for a semaphore that nobody signals. When it waits first, its wait runs out under
the last call on T0; when T0 goes first, nobody is left to make the clock tick. -/
def countdownScenario : Scenario :=
  .ofSteps [[⟨.nop, -1, 0⟩], [⟨.semTimedWait, 0, 2⟩]] [.semaphore] [0]

theorem countdownScenario_matching : countdownScenario.Matching :=
  Scenario.matching_of_steps (by decide) (by decide)

theorem countdownScenario_hashes :
    ∀ v ∈ (exploreLedger countdownScenario ⟨false, false, 16, none, false⟩).visits,
    ∀ v' ∈ (exploreLedger countdownScenario ⟨false, false, 16, none, false⟩).visits,
      stateHash (captureState countdownScenario v.world)
        = stateHash (captureState countdownScenario v'.world) →
      stateEqual (captureState countdownScenario v.world)
        (captureState countdownScenario v'.world) = true := by decide +kernel

theorem countdownScenario_plain (stack : Nat → Saved) :
    (explore countdownScenario ⟨false, false, 16, none, false⟩ stack).violations = 1 := by
  rw [explore_violations (show countdownScenario.Valid by decide)]
  decide +kernel

theorem countdownScenario_cached (stack : Nat → Saved) :
    (explore countdownScenario ⟨false, true, 16, none, false⟩ stack).violations = 0 := by
  rw [explore_violations (show countdownScenario.Valid by decide)]
  decide +kernel

theorem countdownScenario_short : RunsShorter countdownScenario (16 : Nat) :=
  (runsShorter_iff countdownScenario_matching.valid).mpr (by decide +kernel)

theorem not_cachingLosesNoBug_countdown :
    ¬ CachingLosesNoBug countdownScenario ⟨false, true, 16, none, false⟩ := by
  intro h
  obtain ⟨hviolations, -⟩ := h (fun _ => rootNode countdownScenario) fun _ => rootNode countdownScenario
  have hfound := hviolations.mpr ((countdownScenario_plain _).symm ▸ Nat.zero_lt_one)
  exact absurd (hfound.trans_eq (countdownScenario_cached _)) (Nat.lt_irrefl 0)

/-- **Caching loses a violation**: every run is short and no hash collides, plain search counts one
violation, and with caching none is counted. The state after T1, T0 has one tick to go and is skipped for
the state after T0, T1, which has two. -/
theorem countdownScenario_loses :
    countdownScenario.Matching ∧ RunsShorter countdownScenario 16 ∧ NoCollision countdownScenario ∧
      (∀ stack, (explore countdownScenario ⟨false, false, 16, none, false⟩ stack).violations = 1) ∧
      (∀ stack, (explore countdownScenario ⟨false, true, 16, none, false⟩ stack).violations = 0) ∧
      ¬ CachingLosesNoBug countdownScenario ⟨false, true, 16, none, false⟩ := by
  have hp : Config.Plain ⟨false, false, 16, none, false⟩ := ⟨rfl, rfl, Or.inl rfl, rfl⟩
  exact ⟨countdownScenario_matching, countdownScenario_short,
    noCollision_of_visits countdownScenario_matching.valid hp countdownScenario_short
      countdownScenario_hashes,
    countdownScenario_plain, countdownScenario_cached, not_cachingLosesNoBug_countdown⟩

end Smash
