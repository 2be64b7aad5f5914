import Smash.Proof.Chronicle
import Smash.Proof.Selection

/-!
# A search that leaves nothing out as asleep

Until the first thread is left out as asleep, a search with DPOR is told by the selected schedules behind it:
how many of them ended and whether one had a bug is in its counters (`Tally`), and what they have put to sleep
is in its sleep sets (`Enters`). So the search leaves a thread out exactly when a selected thread is asleep
somewhere that the limits let it come, `leavesOut_iff`.
-/

set_option autoImplicit false

namespace Smash

open DepthFirst

variable {sc : Scenario} {cfg : Config}

/-! ## What the ledger says of the schedules behind the search -/

/-- The counters of the ledger are those of the selected schedules in `D`. -/
structure Tally (sc : Scenario) (cfg : Config) (D : Set (List Int)) (l : Ledger) : Prop where
  interleavings : (l.result.interleavings : ℕ∞) = {x | x ∈ D ∧ SelectedDone sc cfg.bound x}.encard
  bug : l.result.failingTrace.isSome = true ↔ ∃ x ∈ D, SelectedBug sc cfg.bound x

/-- The search is limited when the schedules behind it meet a limit. -/
theorem Tally.limited_iff {D : Set (List Int)} {l : Ledger} (h : Tally sc cfg D l) :
    l.limited cfg.clamp = true ↔ Met sc cfg D := by
  rw [Ledger.limited, Bool.or_eq_true, Met, ← h.interleavings, ← h.bug]
  refine or_congr ?_ ?_
  · rw [Ledger.stopped, Bool.and_eq_true, and_comm]
    rfl
  · unfold Ledger.enough
    cases cfg.clamp.maxInterleavings with
    | none => simp
    | some n => simp

/-- The counters see the schedules that end or have a bug only. -/
theorem Tally.congr {D D' : Set (List Int)} {l l' : Ledger} (h : Tally sc cfg D l)
    (hD : ∀ x, SelectedDone sc cfg.bound x ∨ SelectedBug sc cfg.bound x → (x ∈ D ↔ x ∈ D'))
    (hinter : l'.result.interleavings = l.result.interleavings)
    (htrace : l'.result.failingTrace = l.result.failingTrace) : Tally sc cfg D' l' where
  interleavings := by
    rw [hinter, h.interleavings]
    congr 1
    ext x
    exact and_congr_left fun hdone => hD x (.inl hdone)
  bug := by
    rw [htrace, h.bug]
    exact exists_congr fun x => and_congr_left fun hbug => hD x (.inr hbug)

theorem comes_of_done_or_bug {d : Nat} {x : List Int} (h : SelectedDone sc d x ∨ SelectedBug sc d x) :
    Comes sc x := h.elim SelectedDone.comes SelectedBug.comes

/-- A bug on a schedule that was not behind the search so far, and did not end. -/
theorem Tally.report {D D' : Set (List Int)} {l l' : Ledger} (h : Tally sc cfg D l)
    (hD : ∀ x, SelectedDone sc cfg.bound x → (x ∈ D ↔ x ∈ D'))
    (hinter : l'.result.interleavings = l.result.interleavings)
    (htrace : l'.result.failingTrace.isSome = true) {x : List Int} (hx : x ∈ D')
    (hbug : SelectedBug sc cfg.bound x) : Tally sc cfg D' l' where
  interleavings := by
    rw [hinter, h.interleavings]
    congr 1
    ext y
    exact and_congr_left fun hdone => hD y hdone
  bug := by
    rw [htrace]
    exact ⟨fun _ => ⟨x, hx, hbug⟩, fun _ => rfl⟩

/-- One more interleaving. -/
theorem Tally.done {D D' : Set (List Int)} {l l' : Ledger} (h : Tally sc cfg D l) {x : List Int}
    (hD : ∀ y, Comes sc y → (y ∈ D' ↔ y ∈ D ∨ y = x)) (hnew : x ∉ D)
    (hinter : l'.result.interleavings = l.result.interleavings + 1)
    (htrace : l'.result.failingTrace = l.result.failingTrace) (hdone : SelectedDone sc cfg.bound x)
    (hbug : ¬ SelectedBug sc cfg.bound x) : Tally sc cfg D' l' where
  interleavings := by
    have hset : {y | y ∈ D' ∧ SelectedDone sc cfg.bound y}
        = insert x {y | y ∈ D ∧ SelectedDone sc cfg.bound y} := by
      ext y
      rw [Set.mem_insert_iff]
      constructor
      · rintro ⟨hy, hend⟩
        exact ((hD y hend.comes).mp hy).elim (fun hmem => .inr ⟨hmem, hend⟩) .inl
      · rintro (rfl | ⟨hmem, hend⟩)
        · exact ⟨(hD y hdone.comes).mpr (.inr rfl), hdone⟩
        · exact ⟨(hD y hend.comes).mpr (.inl hmem), hend⟩
    rw [hset, Set.encard_insert_of_notMem fun hmem => hnew hmem.1, ← h.interleavings, hinter]
    rfl
  bug := by
    rw [htrace, h.bug]
    refine exists_congr fun y => and_congr_left fun hy => ?_
    rw [hD y hy.comes]
    exact ⟨.inl, fun h => h.resolve_right fun heq => hbug (heq ▸ hy)⟩

/-- Where the search is about to come to `s`: from its depth on, the sleep sets hold what the schedules before
`s` have put to sleep. -/
structure Enters (sc : Scenario) (cfg : Config) (s : List Int) (l : Ledger) : Prop where
  tally : Tally sc cfg {x | x < s} l
  asleep : ∀ k, s.length ≤ k → k < cfg.bound → ∀ q, q ∈ l.dpor.sleepSet k ↔
    ∃ x, x < s ∧ x.length = k ∧ Slept sc x q

/-- Where the search is at `s`, which leads to `w`, and `rest` is still before it: what is asleep there was
so, or was tried here. -/
structure AtWork (sc : Scenario) (cfg : Config) (s : List Int) (w : World) (rest : List Int) (l : Ledger) :
    Prop where
  tally : Tally sc cfg (sofar s rest) l
  own : s.length < cfg.bound → ∀ q, q ∈ l.dpor.sleepSet s.length ↔
    Asleep sc s q ∨ Selected sc w q ∧ q ∉ rest
  below : ∀ k, s.length < k → k < cfg.bound → ∀ q, q ∈ l.dpor.sleepSet k ↔
    ∃ x ∈ sofar s rest, x.length = k ∧ Slept sc x q

/-- Where the search is done with `s`, and goes back or stops. -/
def Leaves (sc : Scenario) (cfg : Config) (s : List Int) (w : World) (l : Ledger) : Prop :=
  l.limited cfg.clamp = true ∧ Met sc cfg (sofar s []) ∨
  l.limited cfg.clamp = false ∧ AtWork sc cfg s w [] l

theorem AtWork.leaves {s : List Int} {w : World} {l : Ledger} (h : AtWork sc cfg s w [] l) :
    Leaves sc cfg s w l := by
  cases hlimit : l.limited cfg.clamp with
  | true => exact .inl ⟨hlimit, h.tally.limited_iff.mp hlimit⟩
  | false => exact .inr ⟨hlimit, h⟩

/-! ## Nothing is left out -/

/-- Nothing was left out as asleep. -/
def Quiet (c : Chronicle) : Prop := ∀ w t, .leftOut w t ∉ c.choices

theorem quiet_iff {c : Chronicle} : Quiet c ↔ c.choices.all (!·.asleep) = true := by
  rw [List.all_eq_true]
  constructor
  · intro h x hx
    cases x with
    | executed w t => rfl
    | leftOut w t => exact absurd hx (h w t)
  · exact fun h w t hmem => absurd (h _ hmem) (by simp [Choice.asleep])

theorem Quiet.of_prefix {c c' : Chronicle} (h : Quiet c') (hle : c.choices <+: c'.choices) : Quiet c :=
  fun w t hmem => h w t (hle.subset hmem)

theorem Quiet.since {depth : Nat} {P : World → Prop} {c c' : Chronicle} (h : Quiet c)
    (hsince : Since depth P c c') : Quiet c' := by
  obtain ⟨new, hnew, hexec⟩ := hsince.choices
  intro w t hmem
  rw [hnew, List.mem_append] at hmem
  rcases hmem with hmem | hmem
  · exact h w t hmem
  · obtain ⟨v, u, heq, -⟩ := hexec _ hmem
    exact absurd heq (by simp)

/-- From `s` on the selected threads are awake wherever the limits let a search come. -/
def AwakeFrom (sc : Scenario) (cfg : Config) (s : List Int) : Prop :=
  ∀ x w q, s <+: x → SelectedRun sc x w → x.length < cfg.bound → ¬ Met sc cfg {y | y < x} →
    Selected sc w q → ¬ Asleep sc x q

/-! ## The loop of a node -/

/-- What the search does from `s` on: it leaves nobody out exactly when the selected threads are awake there, and
then its ledger is that of the schedules behind it. -/
structure Works (sc : Scenario) (cfg : Config) (s : List Int) (w : World) (awake : Prop) (c : Chronicle) :
    Prop where
  quiet : Quiet c ↔ awake
  leaves : Quiet c → Leaves sc cfg s w c.ledger

/-- A thread is left out, as it should not be. -/
theorem Works.of_leftOut {s : List Int} {w : World} {awake : Prop} {c : Chronicle} (h : ¬ Quiet c)
    (hasleep : ¬ awake) : Works sc cfg s w awake c :=
  ⟨⟨fun hq => absurd hq h, fun ha => absurd ha hasleep⟩, fun hq => absurd hq h⟩

theorem Works.of_quiet {s : List Int} {w : World} {awake : Prop} {c : Chronicle} (h : Quiet c)
    (hawake : awake) (hleaves : Leaves sc cfg s w c.ledger) : Works sc cfg s w awake c :=
  ⟨⟨fun _ => hawake, fun _ => h⟩, fun _ => hleaves⟩

/-- One more child, below which the selected threads are awake. -/
theorem Works.cons {s : List Int} {w : World} {t : Int} {rest : List Int} {c : Chronicle}
    (h : Works sc cfg s w (∀ t' ∈ rest, AwakeFrom sc cfg (s ++ [t'])) c) (ht : AwakeFrom sc cfg (s ++ [t])) :
    Works sc cfg s w (∀ t' ∈ t :: rest, AwakeFrom sc cfg (s ++ [t'])) c := by
  refine ⟨h.quiet.trans ?_, h.leaves⟩
  rw [List.forall_mem_cons]
  exact ⟨fun hrest => ⟨ht, hrest⟩, And.right⟩

section loop

variable {s : List Int} {w : World} (hs : SelectedRun sc s w) {done rest : List Int}
  (hready : ∀ t, t ∈ done ++ rest ↔ sc.Ready w t) (hsorted : (done ++ rest).Pairwise (· < ·))
include hs hready

/-- A schedule of selected threads goes on from `s` with one of the READY threads. -/
theorem Comes.mem {x : List Int} (hx : Comes sc x) (u : Int) (r : List Int) (heq : x = s ++ u :: r) :
    u ∈ done ++ rest := (hready u).mpr (hx.selected heq hs).ready

include hsorted

/-- Past a limit nobody comes. -/
theorem awakeFrom_of_met (h : Met sc cfg (sofar s rest)) {t : Int} (ht : t ∈ rest) :
    AwakeFrom sc cfg (s ++ [t]) := by
  rintro x w' q hx - - hwithin -
  refine absurd (h.mono fun y hy hcomes => ?_) hwithin
  exact lt_of_lt_of_prefix (lt_of_mem_sofar hsorted (hcomes.mem hs hready) hy ht) hx

end loop

section step

variable {s : List Int} {w : World} (hs : SelectedRun sc s w) {done rest : List Int} {t : Int}
  (hready : ∀ t', t' ∈ done ++ t :: rest ↔ sc.Ready w t')
  (hsorted : (done ++ t :: rest).Pairwise (· < ·)) {l : Ledger}
include hs hsorted

omit hs in
theorem notMem_rest : t ∉ rest := fun hmem =>
  lt_irrefl t ((List.pairwise_cons.mp (List.pairwise_append.mp hsorted).2.1).1 t hmem)

omit hs in
/-- A limit is met, and nobody comes to what is left. -/
theorem Works.of_limited (hs : SelectedRun sc s w) (hready : ∀ t', t' ∈ done ++ t :: rest ↔ sc.Ready w t')
    {c : Chronicle} (h : Quiet c) (hlimit : c.ledger.limited cfg.clamp = true)
    (hmet : Met sc cfg (sofar s rest)) (hawake : AwakeFrom sc cfg (s ++ [t])) :
    Works sc cfg s w (∀ t' ∈ t :: rest, AwakeFrom sc cfg (s ++ [t'])) c := by
  have hdone : done ++ t :: rest = (done ++ [t]) ++ rest := by simp
  refine .of_quiet h (List.forall_mem_cons.mpr ⟨hawake, fun t' ht' => ?_⟩)
    (.inl ⟨hlimit, hmet.mono fun x hx _ => ⟨hx.1, by simp⟩⟩)
  exact awakeFrom_of_met hs (hdone ▸ hready) (hdone ▸ hsorted) hmet ht'

/-- No selected schedule goes through `t`. -/
theorem mem_sofar_of_not_next (hno : ¬ (Selected sc w t ∧ stepFails sc w t = false)) {x : List Int} {v : World}
    (hx : SelectedRun sc x v) : x ∈ sofar s (t :: rest) ↔ x ∈ sofar s rest := by
  rw [mem_sofar_of_cons (notMem_rest hsorted)]
  refine ⟨.inl, fun h => h.resolve_right ?_⟩
  rintro ⟨r, rfl⟩
  rw [List.append_assoc, List.singleton_append] at hx
  exact hno (hs.next hx)

omit hsorted in
theorem awakeFrom_of_not_next (hno : ¬ (Selected sc w t ∧ stepFails sc w t = false)) :
    AwakeFrom sc cfg (s ++ [t]) := by
  rintro x v q ⟨r, rfl⟩ hx - - -
  rw [List.append_assoc, List.singleton_append] at hx
  exact absurd (hs.next hx) hno

/-- A READY thread that is not selected is passed over. -/
theorem AtWork.pruned (h : AtWork sc cfg s w (t :: rest) l) (hno : ¬ Selected sc w t) (depth : Nat) :
    AtWork sc cfg s w rest (l.countPruned cfg.clamp depth t) := by
  have hcomes : ∀ x, Comes sc x → (x ∈ sofar s (t :: rest) ↔ x ∈ sofar s rest) := by
    intro x hx
    rw [mem_sofar_of_cons (notMem_rest hsorted)]
    refine ⟨.inl, fun h => h.resolve_right ?_⟩
    rintro ⟨r, rfl⟩
    exact hno (hx.selected (List.append_assoc s [t] r) hs)
  refine ⟨h.tally.congr (fun x hx => hcomes x (comes_of_done_or_bug hx)) (interleavings_countPruned ..)
    (failingTrace_countPruned ..), fun hd q => ?_, fun k hk hb q => ?_⟩
  · rw [dpor_countPruned, h.own hd q]
    refine or_congr_right (and_congr_right fun hsel => not_congr ?_)
    rw [List.mem_cons]
    exact ⟨fun h => h.resolve_left fun heq => hno (heq ▸ hsel), .inr⟩
  · rw [dpor_countPruned, h.below k hk hb q]
    exact exists_congr fun x => and_congr_left fun hx => hcomes x hx.2.comes

variable (hdpor : cfg.clamp.enableDpor = true) (hdeep : s.length < cfg.bound)
include hdpor hdeep

omit hs hsorted in
theorem sleepSet_slept (l : Ledger) : (l.sleep cfg.clamp s.length t).dpor.sleepSet
    = Function.update l.dpor.sleepSet s.length (insert t (l.dpor.sleepSet s.length)) :=
  sleepSet_sleep hdpor l t (hdeep.trans_le cfg.bound_le)

omit hs in
/-- Once `t` was tried it is asleep, as what was tried before. -/
theorem AtWork.own_slept (h : AtWork sc cfg s w (t :: rest) l) (hsel : Selected sc w t) (q : Int) :
    q ∈ (l.sleep cfg.clamp s.length t).dpor.sleepSet s.length ↔
      Asleep sc s q ∨ Selected sc w q ∧ q ∉ rest := by
  rw [sleepSet_slept hdpor hdeep, Function.update_self, Finset.mem_insert, h.own hdeep q, List.mem_cons]
  constructor
  · rintro (rfl | hasleep | ⟨hq, hnot⟩)
    · exact .inr ⟨hsel, notMem_rest hsorted⟩
    · exact .inl hasleep
    · exact .inr ⟨hq, fun hmem => hnot (.inr hmem)⟩
  · rintro (hasleep | ⟨hq, hnot⟩)
    · exact .inr (.inl hasleep)
    · by_cases heq : q = t
      · exact .inl heq
      · exact .inr (.inr ⟨hq, fun h => h.elim heq hnot⟩)

/-- The step of a selected thread fails. -/
theorem AtWork.failed (h : AtWork sc cfg s w (t :: rest) l) (hsel : Selected sc w t)
    (hfails : stepFails sc w t = true) (n : Saved) :
    AtWork sc cfg s w rest ((l.sleep cfg.clamp s.length t).reportViolation n) := by
  have hno : ¬ (Selected sc w t ∧ stepFails sc w t = false) := fun h => absurd h.2 (by simp [hfails])
  refine ⟨h.tally.report (x := s ++ [t]) ?_ ?_ ?_ ?_ (.inr ⟨s, t, w, rfl, hs, hdeep, hsel, hfails⟩),
    fun _ q => h.own_slept hsorted hdpor hdeep hsel q, fun k hk hb q => ?_⟩
  · rintro x ⟨v, hx, -⟩
    exact mem_sofar_of_not_next hs hsorted hno hx
  · show (l.sleep cfg.clamp s.length t).result.interleavings = _
    rw [result_sleep]
  · simp [Ledger.reportViolation, Ledger.keepTrace]
  · exact (mem_sofar_of_cons (notMem_rest hsorted)).mpr (.inr (List.prefix_refl _))
  · show q ∈ (l.sleep cfg.clamp s.length t).dpor.sleepSet k ↔ _
    rw [sleepSet_slept hdpor hdeep, Function.update_of_ne (by omega), h.below k hk hb q]
    refine exists_congr fun x => and_congr_left fun hx => ?_
    obtain ⟨v, hrun⟩ := hx.2.run
    exact mem_sofar_of_not_next hs hsorted hno hrun

include hready

/-- The search goes down with `t`. -/
theorem AtWork.child (h : AtWork sc cfg s w (t :: rest) l) :
    Enters sc cfg (s ++ [t]) (l.sleep cfg.clamp s.length t) := by
  have hcons : ∀ x, Comes sc x → (x ∈ sofar s (t :: rest) ↔ x < s ++ [t]) := fun x hx =>
    mem_sofar_cons hsorted (hx.mem hs hready)
  refine ⟨h.tally.congr (fun x hx => hcons x (comes_of_done_or_bug hx))
    (congrArg Result.interleavings (result_sleep ..)) (congrArg Result.failingTrace (result_sleep ..)), fun k hk hb q => ?_⟩
  rw [List.length_append, List.length_singleton] at hk
  rw [sleepSet_slept hdpor hdeep, Function.update_of_ne (by omega), h.below k (by omega) hb q]
  exact exists_congr fun x => and_congr_left fun hx => hcons x hx.2.comes

/-- It comes back, and hands down what is asleep. -/
theorem AtWork.back (h : AtWork sc cfg s w (t :: rest) l) (hsel : Selected sc w t)
    (hok : stepFails sc w t = false) {back : Ledger}
    (hback : AtWork sc cfg (s ++ [t]) (w.executeStep sc t).world [] back)
    (habove : back.dpor.sleepSet s.length = (l.sleep cfg.clamp s.length t).dpor.sleepSet s.length) :
    AtWork sc cfg s w rest (back.propagate cfg.clamp s.length (done ++ t :: rest)) := by
  have hchild := hs.step hsel hok
  have hlen : (s ++ [t]).length = s.length + 1 := by simp
  have hcomes : ∀ x, Comes sc x → (x ∈ sofar (s ++ [t]) [] ↔ x ∈ sofar s rest) := fun x hx =>
    (mem_sofar_back hsorted (hx.mem hs hready)).symm
  have hown : ∀ q, q ∈ back.dpor.sleepSet s.length ↔ Asleep sc s q ∨ Selected sc w q ∧ q ∉ rest := fun q => by
    rw [habove]
    exact h.own_slept hsorted hdpor hdeep hsel q
  refine ⟨hback.tally.congr (fun x hx => hcomes x (comes_of_done_or_bug hx))
    (congrArg Result.interleavings (result_propagate ..))
    (congrArg Result.failingTrace (result_propagate ..)), fun _ q => ?_, fun k hk hb q => ?_⟩
  · rw [above_propagate hdpor _ _ le_rfl]
    exact hown q
  have hroom : s.length + 1 < smashMaxDepth := lt_of_le_of_lt hk (hb.trans_le cfg.bound_le)
  rw [sleepSet_propagate hdpor _ _ hroom]
  rcases Nat.lt_or_eq_of_le (Nat.succ_le_of_lt hk) with hk' | rfl
  · rw [Function.update_of_ne (by omega), hback.below k (by omega) hb q]
    exact exists_congr fun x => and_congr_left fun hx => hcomes x hx.2.comes
  -- At the depth of the child: what it found, what it tried, and what is handed down behind it.
  have hhanded : q ∈ ((done ++ t :: rest).filter (· ∈ back.dpor.sleepSet s.length)).toFinset ↔
      sc.Ready w q ∧ (Selected sc w q ∧ q ≤ t ∨ Asleep sc s q) := by
    rw [List.mem_toFinset, List.mem_filter, hready, decide_eq_true_eq, hown, or_comm]
    refine and_congr_right fun hq => or_congr_left (and_congr_right fun _ => ?_)
    obtain ⟨-, hlater, hearlier⟩ := List.pairwise_append.mp hsorted
    constructor
    · intro hnot
      rcases List.mem_append.mp ((hready q).mpr hq) with hdone | hmem
      · exact (hearlier q hdone t List.mem_cons_self).le
      · exact ((List.mem_cons.mp hmem).resolve_right hnot).le
    · exact fun hle hmem => absurd ((List.pairwise_cons.mp hlater).1 q hmem) (not_lt_of_ge hle)
  have hfound := hback.own (hlen ▸ hb) q
  rw [hlen] at hfound
  rw [Function.update_self, Finset.mem_union, hfound, hhanded, and_iff_left (List.not_mem_nil), or_assoc,
    ← slept_child_iff hs hchild]
  constructor
  · rintro (⟨x, hlt, hxlen, hx⟩ | hx)
    · exact ⟨x, (hcomes x hx.comes).mp ⟨.inl hlt, by simp⟩, hxlen.trans hlen, hx⟩
    · exact ⟨s ++ [t], (hcomes _ hx.comes).mp ⟨.inr (List.prefix_refl _), by simp⟩, hlen, hx⟩
  · rintro ⟨x, hmem, hxlen, hx⟩
    rcases ((hcomes x hx.comes).mpr hmem).1 with hlt | hpre
    · exact .inl ⟨x, hlt, hxlen.trans hlen.symm, hx⟩
    · exact .inr (hpre.eq_of_length (hlen.trans hxlen.symm) ▸ hx)

end step

/-! ## The walk -/

section walk

variable (hdpor : cfg.clamp.enableDpor = true)
include hdpor

/-- What the loop of the node `n` does with the threads `rest`, once it has come to them. -/
def LoopWorks (sc : Scenario) (cfg : Config) (room : Nat) (n : Saved) (tried : Finset Int) (rest : List Int) :
    Prop :=
  ∀ c : Chronicle, Quiet c → c.ledger.limited cfg.clamp = false →
    AtWork sc cfg n.schedule n.world rest c.ledger →
    Works sc cfg n.schedule n.world (∀ t ∈ rest, AwakeFrom sc cfg (n.schedule ++ [t]))
      (chronicleLoop sc cfg.clamp (chronicle sc cfg.clamp room (n.schedule.length + 1)) n.schedule.length n
        tried rest c)

section loopStep

variable {room : Nat} {n : Saved} (hs : SelectedRun sc n.schedule n.world)
  (hdeep : n.schedule.length < cfg.bound) {tried : Finset Int} {done rest : List Int} {t : Int}
  (hready : ∀ t', t' ∈ done ++ t :: rest ↔ sc.Ready n.world t')
  (hsorted : (done ++ t :: rest).Pairwise (· < ·)) (ih : LoopWorks sc cfg room n tried rest)
include hs hdeep hready hsorted ih

/-- The search comes back from below `t`: it goes on, or a limit was met there. -/
theorem works_back (hrun : collectRunnable sc n.world smashMaxThreads = done ++ t :: rest) {l : Ledger}
    (h : AtWork sc cfg n.schedule n.world (t :: rest) l) (hsel : Selected sc n.world t)
    (hok : stepFails sc n.world t = false) {back next : Chronicle} (hquiet : Quiet back)
    (hworks : Works sc cfg (n.schedule ++ [t]) (n.step sc t).world (AwakeFrom sc cfg (n.schedule ++ [t])) back)
    (habove : back.ledger.dpor.sleepSet n.schedule.length
      = (l.sleep cfg.clamp n.schedule.length t).dpor.sleepSet n.schedule.length)
    (hnext : next = back.on (·.propagate cfg.clamp n.schedule.length
      (collectRunnable sc n.world smashMaxThreads))) :
    Works sc cfg n.schedule n.world (∀ t' ∈ t :: rest, AwakeFrom sc cfg (n.schedule ++ [t']))
      (if next.ledger.stopped cfg.clamp then next else
        chronicleLoop sc cfg.clamp (chronicle sc cfg.clamp room (n.schedule.length + 1)) n.schedule.length n
          tried rest next) := by
  have hawake := hworks.quiet.mp hquiet
  have hquiet' : Quiet next := hnext ▸ hquiet
  have hlimited : next.ledger.limited cfg.clamp = back.ledger.limited cfg.clamp := by
    rw [hnext]
    exact limited_congr (result_propagate ..)
  rcases hworks.leaves hquiet with ⟨hlimit, hmet⟩ | ⟨hlimit, hnode⟩
  · have hmet' : Met sc cfg (sofar n.schedule rest) := hmet.mono fun x hx hcomes =>
      (mem_sofar_back hsorted (hcomes.mem hs hready)).mpr hx
    rw [hlimit] at hlimited
    split
    · exact .of_limited hsorted hs hready hquiet' hlimited hmet' hawake
    · obtain ⟨hsince, hrestLimit⟩ := chronicleLoop_limited hdpor (hdeep.trans_le cfg.bound_le) room n tried rest
        next hlimited
      exact .of_limited hsorted hs hready (hquiet'.since hsince) hrestLimit hmet' hawake
  · have hnode := h.back hs hready hsorted hdpor hdeep hsel hok hnode habove
    rw [hlimit] at hlimited
    rw [if_neg (by simp [(Bool.or_eq_false_iff.mp hlimited).1])]
    refine (ih next hquiet' hlimited ?_).cons hawake
    rw [hnext, hrun]
    exact hnode

/-- The step of `t` fails: the search goes on, or stops at its first bug. -/
theorem works_failed {c reported : Chronicle} (hquiet : Quiet reported)
    (hlimit : c.ledger.limited cfg.clamp = false) (h : AtWork sc cfg n.schedule n.world (t :: rest) c.ledger)
    (hsel : Selected sc n.world t) (hfails : stepFails sc n.world t = true)
    (hreported : reported.ledger
      = (c.ledger.sleep cfg.clamp n.schedule.length t).reportViolation (n.step sc t)) :
    Works sc cfg n.schedule n.world (∀ t' ∈ t :: rest, AwakeFrom sc cfg (n.schedule ++ [t']))
      (if cfg.clamp.stopOnFirstBug then reported else
        chronicleLoop sc cfg.clamp (chronicle sc cfg.clamp room (n.schedule.length + 1)) n.schedule.length n
          tried rest reported) := by
  have hno : ¬ (Selected sc n.world t ∧ stepFails sc n.world t = false) := fun h => absurd h.2 (by simp [hfails])
  have hawake : AwakeFrom sc cfg (n.schedule ++ [t]) := awakeFrom_of_not_next hs hno
  have hfailed := h.failed hs hsorted hdpor hdeep hsel hfails (n.step sc t)
  rw [← hreported] at hfailed
  have hstops : reported.ledger.limited cfg.clamp = cfg.clamp.stopOnFirstBug := by
    rw [hreported, limited_reportViolation, limited_congr (result_sleep ..), hlimit, Bool.or_false]
  by_cases hstop : cfg.clamp.stopOnFirstBug = true
  · rw [if_pos hstop]
    exact .of_limited hsorted hs hready hquiet (hstops.trans hstop)
      (hfailed.tally.limited_iff.mp (hstops.trans hstop)) hawake
  · rw [if_neg hstop]
    exact (ih reported hquiet (hstops.trans (by simpa using hstop)) hfailed).cons hawake

end loopStep

/-- The loop, from any place in the list on. -/
theorem chronicleLoop_awake {room : Nat} {n : Saved} (hs : SelectedRun sc n.schedule n.world)
    (hdeep : n.schedule.length < cfg.bound)
    (hrec : ∀ t, Selected sc n.world t → stepFails sc n.world t = false → ∀ c : Chronicle, Quiet c →
      c.ledger.limited cfg.clamp = false → Enters sc cfg (n.schedule ++ [t]) c.ledger →
      Works sc cfg (n.schedule ++ [t]) (n.step sc t).world (AwakeFrom sc cfg (n.schedule ++ [t]))
        (chronicle sc cfg.clamp room (n.schedule.length + 1) (n.step sc t) c))
    (habove : ∀ (t : Int) (c : Chronicle), (chronicle sc cfg.clamp room (n.schedule.length + 1) (n.step sc t)
      c).ledger.dpor.sleepSet n.schedule.length = c.ledger.dpor.sleepSet n.schedule.length)
    {tried : Finset Int} (htried : ∀ t, t ∈ tried ↔ Selected sc n.world t) (done rest : List Int)
    (hrun : collectRunnable sc n.world smashMaxThreads = done ++ rest)
    (hready : ∀ t, t ∈ done ++ rest ↔ sc.Ready n.world t) (hsorted : (done ++ rest).Pairwise (· < ·)) :
    LoopWorks sc cfg room n tried rest := by
  induction rest generalizing done with
  | nil => exact fun c hquiet _ h => .of_quiet hquiet (by simp) h.leaves
  | cons t rest ih =>
    intro c hquiet hlimit h
    have hdone : done ++ t :: rest = (done ++ [t]) ++ rest := by simp
    have ih := ih (done ++ [t]) (hdone ▸ hrun) (hdone ▸ hready) (hdone ▸ hsorted)
    rw [chronicleLoop]
    by_cases hsel : Selected sc n.world t
    · rw [if_neg (not_not.mpr ((htried t).mpr hsel))]
      dsimp only
      obtain ⟨hsince, hsleptLimit, -, -⟩ := slept_spec hdpor (hdeep.trans_le cfg.bound_le) c n.world t
        (P := fun _ => True) trivial
      have hsleptQuiet := hquiet.since hsince
      rw [hlimit] at hsleptLimit
      by_cases hfails : stepFails sc n.world t = true
      · rw [if_pos hfails]
        exact works_failed hdpor hs hdeep hready hsorted ih hsleptQuiet hlimit h hsel hfails rfl
      have hok : stepFails sc n.world t = false := by simpa using hfails
      have hbackWorks := hrec t hsel hok _ hsleptQuiet hsleptLimit (h.child hs hready hsorted hdpor hdeep)
      rw [if_neg hfails]
      by_cases hback : Quiet (chronicle sc cfg.clamp room (n.schedule.length + 1) (n.step sc t)
          ((c.on (·.sleep cfg.clamp n.schedule.length t)).record [.executed n.world t]))
      · exact works_back hdpor hs hdeep hready hsorted ih hrun h hsel hok hback hbackWorks (habove t _) rfl
      · -- Someone was left out below.
        have hnever : ¬ ∀ t' ∈ t :: rest, AwakeFrom sc cfg (n.schedule ++ [t']) := fun hall =>
          hback (hbackWorks.quiet.mpr (hall t List.mem_cons_self))
        split
        · exact .of_leftOut hback hnever
        · exact .of_leftOut (fun hquiet' => hback (hquiet'.of_prefix
            (chronicleLoop_grows (chronicle_grows room _) _ n tried rest (Chronicle.on _ _)))) hnever
    · -- Not selected: passed over.
      rw [if_pos (mt (htried t).mp hsel)]
      exact (ih (c.on (·.countPruned cfg.clamp n.schedule.length t)) hquiet
        ((limited_countPruned ..).trans hlimit) (h.pruned hs hsorted hsel _)).cons
          (awakeFrom_of_not_next hs fun hno => hsel hno.1)

/-- The loop of a node at `depth` writes the sleep sets of `depth` and below. -/
theorem chronicleLoop_above {recurse : Saved → Chronicle → Chronicle} {depth : Nat} {k : Nat} (hk : k < depth)
    (hd : depth < smashMaxDepth)
    (hrec : ∀ n c, (recurse n c).ledger.dpor.sleepSet k = c.ledger.dpor.sleepSet k) (n : Saved)
    (tried : Finset Int) (rest : List Int) (c : Chronicle) :
    (chronicleLoop sc cfg.clamp recurse depth n tried rest c).ledger.dpor.sleepSet k
      = c.ledger.dpor.sleepSet k := by
  induction rest generalizing c with
  | nil => rfl
  | cons t rest ih =>
    rw [chronicleLoop]
    split
    · rw [ih, Chronicle.on_ledger, dpor_countPruned]
    obtain ⟨hsince, -, -, -⟩ := slept_spec hdpor hd c n.world t (P := fun _ => True) trivial
    have hslept := hsince.above k hk
    dsimp only
    split
    · split
      · exact hslept
      · rw [ih]
        exact hslept
    · have hback : (((recurse (n.step sc t) ((c.on (·.sleep cfg.clamp depth t)).record
          [.executed n.world t])).on (·.propagate cfg.clamp depth
            (collectRunnable sc n.world smashMaxThreads))).ledger.dpor.sleepSet k)
              = c.ledger.dpor.sleepSet k := by
        rw [Chronicle.on_ledger, above_propagate hdpor _ _ hk.le, hrec]
        exact hslept
      split
      · exact hback
      · rw [ih]
        exact hback

/-- Below a node the sleep sets above it stay as they are. -/
theorem chronicle_above (room depth : Nat) (n : Saved) (c : Chronicle) {k : Nat} (hk : k < depth)
    (hroom : room + depth = smashMaxDepth) :
    (chronicle sc cfg.clamp room depth n c).ledger.dpor.sleepSet k = c.ledger.dpor.sleepSet k := by
  induction room generalizing depth n c with
  | zero =>
    rw [chronicle]
    split <;> rfl
  | succ room ih =>
    rw [chronicle]
    split
    · rfl
    split
    · rfl
    unfold chronicleNode
    split
    · rfl
    split
    · rfl
    split
    · rfl
    · dsimp only
      rw [chronicleLoop_above hdpor hk (by omega) fun m c => ih (depth + 1) m c (by omega) (by omega)]
      show (c.ledger.cacheMark sc cfg.clamp n.world).dpor.sleepSet k = _
      unfold Ledger.cacheMark
      split <;> rfl

omit hdpor in
/-- At the depth limit nothing is tried. -/
theorem Enters.shallow {s : List Int} {w : World} (hs : SelectedRun sc s w) {l l' : Ledger}
    (h : Enters sc cfg s l) (hshallow : cfg.bound ≤ s.length) (hresult : l'.result = l.result) :
    Leaves sc cfg s w l' := by
  refine AtWork.leaves ⟨h.tally.congr (fun x hx => ?_) (congrArg Result.interleavings hresult)
    (congrArg Result.failingTrace hresult), fun hdeep => ?_, fun k hk hb => ?_⟩
  · have hshort : ¬ s <+: x := by
      intro hpre
      have hle := hpre.length_le
      rcases hx with ⟨_, -, hlen, -⟩ | ⟨_, -, hlen, -⟩ | ⟨s', t, v, rfl, hrun, hlen, -, hfails⟩
      · omega
      · omega
      · rw [List.length_append, List.length_singleton] at hle
        obtain rfl := hpre.eq_of_length (by rw [List.length_append, List.length_singleton]; omega)
        have hok := (hrun.next hs).2
        rw [hfails] at hok
        exact absurd hok (by simp)
    simp [sofar, hshort]
  · omega
  · omega

omit hdpor in
theorem mem_sofar_entered {s : List Int} {w : World} (hs : SelectedRun sc s w) {all : List Int}
    (hall : ∀ t, t ∈ all ↔ sc.Ready w t) {x : List Int} (hx : Comes sc x) :
    x ∈ sofar s all ↔ x < s ∨ x = s :=
  mem_sofar_all fun u _ heq => (hall u).mpr (hx.selected heq hs).ready

omit hdpor in
/-- Before its first choice a node finds what it was entered with. -/
theorem Enters.atNode {s : List Int} {w : World} (hs : SelectedRun sc s w) {l l' : Ledger}
    (h : Enters sc cfg s l) {all : List Int} (hall : ∀ t, t ∈ all ↔ sc.Ready w t)
    (htally : Tally sc cfg (sofar s all) l') (hsame : l'.dpor = l.dpor) : AtWork sc cfg s w all l' := by
  refine ⟨htally, fun hdeep q => ?_, fun k hk hb q => ?_⟩
  · have hnever : ¬ (Selected sc w q ∧ q ∉ all) := fun hq => hq.2 ((hall q).mpr hq.1.ready)
    rw [hsame, h.asleep s.length le_rfl hdeep q, or_iff_left hnever]
    rfl
  · rw [hsame, h.asleep k hk.le hb q]
    refine exists_congr fun x => and_congr_left fun ⟨hlen, hx⟩ => ?_
    rw [mem_sofar_entered hs hall hx.comes]
    exact ⟨.inl, fun h => h.resolve_right fun heq => absurd (heq ▸ hlen) (by omega)⟩

omit hdpor in
theorem awakeFrom_of_stuck {s : List Int} {w : World} (hs : SelectedRun sc s w) (hstuck : Stuck sc w) :
    AwakeFrom sc cfg s := by
  rintro x v q ⟨r, rfl⟩ hx - - hsel
  cases r with
  | nil =>
    rw [List.append_nil] at hx
    exact absurd (hx.unique hs ▸ hsel.ready) (hstuck q)
  | cons t r => exact absurd (hs.next hx).1.ready (hstuck t)

omit hdpor in
/-- A selected schedule that goes through is no violation. -/
theorem SelectedRun.not_bug {s : List Int} {w : World} (hs : SelectedRun sc s w) {d : Nat}
    (hnot : Stuck sc w → allDone sc w = true) : ¬ SelectedBug sc d s := by
  rintro (⟨v, hrun, -, hstuck, hdone⟩ | ⟨s', t, v, rfl, hrun, -, -, hfails⟩)
  · obtain rfl := hrun.unique hs
    exact absurd (hnot hstuck) (by simp [hdone])
  · have hok := (hrun.next hs).2
    rw [hfails] at hok
    exact absurd hok (by simp)

omit hdpor in
/-- A node with no READY thread is a leaf. -/
theorem works_of_leaf {s : List Int} {w : World} (hs : SelectedRun sc s w) (hstuck : Stuck sc w)
    {c c' : Chronicle} (hquiet : Quiet c) (h : Enters sc cfg s c.ledger) (hchoices : c'.choices = c.choices)
    (hsame : c'.ledger.dpor = c.ledger.dpor) (htally : Tally sc cfg (sofar s []) c'.ledger) :
    Works sc cfg s w (AwakeFrom sc cfg s) c' := by
  have hquiet' : Quiet c' := fun v t => hchoices ▸ hquiet v t
  have hall : ∀ t, t ∈ ([] : List Int) ↔ sc.Ready w t := fun t => ⟨fun h => absurd h (by simp),
    fun h => absurd h (hstuck t)⟩
  exact .of_quiet hquiet' (awakeFrom_of_stuck hs hstuck) (h.atNode hs hall htally hsame).leaves

omit hdpor in
/-- What is selected and asleep is left out, … -/
theorem mem_asleep_iff (hv : sc.Valid) (hdpor : cfg.clamp.enableDpor = true) {l : Ledger} {depth : Nat}
    (hd : depth < smashMaxDepth) {w : World} {q : Int} : q ∈ l.asleep sc cfg.clamp depth w ↔
      Selected sc w q ∧ q ∈ l.dpor.sleepSet depth := by
  have hcontains : ∀ t, l.dpor.sleepContains depth t = decide (t ∈ l.dpor.sleepSet depth) := fun t => by
    rw [Dpor.sleepContains, if_neg (by omega)]
  simp only [Ledger.asleep, hdpor, if_true, List.mem_filter, hcontains, decide_eq_true_eq,
    mem_persistentSet_iff hv]
  exact and_iff_right_of_imp fun h => (mem_collectRunnable hv).mpr h.1.ready

/-- … and what is selected and awake is tried. -/
theorem mem_tried_iff (hv : sc.Valid) {l : Ledger} {depth : Nat} (hd : depth < smashMaxDepth) {w : World} {q : Int} :
    q ∈ l.tried sc cfg.clamp depth w ↔ Selected sc w q ∧ q ∉ l.dpor.sleepSet depth := by
  rw [tried_dpor hdpor _ _ hd, Finset.mem_filter, mem_persistentSet_iff hv]

section node

variable {n : Saved} (hs : SelectedRun sc n.schedule n.world) {c : Chronicle}
  (h : Enters sc cfg n.schedule c.ledger)
include hs h

omit hdpor in
/-- Every thread is DONE. -/
theorem works_done (hdeep : n.schedule.length < cfg.bound) (hquiet : Quiet c)
    (hdone : allDone sc n.world = true) :
    Works sc cfg n.schedule n.world (AwakeFrom sc cfg n.schedule) (c.on (·.countInterleaving n)) := by
  have hstuck := stuck_of_allDone hdone
  have hall : ∀ t, t ∈ ([] : List Int) ↔ sc.Ready n.world t := fun t => ⟨fun h => absurd h (by simp),
    fun h => absurd h (hstuck t)⟩
  refine works_of_leaf hs hstuck hquiet h rfl rfl (h.tally.done (x := n.schedule) (fun y hy => ?_)
    (lt_irrefl n.schedule) rfl rfl ⟨n.world, hs, hdeep, hdone⟩ (hs.not_bug fun _ => hdone))
  exact mem_sofar_entered hs hall hy

omit hdpor in
/-- A deadlock. -/
theorem works_deadlock (hdeep : n.schedule.length < cfg.bound) (hquiet : Quiet c) (hstuck : Stuck sc n.world)
    (hdone : allDone sc n.world = false) :
    Works sc cfg n.schedule n.world (AwakeFrom sc cfg n.schedule) (c.on (·.reportDeadlock n)) := by
  have hall : ∀ t, t ∈ ([] : List Int) ↔ sc.Ready n.world t := fun t => ⟨fun h => absurd h (by simp),
    fun h => absurd h (hstuck t)⟩
  refine works_of_leaf hs hstuck hquiet h rfl rfl (h.tally.report (x := n.schedule) (fun x hx => ?_) rfl
    (by simp [Ledger.reportDeadlock, Ledger.keepTrace]) ((mem_sofar_entered hs hall hs.comes).mpr (.inr rfl))
    (.inl ⟨n.world, hs, hdeep, hstuck, hdone⟩))
  rw [mem_sofar_entered hs hall hx.comes]
  refine ⟨.inl, fun h => h.resolve_right ?_⟩
  rintro rfl
  obtain ⟨v, hrun, -, hend⟩ := hx
  obtain rfl := hrun.unique hs
  exact absurd hend (by simp [hdone])

omit hdpor in
/-- Some thread is READY, and the node is about to try what it selects. -/
theorem atWork_of_ready {all : List Int} (hready : ∀ t, t ∈ all ↔ sc.Ready n.world t) (hne : all ≠ []) :
    AtWork sc cfg n.schedule n.world all (c.ledger.countState n) := by
  obtain ⟨t, rest, rfl⟩ := List.exists_cons_of_ne_nil hne
  have hgo : ¬ Stuck sc n.world := fun hstuck => hstuck t ((hready t).mp List.mem_cons_self)
  have hopen : ¬ allDone sc n.world = true := fun hdone => hgo (stuck_of_allDone hdone)
  refine h.atNode hs hready (h.tally.congr (fun x hx => ?_) rfl rfl) rfl
  rw [mem_sofar_entered hs hready (comes_of_done_or_bug hx)]
  refine ⟨.inl, fun h => h.resolve_right ?_⟩
  rintro rfl
  cases hx with
  | inl hdone =>
    obtain ⟨v, hrun, -, hend⟩ := hdone
    exact hopen (hrun.unique hs ▸ hend)
  | inr hbug => exact hs.not_bug (fun hstuck => absurd hstuck hgo) hbug

end node

omit hdpor in
/-- The selected threads are awake from `s` on if they are at `s` and below each of its children. -/
theorem awakeFrom_iff {s : List Int} {w : World} (hs : SelectedRun sc s w) {all : List Int}
    (hready : ∀ t, t ∈ all ↔ sc.Ready w t) (hawake : ∀ q, Selected sc w q → ¬ Asleep sc s q) :
    (∀ t ∈ all, AwakeFrom sc cfg (s ++ [t])) ↔ AwakeFrom sc cfg s := by
  constructor
  · rintro hall x v q ⟨r, rfl⟩ hrun hshort hwithin hsel
    cases r with
    | nil =>
      rw [List.append_nil] at hrun ⊢
      exact hawake q (hrun.unique hs ▸ hsel)
    | cons t r =>
      have hnext := hs.next hrun
      exact hall t ((hready t).mpr hnext.1.ready) _ v q ⟨r, by simp⟩ hrun hshort hwithin hsel
  · intro hall t _ x v q hx
    exact hall x v q ((List.prefix_append _ _).trans hx)

/-- **The search leaves nobody out exactly when the selected threads are awake.** -/
theorem chronicle_awake (hv : sc.Valid) (hcache : cfg.clamp.enableStateCaching = false) (room depth : Nat)
    (n : Saved) (hn : AtRun sc room depth n) (hs : SelectedRun sc n.schedule n.world) (c : Chronicle)
    (hquiet : Quiet c) (hlimit : c.ledger.limited cfg.clamp = false)
    (h : Enters sc cfg n.schedule c.ledger) :
    Works sc cfg n.schedule n.world (AwakeFrom sc cfg n.schedule)
      (chronicle sc cfg.clamp room depth n c) := by
  have hmax := cfg.bound_le
  have hbound := cfg.bound_eq
  have hgo : (c.ledger.stopped cfg.clamp || c.ledger.enough cfg.clamp) = false := hlimit
  have hroom := hn.room
  obtain rfl := hn.length
  have hshallow : cfg.bound ≤ n.schedule.length → AwakeFrom sc cfg n.schedule := by
    intro hshallow x w q hx _ hdeep
    have := hx.length_le
    omega
  induction room generalizing n c with
  | zero =>
    rw [chronicle, hgo, if_neg Bool.false_ne_true]
    exact .of_quiet hquiet (hshallow (by omega)) (h.shallow hs (by omega) rfl)
  | succ room ih =>
    rw [chronicle, hgo, if_neg Bool.false_ne_true]
    by_cases hdepth : cfg.clamp.maxDepth ≤ n.schedule.length
    · rw [if_pos hdepth]
      exact .of_quiet hquiet (hshallow (by omega)) (h.shallow hs (by omega) rfl)
    rw [if_neg hdepth, chronicleNode]
    have hdeep : n.schedule.length < cfg.bound := by omega
    have hd : n.schedule.length < smashMaxDepth := by omega
    have hready : ∀ t, t ∈ collectRunnable sc n.world smashMaxThreads ↔ sc.Ready n.world t := fun t =>
      mem_collectRunnable hv
    by_cases hdone : allDone sc n.world = true
    · rw [if_pos hdone]
      exact works_done hs h hdeep hquiet hdone
    rw [if_neg hdone]
    by_cases hnone : collectRunnable sc n.world smashMaxThreads = []
    · rw [if_pos hnone]
      exact works_deadlock hs h hdeep hquiet ((collectRunnable_eq_nil hv).mp hnone) (by simpa using hdone)
    have hhit : c.ledger.cacheHit sc cfg.clamp n.world = false := by simp [Ledger.cacheHit, hcache]
    have hmark : c.ledger.cacheMark sc cfg.clamp n.world = c.ledger := by simp [Ledger.cacheMark, hcache]
    have hcounted : c.on (fun l => (l.cacheMark sc cfg.clamp n.world).countState n)
        = c.on (·.countState n) := by simp only [Chronicle.on, hmark]
    rw [if_neg hnone, hhit, if_neg Bool.false_ne_true, hcounted]
    dsimp only
    have hset : (c.ledger.countState n).dpor.sleepSet n.schedule.length
        = c.ledger.dpor.sleepSet n.schedule.length := rfl
    have hentered := h.asleep n.schedule.length le_rfl hdeep
    by_cases hasleep : ∃ q, Selected sc n.world q ∧ q ∈ c.ledger.dpor.sleepSet n.schedule.length
    · -- A selected thread is asleep, and the first thing the node does is to leave it out.
      obtain ⟨q, hsel, hq⟩ := hasleep
      refine .of_leftOut (fun hquiet' => ?_) fun hawake => ?_
      · refine (hquiet'.of_prefix (chronicleLoop_grows (chronicle_grows room (_ + 1)) ..)) n.world q ?_
        refine List.mem_append_right _ (List.mem_map_of_mem ?_)
        exact (mem_asleep_iff hv hdpor hd).mpr ⟨hsel, hset ▸ hq⟩
      · refine hawake n.schedule n.world q (List.prefix_refl _) hs hdeep (fun hmet => ?_) hsel
          ((hentered q).mp hq)
        rw [h.tally.limited_iff.mpr hmet] at hlimit
        exact absurd hlimit (by simp)
    have hnobody : (c.ledger.countState n).asleep sc cfg.clamp n.schedule.length n.world = [] :=
      List.eq_nil_iff_forall_not_mem.mpr fun q hq => hasleep ⟨q, (mem_asleep_iff hv hdpor hd).mp hq⟩
    have htried : ∀ t, t ∈ (c.ledger.countState n).tried sc cfg.clamp n.schedule.length n.world ↔
        Selected sc n.world t := by
      intro t
      rw [mem_tried_iff hdpor hv hd, hset]
      exact and_iff_left_of_imp fun hsel hmem => hasleep ⟨t, hsel, hmem⟩
    have hloop : LoopWorks sc cfg room n ((c.ledger.countState n).tried sc cfg.clamp n.schedule.length n.world)
        (collectRunnable sc n.world smashMaxThreads) := by
      refine chronicleLoop_awake hdpor hs hdeep (fun t hsel hok c' hquiet' hlimit' h' => ?_)
        (fun t c' => chronicle_above hdpor room _ _ c' (Nat.lt_succ_self _) (by omega)) htried [] _ rfl hready
        (sorted_collectRunnable ..)
      have hchild := hn.child (t := t) hsel.ready hok
      have hschedule := hn.schedule_step t
      have hlen : (n.step sc t).schedule.length = n.schedule.length + 1 := hchild.length
      rw [← hschedule] at h' ⊢
      rw [← hlen] at hchild ⊢
      refine ih (n.step sc t) (hschedule ▸ hs.step hsel hok) c' hquiet' hlimit' h' hlimit' hchild hchild.room ?_
      intro hle x w q hx _ hdeep'
      have := hx.length_le
      omega
    rw [Chronicle.on_ledger, hnobody]
    have hworks := hloop ((c.on (·.countState n)).record []) (by simpa [Quiet] using hquiet) hlimit
      (atWork_of_ready hs h hready hnone)
    exact ⟨hworks.quiet.trans (awakeFrom_iff hs hready fun q hsel hq => hasleep ⟨q, hsel, (hentered q).mpr hq⟩),
      hworks.leaves⟩

end walk

/-! ## The whole exploration -/

/-- Where the search starts nothing lies behind it. -/
theorem enters_init : Enters sc cfg [] Ledger.init := by
  have hbefore : ∀ x : List Int, ¬ x < [] := fun x => List.not_lt_nil x
  refine ⟨⟨?_, ?_⟩, fun k _ _ q => ?_⟩
  · have hempty : {x | x ∈ {x : List Int | x < []} ∧ SelectedDone sc cfg.bound x} = ∅ :=
      Set.eq_empty_iff_forall_notMem.mpr fun x hx => hbefore x hx.1
    rw [hempty, Set.encard_empty]
    rfl
  · constructor
    · exact fun h => absurd h (by simp [Ledger.init, Result.zero])
    · rintro ⟨x, hx, -⟩
      exact absurd hx (hbefore x)
  · constructor
    · exact fun hq => absurd hq (Finset.notMem_empty q)
    · rintro ⟨x, hx, -⟩
      exact absurd hx (hbefore x)

/-- **A thread is left out as asleep exactly when a selected thread is asleep somewhere within the limits.** -/
theorem leavesOut_iff (hv : sc.Valid) (hdpor : cfg.enableDpor = true) (hcache : cfg.enableStateCaching = false) :
    Quiet (exploreChronicle sc cfg) ↔ SelectsAwake sc cfg := by
  have hworks := chronicle_awake hdpor hv hcache smashMaxDepth 0 (rootNode sc) atRun_root selectedRun_nil
    ⟨.init, []⟩ (by simp [Quiet]) (limited_init cfg) enters_init
  exact hworks.quiet.trans ⟨fun hall x w q => hall x w q List.nil_prefix, fun hall x w q _ => hall x w q⟩

end Smash
