import Smash.Lib.DepthFirst
import Smash.Proof.Dpor

/-!
# The schedules that DPOR selects

At every state DPOR selects some READY threads: the closure of the lowest one under dependence of next actions
(`Selected`, the persistent set). What it makes of a scenario can be said of the schedules of selected threads
alone, in dictionary order, without the search.

`Asleep sc s q` says when the sleep sets have `q` asleep where the schedule `s` leads, if nothing is left out
before: an earlier schedule of the same length has put `q` to sleep at this depth (`Slept`). That schedule has
tried `q`, or its parent has handed `q` down, for it had tried `q` itself or found it asleep. `s` and the earlier
schedule may lead to different states, and that is what is wrong with the sleep sets.
-/

set_option autoImplicit false

namespace Smash

variable {sc : Scenario} {cfg : Config}

/-! ## Selected threads -/

/-- The lowest READY thread, and the READY threads whose next actions are dependent, directly or over others,
on its own. -/
def Selected (sc : Scenario) (w : World) (q : Int) : Prop :=
  ∃ first, IsLeast {t | sc.Ready w t} first ∧
    Relation.ReflTransGen (fun p q => sc.Ready w q ∧ nextDependent sc w p q = true) first q

theorem Selected.ready {w : World} {q : Int} (h : Selected sc w q) : sc.Ready w q := by
  obtain ⟨first, hfirst, hreach⟩ := h
  cases hreach with
  | refl => exact hfirst.1
  | tail _ hpull => exact hpull.1

/-- **The persistent set holds the selected threads.** -/
theorem mem_persistentSet_iff (hv : sc.Valid) {w : World} {q : Int} :
    q ∈ computePersistentSet sc w (collectRunnable sc w smashMaxThreads) ↔ Selected sc w q := by
  have hmem : ∀ t, t ∈ collectRunnable sc w smashMaxThreads ↔ sc.Ready w t := fun t =>
    mem_collectRunnable hv
  have hsorted : (collectRunnable sc w smashMaxThreads).Pairwise (· < ·) := sorted_collectRunnable ..
  cases hrun : collectRunnable sc w smashMaxThreads with
  | nil =>
    have hnone : ¬ Selected sc w q := fun h => absurd ((hmem q).mpr h.ready) (by simp [hrun])
    simp [computePersistentSet, hnone]
  | cons first rest =>
    rw [hrun] at hmem hsorted
    have hleast : IsLeast {t | sc.Ready w t} first := by
      refine ⟨(hmem first).mp List.mem_cons_self, fun t ht => ?_⟩
      rcases List.mem_cons.mp ((hmem t).mpr ht) with rfl | ht
      · exact le_rfl
      · exact ((List.pairwise_cons.mp hsorted).1 t ht).le
    have hpulls : Saturate.Pulls (nextDependent sc w) (first :: rest)
        = fun p q => sc.Ready w q ∧ nextDependent sc w p q = true := by
      funext p q
      rw [Saturate.Pulls, hmem]
    rw [mem_computePersistentSet, hpulls]
    constructor
    · exact fun h => ⟨first, hleast, h⟩
    · rintro ⟨first', hfirst', h⟩
      exact hleast.unique hfirst' ▸ h

/-! ## Selected schedules -/

/-- Clean runs of selected threads. -/
def selectedSystem (sc : Scenario) : TransitionSystem World Int := (cleanSystem sc).restrict (Selected sc)

/-- The schedule `s` of selected threads leads from a fresh engine to `w` without failing. -/
abbrev SelectedRun (sc : Scenario) (s : List Int) (w : World) : Prop :=
  (selectedSystem sc).Run (startWorld sc) s w

theorem selectedRun_nil : SelectedRun sc [] (startWorld sc) := TransitionSystem.Run.nil _

theorem SelectedRun.clean {s : List Int} {w : World} (h : SelectedRun sc s w) : CleanRun sc s w :=
  TransitionSystem.Run.of_restrict h

theorem SelectedRun.unique {s : List Int} {w w' : World} (h : SelectedRun sc s w)
    (h' : SelectedRun sc s w') : w = w' := h.clean.unique h'.clean

theorem SelectedRun.step {s : List Int} {w : World} {t : Int} (h : SelectedRun sc s w)
    (ht : Selected sc w t) (hok : stepFails sc w t = false) :
    SelectedRun sc (s ++ [t]) (w.executeStep sc t).world :=
  TransitionSystem.Run.snoc h ⟨⟨ht.ready, hok, rfl⟩, ht⟩

/-- How a selected schedule goes on from one of its prefixes. -/
theorem SelectedRun.next {s r : List Int} {t : Int} {w w' : World} (h : SelectedRun sc s w)
    (h' : SelectedRun sc (s ++ t :: r) w') : Selected sc w t ∧ stepFails sc w t = false := by
  obtain ⟨w₁, w₂, hrun, hst, -⟩ := TransitionSystem.Run.split h'
  obtain rfl : w₁ = w := SelectedRun.unique hrun h
  exact ⟨hst.2, hst.1.2.1⟩

/-- A selected schedule shorter than `d` at whose end every thread is DONE. -/
def SelectedDone (sc : Scenario) (d : Nat) (s : List Int) : Prop :=
  ∃ w, SelectedRun sc s w ∧ s.length < d ∧ allDone sc w = true

/-- A selected schedule that deadlocks, or ends in a selected step that fails, above depth `d`. -/
def SelectedBug (sc : Scenario) (d : Nat) (s : List Int) : Prop :=
  (∃ w, SelectedRun sc s w ∧ s.length < d ∧ Stuck sc w ∧ allDone sc w = false) ∨
  ∃ s' t w, s = s' ++ [t] ∧ SelectedRun sc s' w ∧ s'.length < d ∧ Selected sc w t ∧
    stepFails sc w t = true

/-! ## Asleep -/

/-- What the schedule `s` puts to sleep at its depth: the threads it tries, and those that its parent hands
down behind it. -/
inductive Slept (sc : Scenario) : List Int → Int → Prop
  | tried {s : List Int} {w : World} {q : Int} : SelectedRun sc s w → Selected sc w q → Slept sc s q
  | passed {s : List Int} {p q : Int} {w w' : World} : SelectedRun sc s w → SelectedRun sc (s ++ [p]) w' →
      Selected sc w q → q ≤ p → Slept sc (s ++ [p]) q
  | handed {s s' : List Int} {p q : Int} {w w' : World} : SelectedRun sc s w →
      SelectedRun sc (s ++ [p]) w' → sc.Ready w q → s' < s → s'.length = s.length → Slept sc s' q →
      Slept sc (s ++ [p]) q

/-- An earlier schedule of the same length has put `q` to sleep. -/
def Asleep (sc : Scenario) (s : List Int) (q : Int) : Prop :=
  ∃ s' < s, s'.length = s.length ∧ Slept sc s' q

theorem Slept.run {s : List Int} {q : Int} (h : Slept sc s q) : ∃ w, SelectedRun sc s w := by
  cases h with
  | tried hrun _ => exact ⟨_, hrun⟩
  | passed _ hrun _ _ => exact ⟨_, hrun⟩
  | handed _ hrun _ _ _ _ => exact ⟨_, hrun⟩

/-- What a child puts to sleep: what it tries, and what its parent has tried up to it or found asleep. -/
theorem slept_child_iff {s : List Int} {p q : Int} {w w' : World} (hw : SelectedRun sc s w)
    (hw' : SelectedRun sc (s ++ [p]) w') : Slept sc (s ++ [p]) q ↔
      Selected sc w' q ∨ sc.Ready w q ∧ (Selected sc w q ∧ q ≤ p ∨ Asleep sc s q) := by
  constructor
  · generalize hx : s ++ [p] = x
    intro h
    cases h with
    | tried hrun hsel =>
      subst hx
      exact .inl (hrun.unique hw' ▸ hsel)
    | passed hrun _ hsel hle =>
      obtain ⟨rfl, hp⟩ := List.append_inj' hx rfl
      obtain rfl := (List.cons.inj hp).1
      obtain rfl := hrun.unique hw
      exact .inr ⟨hsel.ready, .inl ⟨hsel, hle⟩⟩
    | handed hrun _ hready hlt hlen hslept =>
      obtain ⟨rfl, hp⟩ := List.append_inj' hx rfl
      obtain rfl := (List.cons.inj hp).1
      obtain rfl := hrun.unique hw
      exact .inr ⟨hready, .inr ⟨_, hlt, hlen, hslept⟩⟩
  · rintro (hsel | ⟨hready, ⟨hsel, hle⟩ | ⟨s', hlt, hlen, hslept⟩⟩)
    · exact .tried hw' hsel
    · exact .passed hw hw' hsel hle
    · exact .handed hw hw' hready hlt hlen hslept

/-! ## How far a limit lets a search come -/

/-- Selected schedules of `D` meet a limit of the configuration. -/
def Met (sc : Scenario) (cfg : Config) (D : Set (List Int)) : Prop :=
  (cfg.stopOnFirstBug = true ∧ ∃ s ∈ D, SelectedBug sc cfg.bound s) ∨
  ∃ n, cfg.clamp.maxInterleavings = some n ∧ (n : ℕ∞) ≤ {s | s ∈ D ∧ SelectedDone sc cfg.bound s}.encard

/-- Wherever the limits let a search come, the selected threads are awake. -/
def SelectsAwake (sc : Scenario) (cfg : Config) : Prop :=
  ∀ s w q, SelectedRun sc s w → s.length < cfg.bound → ¬ Met sc cfg {x | x < s} → Selected sc w q →
    ¬ Asleep sc s q

/-- The schedule takes selected threads only. -/
def Comes (sc : Scenario) (x : List Int) : Prop :=
  ∀ s t r, x = s ++ t :: r → ∃ w, SelectedRun sc s w ∧ Selected sc w t

theorem Comes.selected {x s r : List Int} {t : Int} {w : World} (hx : Comes sc x) (heq : x = s ++ t :: r)
    (hs : SelectedRun sc s w) : Selected sc w t := by
  obtain ⟨v, hrun, hsel⟩ := hx s t r heq
  exact hrun.unique hs ▸ hsel

/-- Every prefix of a selected schedule is followed by a selected thread. -/
theorem SelectedRun.comes {s : List Int} {w : World} (h : SelectedRun sc s w) : Comes sc s := by
  rintro s' t r rfl
  obtain ⟨v, _, hrun, hst, -⟩ := TransitionSystem.Run.split h
  exact ⟨v, hrun, hst.2⟩

theorem SelectedRun.comes_snoc {s : List Int} {w : World} {t : Int} (h : SelectedRun sc s w)
    (ht : Selected sc w t) : Comes sc (s ++ [t]) := by
  intro s' u r heq
  rcases List.eq_nil_or_concat r with rfl | ⟨r, v, rfl⟩
  · obtain ⟨rfl, hu⟩ := List.append_inj' heq rfl
    obtain rfl := (List.cons.inj hu).1
    exact ⟨w, h, ht⟩
  · rw [List.concat_eq_append, ← List.cons_append, ← List.append_assoc] at heq
    exact h.comes s' u r (List.append_inj' heq rfl).1

theorem SelectedDone.comes {d : Nat} {s : List Int} (h : SelectedDone sc d s) : Comes sc s := by
  obtain ⟨w, hrun, -⟩ := h
  exact hrun.comes

theorem SelectedBug.comes {d : Nat} {s : List Int} (h : SelectedBug sc d s) : Comes sc s := by
  rcases h with ⟨w, hrun, -⟩ | ⟨s', t, w, rfl, hrun, -, hsel, -⟩
  · exact hrun.comes
  · exact hrun.comes_snoc hsel

theorem Slept.comes {s : List Int} {q : Int} (h : Slept sc s q) : Comes sc s := by
  obtain ⟨w, hrun⟩ := h.run
  exact hrun.comes

/-- Only schedules of selected threads count. -/
theorem Met.mono {D D' : Set (List Int)} (hsub : ∀ x ∈ D, Comes sc x → x ∈ D') (h : Met sc cfg D) :
    Met sc cfg D' := by
  rcases h with ⟨hstop, s, hs, hbug⟩ | ⟨n, hn, hle⟩
  · exact .inl ⟨hstop, s, hsub s hs hbug.comes, hbug⟩
  · exact .inr ⟨n, hn, hle.trans (Set.encard_le_encard fun s hs => ⟨hsub s hs.1 hs.2.comes, hs.2⟩)⟩

end Smash
