import Smash.Proof.SymEngine

/-!
# What the encoders can say

`sym_engine.c` has encoders that a caller may combine as he likes. All that they assert are comparisons of
positions, but for `smash_sym_encode_no_deadlock`, which asserts that the last step of each thread comes after
position `-1`. The solver's integers have no beginning, so that bound excludes no order of the steps; and the
comparisons can always be met. So whatever encoders are called, in whatever order and however often, the
solver's only right answer is a model (`encoders_vacuous`).
-/

set_option autoImplicit false

namespace Smash

open OrderConstraints

variable {sc : Scenario}

/-- The encoders of `sym_engine.c` that compile. -/
inductive Encoder
  | programOrder
  | mutexExclusivity
  | semaphoreOrdering
  | priorityInheritance
  | noDeadlock
  deriving DecidableEq

/-- A call of the encoder. -/
def SymEngine.call (e : SymEngine) : Encoder → SymEngine
  | .programOrder => e.encodeProgramOrder
  | .mutexExclusivity => e.encodeMutexExclusivity
  | .semaphoreOrdering => e.encodeSemaphoreOrdering
  | .priorityInheritance => e.encodePriorityInheritance
  | .noDeadlock => e.encodeNoDeadlock

/-- One call after the other. -/
def SymEngine.calls (e : SymEngine) (encoders : List Encoder) : SymEngine := encoders.foldl SymEngine.call e

/-- What an encoder asserts. -/
def Encoder.constraints (sc : Scenario) : Encoder → List (Constraint SymVar)
  | .programOrder => symProgramOrder sc
  | .mutexExclusivity => symMutexExclusivity sc
  | .semaphoreOrdering => symSemaphoreOrdering sc
  | .priorityInheritance => []
  | .noDeadlock => symNoDeadlock sc

theorem call_assertions (e : SymEngine) (encoder : Encoder) : (e.call encoder).scenario = e.scenario ∧
    (e.call encoder).assertions = e.assertions ++ encoder.constraints e.scenario := by
  cases encoder with
  | priorityInheritance => exact ⟨rfl, (List.append_nil _).symm⟩
  | _ => exact ⟨rfl, rfl⟩

theorem calls_assertions (e : SymEngine) (encoders : List Encoder) :
    (e.calls encoders).assertions = e.assertions ++ encoders.flatMap (·.constraints e.scenario) := by
  induction encoders generalizing e with
  | nil => exact (List.append_nil _).symm
  | cons encoder encoders ih =>
    obtain ⟨hscenario, hassertions⟩ := call_assertions e encoder
    show ((e.call encoder).calls encoders).assertions = _
    rw [ih, hassertions, hscenario, List.flatMap_cons, List.append_assoc]

/-- A comparison is among the three blocks that the verifier asserts, and the other constraints are bounds. -/
theorem mem_constraints {encoder : Encoder} {c : Constraint SymVar} (hc : c ∈ encoder.constraints sc) :
    (c.relative = true ∧ c ∈ symConstraints sc ∧ encoder ≠ .noDeadlock) ∨
      (c.relative = false ∧ encoder = .noDeadlock) := by
  cases encoder with
  | programOrder =>
    refine .inl ⟨?_, List.mem_append_left _ (List.mem_append_left _ hc), by simp⟩
    obtain ⟨_, _, _, rfl⟩ := mem_symProgramOrder.mp hc
    rfl
  | mutexExclusivity =>
    refine .inl ⟨?_, List.mem_append_left _ (List.mem_append_right _ hc), by simp⟩
    obtain ⟨_, _, _, _, _, _, _, _, _, _, _, _, rfl⟩ := mem_symMutexExclusivity hc
    rfl
  | semaphoreOrdering =>
    refine .inl ⟨?_, List.mem_append_right _ hc, by simp⟩
    obtain ⟨_, _, _, _, rfl⟩ := mem_symSemaphoreOrdering.mp hc
    rfl
  | priorityInheritance => exact absurd hc List.not_mem_nil
  | noDeadlock =>
    refine .inr ⟨?_, rfl⟩
    obtain ⟨t, _, ht⟩ := List.mem_filterMap.mp hc
    split at ht
    · exact absurd ht (by simp)
    · cases ht
      rfl

theorem symEngineInit_fields {k : Int} {e : SymEngine} (h : symEngineInit sc k = some e) :
    e.scenario = sc ∧ e.assertions = [] := by
  unfold symEngineInit at h
  split at h
  · exact absurd h (by simp)
  · split at h
    · exact absurd h (by simp)
    · cases h
      exact ⟨rfl, rfl⟩

/-- **No combination of encoders can be refuted**, and the encoder against deadlock excludes no order: what
meets the assertions of the other calls meets them all when it is shifted. -/
theorem encoders_vacuous {k : Int} {e : SymEngine} (hinit : symEngineInit sc k = some e)
    (encoders : List Encoder) : Satisfiable (e.calls encoders).assertions ∧
      ∀ σ, Satisfies σ (e.calls (encoders.filter (· ≠ .noDeadlock))).assertions →
        ∃ d : Int, Satisfies (fun v => σ v + d) (e.calls encoders).assertions := by
  obtain ⟨hscenario, hnone⟩ := symEngineInit_fields hinit
  have hcalls : ∀ encoders, (e.calls encoders).assertions = encoders.flatMap (·.constraints sc) := by
    intro encoders
    rw [calls_assertions, hnone, hscenario, List.nil_append]
  rw [hcalls, hcalls]
  constructor
  · obtain ⟨σ, hσ⟩ := symConstraints_satisfiable sc
    obtain ⟨d, hd⟩ := @satisfies_nonneg _ σ (encoders.flatMap (·.constraints sc)) fun c hc hrel => by
      obtain ⟨encoder, _, hmem⟩ := List.mem_flatMap.mp hc
      rcases mem_constraints hmem with ⟨_, hthree, _⟩ | ⟨hbound, _⟩
      · exact hσ c hthree
      · exact absurd (hrel.symm.trans hbound) (by simp)
    exact ⟨_, hd⟩
  · intro σ hσ
    refine satisfies_nonneg fun c hc hrel => ?_
    obtain ⟨encoder, hencoder, hmem⟩ := List.mem_flatMap.mp hc
    rcases mem_constraints hmem with ⟨_, _, hother⟩ | ⟨hbound, _⟩
    · exact hσ c (List.mem_flatMap.mpr ⟨encoder, List.mem_filter.mpr ⟨hencoder, by simpa using hother⟩, hmem⟩)
    · exact absurd (hrel.symm.trans hbound) (by simp)

/-- Not even for two threads that do deadlock. -/
theorem encoders_vacuous_abba : ∃ e, symEngineInit abbaDeadlock 10 = some e ∧
    Satisfiable (e.calls [.programOrder, .mutexExclusivity, .noDeadlock]).assertions :=
  ⟨_, rfl, (@encoders_vacuous abbaDeadlock 10 _ rfl _).1⟩

end Smash
