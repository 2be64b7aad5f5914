import Smash.Model.Stack32
import Smash.Proof.Events
import Smash.Proof.Prefix

/-!
# Stack depths in 32-bit integers

As long as no call takes a depth past `INT_MAX`, the 32-bit step is the step over unbounded integers
(`executeStep32_eq`), and `stack_depth` is the depth that the calls and returns add up to
(`Tracks.step`). A return never overflows. So the accounting is exact along a run if and only if no call of
the run goes past `INT_MAX` (`stackExact_iff`). The depth is a ghost beside the run (`depthAfter`); the limit does not prevent that, since the sum is computed
before it is compared.
-/

set_option autoImplicit false

namespace Smash

variable {sc : Scenario}

/-! ## The depth that calls and returns add up to -/

/-- Plus the units of a call, minus those of a return and not below zero. -/
def depthAfter (tid : Int) (act : Option Action) (d : Int → Int) : Int → Int :=
  match act with
  | none => d
  | some a =>
    match a.type with
    | .call => Function.update d tid (d tid + argOr a.arg 1)
    | .ret => Function.update d tid (max 0 (d tid - argOr a.arg 1))
    | _ => d

/-- `P` holds of every call of `smash_execute_step` on these threads, up to the first one that fails; it is
asked with the state and the depths before the call. -/
def along (sc : Scenario) (P : World → (Int → Int) → Int → Prop) : World → (Int → Int) → List Int → Prop
  | _, _, [] => True
  | w, d, tid :: rest =>
    P w d tid ∧ ((w.executeStep32 sc tid).fault = none →
      along sc P (w.executeStep32 sc tid).world (depthAfter tid (w.acting sc tid) d) rest)

/-! ## Exactness -/

/-- The arguments are `int`s, as the header declares them. -/
def Scenario.IntArgs (sc : Scenario) : Prop :=
  ∀ t, sc.IsThread t → ∀ pc a, sc.actionAt t pc = some a → IsInt a.arg

/-- The call fails as a stack overflow. -/
def World.Overflows (sc : Scenario) (w : World) (tid : Int) : Prop :=
  (w.executeStep32 sc tid).fault.isSome = true ∧
    ∃ e ∈ (w.executeStep32 sc tid).log, e.type = .stackOverflow

/-- The accounting is exact in this call. -/
structure StackExactAt (sc : Scenario) (w : World) (d : Int → Int) (tid : Int) : Prop where
  call : ∀ a, w.acting sc tid = some a → a.type = .call →
    IsInt ((w.threads tid).stackDepth + argOr a.arg 1)
  ret : ∀ a, w.acting sc tid = some a → a.type = .ret →
    IsInt ((w.threads tid).stackDepth - argOr a.arg 1)
  overflow : 0 < sc.stackSizes tid →
    (w.Overflows sc tid ↔ ∃ a, w.acting sc tid = some a ∧ a.type = .call ∧
      sc.stackSizes tid < d tid + argOr a.arg 1)

/-- A call that this step executes stays within an `int`. -/
def CallFits (sc : Scenario) (w : World) (d : Int → Int) (tid : Int) : Prop :=
  ∀ a, w.acting sc tid = some a → a.type = .call → d tid + argOr a.arg 1 ≤ intMax

/-- `stack_depth` is the depth, and an `int`. -/
structure Tracks (sc : Scenario) (w : World) (d : Int → Int) : Prop where
  depth : ∀ t, sc.IsThread t → (w.threads t).stackDepth = d t
  nonneg : ∀ t, 0 ≤ d t
  le_max : ∀ t, d t ≤ intMax

/-! ## The 32-bit step while the sums fit -/

theorem one_le_argOr (arg : Int) : 1 ≤ argOr arg 1 := by
  unfold argOr
  split <;> omega

theorem argOr_le {arg : Int} (h : IsInt arg) : argOr arg 1 ≤ intMax := by
  obtain ⟨_, hhigh⟩ := h
  unfold argOr
  simp only [intMax] at *
  split <;> omega

/-- The clock leaves the stack alone. -/
theorem tick_stackDepth (w : World) (t : Int) : ((w.tick sc).1.threads t).stackDepth = (w.threads t).stackDepth := by
  rw [tick_threads]
  split
  · unfold Thread.tick
    split
    · rfl
    split
    · rfl
    · rfl
  · rfl

theorem dispatch32_eq {w : World} {tid : Int} {a : Action}
    (hcall : a.type = .call → IsInt ((w.threads tid).stackDepth + argOr a.arg 1))
    (hret : a.type = .ret → IsInt ((w.threads tid).stackDepth - argOr a.arg 1)) :
    w.dispatch32 sc tid a = w.dispatch sc tid a := by
  obtain ⟨type, r, arg⟩ := a
  cases type with
  | call =>
    simp only [World.dispatch32, World.dispatch, actCall32, actCall]
    rw [wrap32_of_isInt (hcall rfl)]
  | ret =>
    simp only [World.dispatch32, World.dispatch, actReturn32, actReturn]
    rw [wrap32_of_isInt (hret rfl)]
  | _ => rfl

/-- **While the sums fit, the 32-bit step is the step.** -/
theorem executeStep32_eq {w : World} {tid : Int}
    (hcall : ∀ a, w.acting sc tid = some a → a.type = .call →
      IsInt ((w.threads tid).stackDepth + argOr a.arg 1))
    (hret : ∀ a, w.acting sc tid = some a → a.type = .ret →
      IsInt ((w.threads tid).stackDepth - argOr a.arg 1)) :
    w.executeStep32 sc tid = w.executeStep sc tid := by
  unfold World.executeStep32 World.executeStep World.runThread32 World.runThread
  unfold World.acting at hcall hret
  rw [← tick_stackDepth w tid] at hcall hret
  dsimp only at hcall hret ⊢
  by_cases hready : ((w.tick sc).1.threads tid).state = .ready
  · rw [if_pos hready] at hcall hret
    rw [if_neg (not_not.mpr hready), if_neg (not_not.mpr hready)]
    cases hact : sc.actionAt tid ((w.tick sc).1.threads tid).pc with
    | none => rfl
    | some a =>
      dsimp only
      rw [dispatch32_eq (hcall a hact) (hret a hact)]
  · rw [if_pos hready, if_pos hready]

theorem depthAfter_of_other {a : Action} (hcall : a.type ≠ .call) (hret : a.type ≠ .ret) (tid : Int)
    (d : Int → Int) : depthAfter tid (some a) d = d := by
  unfold depthAfter
  dsimp only
  split
  · exact absurd ‹_› hcall
  · exact absurd ‹_› hret
  · rfl

/-- An action that touches no resource writes the depth of the thread that runs it. -/
theorem keep_stackDepth (a : Action) (w : World) (tid u : Int) :
    (((w.modThread tid a.keep).advance tid).threads u).stackDepth =
      depthAfter tid (some a) (fun t => (w.threads t).stackDepth) u := by
  rw [show (((w.modThread tid a.keep).advance tid).threads u).stackDepth =
    ((w.modThread tid a.keep).threads u).stackDepth from congrArg Prod.snd (rest_advance _ tid u),
    World.modThread_threads]
  obtain ⟨type, r, arg⟩ := a
  cases type with
  | call =>
    simp only [depthAfter, Function.update_apply]
    split <;> rfl
  | ret =>
    simp only [depthAfter, Function.update_apply]
    split
    · show (if (w.threads tid).stackDepth - argOr arg 1 < 0 then 0
        else (w.threads tid).stackDepth - argOr arg 1) = _
      split <;> omega
    · rfl
  | _ =>
    rw [depthAfter_of_other (by simp) (by simp)]
    split
    · subst u
      rfl
    · rfl

/-- What an action makes of the depths. -/
theorem dispatch_stackDepth {w : World} {tid : Int} {a : Action} (hok : (w.dispatch sc tid a).fault = none)
    (u : Int) : ((w.dispatch sc tid a).world.threads u).stackDepth =
      depthAfter tid (some a) (fun t => (w.threads t).stackDepth) u := by
  cases hk : a.type.bookkeeping with
  | false =>
    have hcall : a.type ≠ .call := by
      intro h
      rw [h] at hk
      exact absurd hk (by decide)
    have hret : a.type ≠ .ret := by
      intro h
      rw [h] at hk
      exact absurd hk (by decide)
    rw [depthAfter_of_other hcall hret]
    exact congrArg Prod.snd ((dispatch_act hok).rest hk u)
  | true =>
    cases hcore : a.type.core with
    | true =>
      rw [dispatch_keep hk hcore hok]
      exact keep_stackDepth a w tid u
    | false =>
      -- The three types without a case in the `switch`.
      obtain ⟨type, r, arg⟩ := a
      change type.bookkeeping = true at hk
      change type.core = false at hcore
      cases type with
      | condWaitTimeout | mbPostTimeout | mbFetchTimeout => rfl
      | _ => first | exact absurd hk (by decide) | exact absurd hcore (by decide)

theorem executeStep_stackDepth {w : World} {tid : Int} (hok : (w.executeStep sc tid).fault = none) (u : Int) :
    ((w.executeStep sc tid).world.threads u).stackDepth =
      depthAfter tid (w.acting sc tid) (fun t => (w.threads t).stackDepth) u := by
  have htick : (fun t => ((w.tick sc).1.threads t).stackDepth) = fun t => (w.threads t).stackDepth :=
    funext (tick_stackDepth w)
  unfold World.acting
  dsimp only
  rcases executeStep_cases hok with ⟨hidle, hworld⟩ | ⟨hready, hend, hworld⟩ |
    ⟨a, hready, hat, _, hfault, hworld⟩
  · rw [if_neg hidle, hworld]
    exact tick_stackDepth w u
  · rw [if_pos hready, hend, hworld]
    exact (World.modThread_field (f := fun t => { t with state := .done }) Thread.stackDepth rfl u).trans
      (tick_stackDepth w u)
  · rw [if_pos hready, hat, hworld, dispatch_stackDepth hfault u, htick]

/-! ## What overflows -/

/-- An action other than a call reports no stack overflow. -/
theorem ne_stackOverflow {w : World} {tid : Int} {a : Action} (h : a.type ≠ .call) :
    ∀ e ∈ (w.dispatch sc tid a).log, e.type ≠ .stackOverflow := by
  intro e he hover
  have htype := (dispatch_reports w tid a e he).type
  rw [hover] at htype
  revert h htype
  cases a.type <;> simp [ActionType.reports]

/-- The log of a step has a stack overflow if the action's has. -/
theorem stackOverflow_mem_iff (hv : sc.Valid) {w : World} {tid : Int} (ht : sc.IsThread tid) :
    (∃ e ∈ (w.executeStep sc tid).log, e.type = .stackOverflow) ↔
      ∃ a, w.acting sc tid = some a ∧ ∃ e ∈ ((w.tick sc).1.dispatch sc tid a).log, e.type = .stackOverflow := by
  have hticks : ∀ e ∈ (w.tick sc).2, e.type ≠ .stackOverflow := by
    intro e he
    rw [tick_log] at he
    obtain ⟨i, _, rfl⟩ := List.mem_map.mp he
    simp
  unfold World.acting
  dsimp only
  by_cases hready : ((w.tick sc).1.threads tid).state = .ready
  · rw [if_pos hready, executeStep_log hv ⟨ht, hready⟩]
    unfold World.opening World.report
    constructor
    · rintro ⟨e, he, htype⟩
      rcases List.mem_append.mp he with he | he
      · exact absurd htype (hticks e he)
      cases hact : sc.actionAt tid ((w.tick sc).1.threads tid).pc with
      | none =>
        rw [hact] at he
        rw [List.mem_singleton.mp he] at htype
        exact absurd htype (by simp)
      | some a =>
        rw [hact] at he
        rcases List.mem_cons.mp he with rfl | he
        · exact absurd htype (by simp)
        · exact ⟨a, rfl, e, he, htype⟩
    · rintro ⟨a, hact, e, he, htype⟩
      rw [hact]
      exact ⟨e, List.mem_append_right _ (List.mem_cons_of_mem _ he), htype⟩
  · rw [if_neg hready, (executeStep_of_idle hready).1]
    exact iff_of_false (fun ⟨e, he, htype⟩ => hticks e he htype) fun ⟨_, hnone, _⟩ => absurd hnone (by simp)

/-- A step fails as a stack overflow if it is a call past the limit. -/
theorem overflows_iff (hv : sc.Valid) {w : World} {tid : Int} (ht : sc.IsThread tid)
    (h32 : w.executeStep32 sc tid = w.executeStep sc tid) (hlimit : 0 < sc.stackSizes tid) :
    w.Overflows sc tid ↔ ∃ a, w.acting sc tid = some a ∧ a.type = .call ∧
      sc.stackSizes tid < (w.threads tid).stackDepth + argOr a.arg 1 := by
  unfold World.Overflows
  rw [h32, stackOverflow_mem_iff hv ht]
  constructor
  · rintro ⟨_, a, hact, e, he, htype⟩
    have hcall : a.type = .call := by
      by_contra hne
      exact ne_stackOverflow hne e he htype
    refine ⟨a, hact, hcall, ?_⟩
    obtain ⟨type, r, arg⟩ := a
    obtain rfl : type = .call := hcall
    rw [← @tick_stackDepth sc w tid]
    simp only [World.dispatch, actCall] at he
    by_contra hfits
    rw [if_neg fun h => hfits h.2] at he
    rw [List.mem_singleton.mp he] at htype
    exact absurd htype (by simp)
  · rintro ⟨⟨type, r, arg⟩, hact, hcall, hpast⟩
    obtain rfl : type = .call := hcall
    obtain ⟨hready, hat⟩ := acting_eq_some hact
    rw [← @tick_stackDepth sc w tid] at hpast
    have hdispatch : ((w.tick sc).1.dispatch sc tid ⟨.call, r, arg⟩).fault.isSome = true ∧
        ∃ e ∈ ((w.tick sc).1.dispatch sc tid ⟨.call, r, arg⟩).log, e.type = .stackOverflow := by
      simp only [World.dispatch, actCall]
      rw [if_pos ⟨hlimit, hpast⟩]
      exact ⟨rfl, _, List.mem_singleton.mpr rfl, rfl⟩
    refine ⟨?_, _, hact, hdispatch.2⟩
    cases hok : (w.executeStep sc tid).fault with
    | some msg => rfl
    | none =>
      rcases executeStep_cases hok with ⟨hidle, _⟩ | ⟨_, hend, _⟩ | ⟨a, _, hat', _, hfault, _⟩
      · exact absurd hready hidle
      · rw [hat] at hend
        exact absurd hend (by simp)
      · rw [hat] at hat'
        cases hat'
        rw [hfault] at hdispatch
        exact absurd hdispatch.1 (by simp)

/-! ## Along a run -/

section step

variable {w : World} {d : Int → Int} {tid : Int}

theorem isInt_call (ht : sc.IsThread tid) (h : Tracks sc w d) (hfits : CallFits sc w d tid)
    (a : Action) (hact : w.acting sc tid = some a) (hcall : a.type = .call) :
    IsInt ((w.threads tid).stackDepth + argOr a.arg 1) := by
  have hunits := one_le_argOr a.arg
  have hnonneg := h.nonneg tid
  have hmax := hfits a hact hcall
  rw [h.depth tid ht]
  exact ⟨by simp only [intMax]; omega, hmax⟩

/-- A return never overflows. -/
theorem isInt_ret (hint : sc.IntArgs) (ht : sc.IsThread tid) (h : Tracks sc w d) (a : Action)
    (hact : w.acting sc tid = some a) : IsInt ((w.threads tid).stackDepth - argOr a.arg 1) := by
  obtain ⟨_, hat⟩ := acting_eq_some hact
  have harg := hint tid ht _ a hat
  have hlow := one_le_argOr a.arg
  have hhigh := argOr_le harg
  have hnonneg := h.nonneg tid
  have hmax := h.le_max tid
  rw [h.depth tid ht]
  simp only [intMax] at hhigh hmax
  exact ⟨by simp only [intMax]; omega, by simp only [intMax]; omega⟩

theorem step_of_fits (hint : sc.IntArgs) (ht : sc.IsThread tid) (h : Tracks sc w d)
    (hfits : CallFits sc w d tid) : w.executeStep32 sc tid = w.executeStep sc tid :=
  executeStep32_eq (isInt_call ht h hfits) fun a hact _ => isInt_ret hint ht h a hact

/-- **One call is exact if and only if it fits.** -/
theorem stackExactAt_iff (hv : sc.Valid) (hint : sc.IntArgs) (ht : sc.IsThread tid) (h : Tracks sc w d) :
    StackExactAt sc w d tid ↔ CallFits sc w d tid := by
  constructor
  · intro hexact a hact hcall
    rw [← h.depth tid ht]
    exact (hexact.call a hact hcall).2
  · intro hfits
    refine ⟨isInt_call ht h hfits, fun a hact _ => isInt_ret hint ht h a hact, fun hlimit => ?_⟩
    rw [overflows_iff hv ht (step_of_fits hint ht h hfits) hlimit, h.depth tid ht]

/-- The depths after an action are those that calls and returns add up to. -/
theorem depthAfter_bounds (hnonneg : ∀ t, 0 ≤ d t) (hmax : ∀ t, d t ≤ intMax) {act : Option Action}
    (hfits : ∀ a, act = some a → a.type = .call → d tid + argOr a.arg 1 ≤ intMax) (t : Int) :
    0 ≤ depthAfter tid act d t ∧ depthAfter tid act d t ≤ intMax := by
  have hsame : 0 ≤ d t ∧ d t ≤ intMax := ⟨hnonneg t, hmax t⟩
  cases act with
  | none => exact hsame
  | some a =>
    obtain ⟨type, r, arg⟩ := a
    have hunits := one_le_argOr arg
    have hd := hnonneg tid
    have hd' := hmax tid
    cases type with
    | call =>
      have hfit := hfits _ rfl rfl
      simp only [depthAfter, Function.update_apply]
      split
      · exact ⟨by omega, hfit⟩
      · exact hsame
    | ret =>
      simp only [depthAfter, Function.update_apply]
      split
      · exact ⟨le_max_left _ _, max_le (by simp only [intMax]; omega) (by omega)⟩
      · exact hsame
    | _ => exact hsame

theorem depthAfter_congr {d' : Int → Int} (act : Option Action) {t : Int} (htid : d' tid = d tid)
    (ht : d' t = d t) : depthAfter tid act d' t = depthAfter tid act d t := by
  cases act with
  | none => exact ht
  | some a =>
    obtain ⟨type, r, arg⟩ := a
    cases type with
    | call | ret =>
      simp only [depthAfter, Function.update_apply, htid, ht]
    | _ => exact ht

/-- **A call that fits keeps the depths.** -/
theorem Tracks.step (hint : sc.IntArgs) (ht : sc.IsThread tid) (h : Tracks sc w d)
    (hfits : CallFits sc w d tid) (hok : (w.executeStep32 sc tid).fault = none) :
    Tracks sc (w.executeStep32 sc tid).world (depthAfter tid (w.acting sc tid) d) := by
  rw [step_of_fits hint ht h hfits] at hok ⊢
  refine ⟨fun t htid => ?_, fun t => (depthAfter_bounds h.nonneg h.le_max hfits t).1,
    fun t => (depthAfter_bounds h.nonneg h.le_max hfits t).2⟩
  rw [executeStep_stackDepth hok t]
  exact depthAfter_congr _ (h.depth tid ht) (h.depth t htid)

end step

theorem tracks_reset (before : World) : Tracks sc (before.reset sc) fun _ => 0 := by
  refine ⟨fun t ht => ?_, fun _ => le_rfl, fun _ => by simp only [intMax]; omega⟩
  simp only [World.reset, if_pos ht]
  rfl

theorem along_iff (hv : sc.Valid) (hint : sc.IntArgs) {w : World} {d : Int → Int} (h : Tracks sc w d)
    {schedule : List Int} (hs : ∀ t ∈ schedule, sc.IsThread t) :
    along sc (StackExactAt sc) w d schedule ↔ along sc (CallFits sc) w d schedule := by
  induction schedule generalizing w d with
  | nil => exact Iff.rfl
  | cons t rest ih =>
    obtain ⟨ht, hrest⟩ := List.forall_mem_cons.mp hs
    rw [along, along, stackExactAt_iff hv hint ht h]
    exact and_congr_right fun hfits =>
      forall_congr' fun hok => ih (h.step hint ht hfits hok) hrest

/-- **The stack accounting is exact along a run if and only if no call of the run takes a depth past
`INT_MAX`.** -/
theorem stackExact_iff (hv : sc.Valid) (hint : sc.IntArgs) (before : World) {schedule : List Int}
    (hs : ∀ t ∈ schedule, sc.IsThread t) :
    along sc (StackExactAt sc) (before.reset sc) (fun _ => 0) schedule ↔
      along sc (CallFits sc) (before.reset sc) (fun _ => 0) schedule :=
  along_iff hv hint (tracks_reset before) hs

/-- One thread with a limit of 100 units calls one unit, and then `INT_MAX`. -/
def deepCall : Scenario :=
  { Scenario.ofSteps [[⟨.call, -1, 1⟩, ⟨.call, -1, intMax⟩]] [] [] with stackSizes := fun _ => 100 }

theorem deepCall_intArgs : deepCall.IntArgs := forall_actionAt (P := fun _ a => IsInt a.arg) (by decide)

theorem stackExact_iff_deepCall :
    along deepCall (StackExactAt deepCall) ((startWorld deepCall).reset deepCall) (fun _ => 0) [0, 0] ↔
      along deepCall (CallFits deepCall) ((startWorld deepCall).reset deepCall) (fun _ => 0) [0, 0] :=
  stackExact_iff (by decide) deepCall_intArgs (startWorld deepCall) (by decide)

/-- The sum wraps round to a depth below zero, and the call passes the limit of 100. -/
theorem deepCall_wraps :
    ¬ ∀ sc : Scenario, sc.Valid → sc.IntArgs → ∀ (before : World) (schedule : List Int),
      (∀ t ∈ schedule, sc.IsThread t) →
        along sc (StackExactAt sc) (before.reset sc) (fun _ => 0) schedule := by
  intro hclaim
  obtain ⟨_, hnext⟩ := hclaim deepCall (by decide) deepCall_intArgs World.zero [0, 0] (by decide)
  obtain ⟨hexact, _⟩ := hnext (by decide)
  have hsum := (hexact.call ⟨.call, -1, intMax⟩ (by decide) rfl).2
  exact absurd hsum (by decide)

end Smash
