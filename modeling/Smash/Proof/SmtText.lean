import Smash.Lib.CString
import Smash.Lib.SmtScript
import Smash.Proof.Constraints
import Smash.Proof.Runs

/-!
# The text of the SMT export

What `smash_smt_export` writes is meant for a solver, which sees nothing but the text. `smtText_read_back`: a reader
of SMT-LIB accepts the text of every accepted scenario that has a step. It finds each step declared once, under a name
of its own, before it is used, and it finds the constraints of `Model.Smt`, so the text can be satisfied exactly if
these can.
-/

set_option autoImplicit false

namespace Smash

open OrderConstraints SmtScript

variable {sc : Scenario}

/-! ## Names -/

theorem isDelimiter_of_isDigit {c : Char} (h : c.isDigit = true) : SExpr.isDelimiter c = false := by
  have hne : ∀ d : Char, d.isDigit = false → c ≠ d := by
    rintro d hd rfl
    rw [h] at hd
    exact absurd hd.symm Bool.false_ne_true
  simp [SExpr.isDelimiter, SExpr.isBlank, hne ' ' (by decide), hne '\n' (by decide), hne '\r' (by decide),
    hne '\t' (by decide), hne ';' (by decide), hne '(' (by decide), hne ')' (by decide)]

theorem isDigit_toDigits {n : Nat} : ∀ c ∈ Nat.toDigits 10 n, c.isDigit = true := fun _ hc =>
  Nat.isDigit_of_mem_toDigits (by omega) (by omega) hc

/-- The name of a step of a thread, as characters. -/
theorem name_toList {t s : Nat} :
    (StepVar.name ⟨t, s⟩).toList = "step_T".toList ++ (Nat.toDigits 10 t ++ '_' :: Nat.toDigits 10 s) := by
  have hthread : (toString (t : Int)).toList = Nat.toDigits 10 t := Nat.toList_repr
  have hstep : (toString s).toList = Nat.toDigits 10 s := Nat.toList_repr
  simp only [StepVar.name, String.toList_append, hthread, hstep, List.append_assoc]
  rfl

theorem plainSymbol_name {v : StepVar} (h : 0 ≤ v.tid) : SExpr.PlainSymbol v.name := by
  obtain ⟨t, s⟩ := v
  obtain ⟨t, rfl⟩ := Int.eq_ofNat_of_zero_le h
  have hstem : "step_T".toList.all (fun c => !SExpr.isDelimiter c) = true := by decide
  have hdigits : ∀ n, (Nat.toDigits 10 n).all (fun c => !SExpr.isDelimiter c) = true := fun n =>
    List.all_eq_true.mpr fun c hc => by rw [isDelimiter_of_isDigit (isDigit_toDigits c hc)]; rfl
  unfold SExpr.PlainSymbol
  rw [name_toList]
  refine ⟨nofun, ?_⟩
  rw [List.all_append, List.all_append, List.all_cons, hstem, hdigits, hdigits]
  rfl

theorem toDigits_inj {m n : Nat} (h : Nat.toDigits 10 m = Nat.toDigits 10 n) : m = n := by
  rw [← Nat.ofDigitChars_ten_toDigits (n := m), h, Nat.ofDigitChars_ten_toDigits]

/-- **Two steps have two names.** -/
theorem name_inj {v v' : StepVar} (h : 0 ≤ v.tid) (h' : 0 ≤ v'.tid) (hname : v.name = v'.name) : v = v' := by
  obtain ⟨t, s⟩ := v
  obtain ⟨t', s'⟩ := v'
  obtain ⟨t, rfl⟩ := Int.eq_ofNat_of_zero_le h
  obtain ⟨t', rfl⟩ := Int.eq_ofNat_of_zero_le h'
  have hlist := congrArg String.toList hname
  rw [name_toList, name_toList] at hlist
  have hno : ∀ n, '_' ∉ Nat.toDigits 10 n := fun n hmem => absurd (isDigit_toDigits _ hmem) (by decide)
  have hrest := List.append_cancel_left hlist
  -- The underscore ends the number of the thread.
  obtain ⟨hthread, _, hstep⟩ := (List.append_cons_inj_of_notMem (hno t) (hno s)).mp hrest
  rw [toDigits_inj hthread, toDigits_inj hstep]

theorem tid_of_mem_stepVars {v : StepVar} (h : v ∈ sc.stepVars) : 0 ≤ v.tid := (Scenario.mem_stepVars.mp h).1.1

theorem nodup_names (sc : Scenario) : (sc.stepVars.map StepVar.name).Nodup := by
  refine (List.nodup_map_iff_inj_on sc.nodup_stepVars).mpr fun v hv v' hv' hname => ?_
  exact name_inj (tid_of_mem_stepVars hv) (tid_of_mem_stepVars hv') hname

/-! ## Lines -/

/-- The command on a line. -/
def SmtLine.command : SmtLine → Option SExpr
  | .blank | .comment _ => none
  | .setLogic => some (.list [.symbol "set-logic", .symbol "QF_LIA"])
  | .declare v => some (declaration v.name)
  | .assert c => some (assertion (c.map StepVar.name))
  | .checkSat => some (.list [.symbol "check-sat"])
  | .getModel => some (.list [.symbol "get-model"])

/-- A line that says what it means: its comment ends with it, its symbols are symbols. -/
def SmtLine.Plain (line : SmtLine) : Prop :=
  (∀ text, line = .comment text → '\n' ∉ text.toList) ∧ ∀ s ∈ line.command, s.Plain

theorem toString_string (s : String) : toString s = s := rfl

theorem renderLess_toList (p : StepVar × StepVar) :
    (renderLess p).toList = (comparisonTerm (p.1.name, p.2.name)).text := by
  simp [renderLess, toString_string, comparisonTerm, SExpr.text, SExpr.textAll]

theorem renderConstraint_toList (c : Constraint StepVar) :
    (renderConstraint c).toList = (constraintTerm (c.map StepVar.name)).text := by
  cases c with
  | nonneg v => simp [renderConstraint, toString_string, constraintTerm, Constraint.map, SExpr.text, SExpr.textAll]
  | less a b => exact renderLess_toList (a, b)
  | distinct vs =>
    simp [renderConstraint, constraintTerm, Constraint.map, SExpr.text, SExpr.textAll_cons, String.toList_join,
      List.flatMap_map]
  | anyLess pairs =>
    simp [renderConstraint, constraintTerm, Constraint.map, SExpr.text, SExpr.textAll_cons, String.toList_join,
      List.flatMap_map, renderLess_toList]

/-- **A line is its command**, or none. -/
theorem render_toList {line : SmtLine} {s : SExpr} (h : line.command = some s) : line.render.toList = s.text := by
  cases line with
  | blank | comment => exact absurd h nofun
  | setLogic | checkSat | getModel =>
    cases h
    rfl
  | declare v =>
    cases h
    have hrender : (SmtLine.declare v).render = s!"(declare-const {v.name} Int)" := rfl
    rw [hrender]
    simp [toString_string, declaration, SExpr.text, SExpr.textAll]
  | assert c =>
    cases h
    have hrender : (SmtLine.assert c).render = s!"(assert {renderConstraint c})" := rfl
    rw [hrender]
    simp [toString_string, assertion, SExpr.text, SExpr.textAll, renderConstraint_toList]

/-- One line, and what comes after it. -/
theorem lex_line {line : SmtLine} (h : line.Plain) (cs : List Char) :
    SExpr.lex .idle ((line.render ++ "\n").toList ++ cs) =
      SExpr.tokensAll line.command.toList ++ SExpr.lex .idle cs := by
  have hnewline : ∀ rest : List Char, SExpr.lex .idle ('\n' :: rest) = SExpr.lex .idle rest := fun rest => by
    rw [SExpr.lex_cons]
    rfl
  obtain ⟨hcomment, hplain⟩ := h
  have htext : (line.render ++ "\n").toList ++ cs = line.render.toList ++ '\n' :: cs := by
    rw [String.toList_append, List.append_assoc]
    rfl
  rw [htext]
  cases hcommand : line.command with
  | some s =>
    have hend : SExpr.Delimited ('\n' :: cs) := .cons rfl cs
    rw [render_toList hcommand, SExpr.lex_text s (hplain s hcommand) hend, hnewline, Option.toList_some,
      SExpr.tokensAll, SExpr.tokensAll, List.append_nil]
  | none =>
    cases line with
    | blank => exact hnewline cs
    | comment text =>
      have hskip := @SExpr.lex_comment (' ' :: text.toList) cs fun hmem =>
        hcomment text rfl ((List.mem_cons.mp hmem).resolve_left (by decide))
      have hrender : (SmtLine.comment text).render.toList ++ '\n' :: cs =
          ';' :: (' ' :: text.toList ++ '\n' :: cs) := by
        rw [show (SmtLine.comment text).render = "; " ++ text from rfl, String.toList_append, List.append_assoc]
        rfl
      rw [hrender, SExpr.lex_cons]
      exact hskip
    | setLogic | declare | assert | checkSat | getModel => exact absurd hcommand nofun

/-- **The text of plain lines is read as their commands.** -/
theorem read_smtText {lines : List SmtLine} (h : ∀ line ∈ lines, line.Plain) :
    SExpr.read (smtText lines) = some (lines.filterMap SmtLine.command) := by
  refine SExpr.read_of_lex ?_
  unfold smtText
  rw [String.toList_join]
  induction lines with
  | nil => rfl
  | cons line lines ih =>
    obtain ⟨hline, hrest⟩ := List.forall_mem_cons.mp h
    rw [List.map_cons, List.flatMap_cons, lex_line hline, ih hrest, ← SExpr.tokensAll_append]
    congr 1
    cases hcommand : line.command with
    | none => rw [List.filterMap_cons_none hcommand]; rfl
    | some s => rw [List.filterMap_cons_some hcommand]; rfl

/-! ## The lines of the export -/

theorem plain_blank : SmtLine.blank.Plain := ⟨nofun, nofun⟩

theorem plain_comment {text : String} (h : '\n' ∉ text.toList) : (SmtLine.comment text).Plain :=
  ⟨fun _ heq => SmtLine.comment.inj heq ▸ h, nofun⟩

theorem plain_declare {v : StepVar} (h : v ∈ sc.stepVars) : (SmtLine.declare v).Plain :=
  ⟨nofun, fun _ hs => Option.some.inj hs ▸ plain_declaration (plainSymbol_name (tid_of_mem_stepVars h))⟩

/-- A constraint on the steps of the scenario, with a part where it needs one. -/
structure OnSteps (sc : Scenario) (c : Constraint StepVar) : Prop where
  vars : c.vars ⊆ sc.stepVars
  printable : Printable (c.map StepVar.name)

theorem vars_map {V W : Type} (f : V → W) (c : Constraint V) : (c.map f).vars = c.vars.map f := by
  cases c with
  | anyLess pairs => simp [Constraint.map, Constraint.vars, List.map_flatMap, List.flatMap_map]
  | nonneg | less | distinct => rfl

theorem OnSteps.plain {c : Constraint StepVar} (h : OnSteps sc c) : (SmtLine.assert c).Plain := by
  refine ⟨nofun, fun _ hs => Option.some.inj hs ▸ plain_assertion fun x hx => ?_⟩
  rw [vars_map] at hx
  obtain ⟨v, hv, rfl⟩ := List.mem_map.mp hx
  exact plainSymbol_name (tid_of_mem_stepVars (h.vars hv))

theorem onSteps_nonneg {v : StepVar} (h : v ∈ sc.stepVars) : OnSteps sc (.nonneg v) :=
  ⟨List.cons_subset.mpr ⟨h, List.nil_subset _⟩, trivial⟩

/-- A line among assertions and comments. -/
def SmtLine.Asserts (sc : Scenario) : SmtLine → Prop
  | .assert c => OnSteps sc c
  | .comment text => '\n' ∉ text.toList
  | .blank => True
  | _ => False

theorem programOrder_asserts : ∀ line ∈ smtProgramOrder sc, line.Asserts sc := by
  intro line hline
  obtain ⟨t, ht, hline⟩ := List.mem_flatMap.mp hline
  obtain ⟨s, hs, rfl⟩ := List.mem_map.mp hline
  obtain ⟨hs, hlast⟩ := List.mem_filter.mp hs
  have hthread := Scenario.mem_threadIds.mp ht
  refine ⟨List.cons_subset.mpr ⟨?_, List.cons_subset.mpr ⟨?_, List.nil_subset _⟩⟩, trivial⟩
  · exact Scenario.mem_stepVars.mpr ⟨hthread, Scenario.mem_stepIds.mp hs⟩
  · exact Scenario.mem_stepVars.mpr ⟨hthread, of_decide_eq_true hlast⟩

theorem mutexExclusivity_asserts : ∀ line ∈ smtMutexExclusivity sc, line.Asserts sc := by
  intro line hline
  obtain ⟨t₁, ht₁, hline⟩ := List.mem_flatMap.mp hline
  obtain ⟨s₁, hs₁, hline⟩ := List.mem_flatMap.mp hline
  split at hline
  · exact absurd hline List.not_mem_nil
  dsimp only at hline
  split at hline
  · exact absurd hline List.not_mem_nil
  rename_i u₁ hu₁
  obtain ⟨t₂, ht₂, hline⟩ := List.mem_flatMap.mp hline
  obtain ⟨s₂, hs₂, hline⟩ := List.mem_flatMap.mp hline
  split at hline
  · exact absurd hline List.not_mem_nil
  split at hline
  · exact absurd hline List.not_mem_nil
  split at hline
  · exact absurd hline List.not_mem_nil
  rename_i u₂ hu₂
  obtain rfl := List.mem_singleton.mp hline
  have hthread₁ := Scenario.mem_threadIds.mp ht₁
  have hthread₂ := Scenario.mem_threadIds.mp (List.mem_of_mem_filter ht₂)
  have hmem : ∀ v ∈ [(⟨t₁, u₁⟩ : StepVar), ⟨t₂, s₂⟩, ⟨t₂, u₂⟩, ⟨t₁, s₁⟩], v ∈ sc.stepVars := by
    simp only [List.forall_mem_cons, List.not_mem_nil, false_imp_iff, implies_true, and_true, Scenario.mem_stepVars]
    exact ⟨⟨hthread₁, (matchingUnlock_eq_some hu₁).2.1⟩, ⟨hthread₂, Scenario.mem_stepIds.mp hs₂⟩,
      ⟨hthread₂, (matchingUnlock_eq_some hu₂).2.1⟩, ⟨hthread₁, Scenario.mem_stepIds.mp hs₁⟩⟩
  exact ⟨hmem, List.cons_ne_nil _ _⟩

theorem semaphoreOrdering_asserts : ∀ line ∈ smtSemaphoreOrdering sc, line.Asserts sc := by
  intro line hline
  obtain ⟨t, ht, hline⟩ := List.mem_flatMap.mp hline
  obtain ⟨s, hs, hline⟩ := List.mem_flatMap.mp hline
  split at hline
  · exact absurd hline List.not_mem_nil
  dsimp only at hline
  split at hline
  · exact absurd hline List.not_mem_nil
  split at hline
  · exact absurd hline List.not_mem_nil
  rename_i hsignals
  have hwait : (⟨t, s⟩ : StepVar) ∈ sc.stepVars :=
    Scenario.mem_stepVars.mpr ⟨Scenario.mem_threadIds.mp ht, Scenario.mem_stepIds.mp hs⟩
  rcases List.mem_cons.mp hline with rfl | hline
  · simp only [SmtLine.Asserts, String.toList_append, List.mem_append, not_or]
    have hid : ∀ n : Int, '\n' ∉ (toString n).toList := CString.notMem_int rfl (by decide)
    exact ⟨⟨⟨⟨⟨⟨by decide, hid _⟩, by decide⟩, hid _⟩, by decide⟩, CString.notMem_nat rfl _⟩, by decide⟩
  · obtain rfl := List.mem_singleton.mp hline
    refine ⟨fun v hv => ?_, fun hnil => hsignals ?_⟩
    · obtain ⟨p, hp, hv⟩ := List.mem_flatMap.mp hv
      obtain ⟨sig, hsig, rfl⟩ := List.mem_map.mp hp
      rcases List.mem_cons.mp hv with rfl | hv
      · exact Scenario.mem_stepVars.mpr (Scenario.mem_signalsOn.mp (List.mem_of_mem_take hsig)).step
      · rw [List.mem_singleton.mp hv]
        exact hwait
    · exact List.map_eq_nil_iff.mp (List.map_eq_nil_iff.mp hnil)

/-- What is printed between the declarations and the last two commands. -/
def smtConstraints (sc : Scenario) : List SmtLine :=
  .blank :: (sc.stepVars.map (fun v => .assert (.nonneg v)) ++ .blank :: .comment "Program order" ::
    (smtProgramOrder sc ++ .blank :: .comment "Distinctness" :: .assert (.distinct sc.stepVars) :: .blank ::
      .comment "Mutex exclusivity constraints" :: (smtMutexExclusivity sc ++ .blank ::
        .comment "Semaphore ordering constraints" :: (smtSemaphoreOrdering sc ++ [.blank]))))

theorem smtExport_eq (name : String) (trace : Trace) :
    smtExport sc name trace =
      [.comment "SMASH SMT-LIB2 export", .comment s!"Scenario: {name}",
        .comment s!"Schedule length: {trace.schedule.count}", .blank, .setLogic, .blank] ++
      (sc.stepVars.map .declare ++ (smtConstraints sc ++ [.checkSat, .getModel])) := by
  unfold smtExport smtConstraints
  simp only [List.append_assoc, List.cons_append, List.nil_append]

theorem smtConstraints_asserts (hstep : sc.stepVars ≠ []) : ∀ line ∈ smtConstraints sc, line.Asserts sc := by
  have hnonneg : ∀ line ∈ sc.stepVars.map fun v => SmtLine.assert (.nonneg v), line.Asserts sc :=
    List.forall_mem_map.mpr fun v hv => onSteps_nonneg hv
  have hdistinct : (SmtLine.assert (.distinct sc.stepVars)).Asserts sc :=
    ⟨List.Subset.refl _, fun hnil => hstep (List.map_eq_nil_iff.mp hnil)⟩
  have horder : (SmtLine.comment "Program order").Asserts sc := by
    simp only [SmtLine.Asserts]
    decide
  have hdistinctness : (SmtLine.comment "Distinctness").Asserts sc := by
    simp only [SmtLine.Asserts]
    decide
  have hmutex : (SmtLine.comment "Mutex exclusivity constraints").Asserts sc := by
    simp only [SmtLine.Asserts]
    decide
  have hsem : (SmtLine.comment "Semaphore ordering constraints").Asserts sc := by
    simp only [SmtLine.Asserts]
    decide
  have hblank : SmtLine.blank.Asserts sc := trivial
  unfold smtConstraints
  simp only [List.forall_mem_cons, List.forall_mem_append]
  exact ⟨hblank, hnonneg, hblank, horder, programOrder_asserts, hblank, hdistinctness, hdistinct, hblank, hmutex,
    mutexExclusivity_asserts, hblank, hsem, semaphoreOrdering_asserts, hblank, nofun⟩

theorem SmtLine.Asserts.plain {line : SmtLine} (h : line.Asserts sc) : line.Plain := by
  cases line with
  | blank => exact plain_blank
  | comment text => exact plain_comment h
  | assert c => exact OnSteps.plain h
  | setLogic | declare | checkSat | getModel => exact absurd h nofun

/-- Their commands are the constraints, with the names of the steps. -/
theorem commands_of_asserts {lines : List SmtLine} (h : ∀ line ∈ lines, line.Asserts sc) :
    lines.filterMap SmtLine.command = ((asserted lines).map (·.map StepVar.name)).map assertion := by
  unfold asserted
  induction lines with
  | nil => rfl
  | cons line lines ih =>
    obtain ⟨hline, hrest⟩ := List.forall_mem_cons.mp h
    cases line with
    | blank | comment => exact ih hrest
    | assert c => exact congrArg (assertion (c.map StepVar.name) :: ·) (ih hrest)
    | setLogic | declare | checkSat | getModel => exact absurd hline nofun

theorem onSteps_of_asserts {lines : List SmtLine} (h : ∀ line ∈ lines, line.Asserts sc) :
    ∀ c ∈ asserted lines, OnSteps sc c := by
  intro c hc
  obtain ⟨line, hline, hassert⟩ := List.mem_filterMap.mp hc
  cases line with
  | assert c' => exact Option.some.inj hassert ▸ h _ hline
  | blank | comment | setLogic | declare | checkSat | getModel => exact absurd hassert nofun

theorem asserted_smtExport (name : String) (trace : Trace) :
    asserted (smtExport sc name trace) = asserted (smtConstraints sc) := by
  have hdeclare : asserted (sc.stepVars.map .declare) = [] := by
    rw [asserted, List.filterMap_map]
    exact List.filterMap_eq_nil_iff.mpr fun _ _ => rfl
  rw [smtExport_eq]
  unfold asserted at hdeclare ⊢
  rw [List.filterMap_append, List.filterMap_append, List.filterMap_append, hdeclare]
  exact List.append_nil _

/-- The commands of the export. -/
theorem commands_smtExport (hstep : sc.stepVars ≠ []) (name : String) (trace : Trace) :
    (smtExport sc name trace).filterMap SmtLine.command =
      commands (sc.stepVars.map StepVar.name) ((asserted (smtExport sc name trace)).map (·.map StepVar.name)) := by
  have hdeclare : (sc.stepVars.map SmtLine.declare).filterMap SmtLine.command =
      (sc.stepVars.map StepVar.name).map declaration := by
    rw [List.filterMap_map, List.map_map, ← List.filterMap_eq_map]
    rfl
  rw [asserted_smtExport, commands, ← commands_of_asserts (smtConstraints_asserts hstep), ← hdeclare, smtExport_eq,
    List.filterMap_append, List.filterMap_append, List.filterMap_append]
  rfl

theorem smtExport_plain (hstep : sc.stepVars ≠ []) {name : String} (hname : '\n' ∉ name.toList) (trace : Trace) :
    ∀ line ∈ smtExport sc name trace, line.Plain := by
  have hhead : (SmtLine.comment "SMASH SMT-LIB2 export").Plain := plain_comment (by decide)
  have hscenario : (SmtLine.comment s!"Scenario: {name}").Plain := by
    refine plain_comment ?_
    simp only [String.toList_append, List.mem_append, not_or]
    exact ⟨by decide, hname⟩
  have hlength : (SmtLine.comment s!"Schedule length: {trace.schedule.count}").Plain := by
    refine plain_comment ?_
    simp only [String.toList_append, List.mem_append, not_or]
    exact ⟨by decide, CString.notMem_nat rfl _⟩
  have hlogic : SmtLine.setLogic.Plain := by
    have hsymbols : SExpr.PlainSymbol "set-logic" ∧ SExpr.PlainSymbol "QF_LIA" := by decide
    exact ⟨nofun, fun _ hs => Option.some.inj hs ▸ ⟨hsymbols.1, hsymbols.2, trivial⟩⟩
  have hcheck : SmtLine.checkSat.Plain := by
    have hsymbol : SExpr.PlainSymbol "check-sat" := by decide
    exact ⟨nofun, fun _ hs => Option.some.inj hs ▸ ⟨hsymbol, trivial⟩⟩
  have hmodel : SmtLine.getModel.Plain := by
    have hsymbol : SExpr.PlainSymbol "get-model" := by decide
    exact ⟨nofun, fun _ hs => Option.some.inj hs ▸ ⟨hsymbol, trivial⟩⟩
  have hdeclare : ∀ line ∈ sc.stepVars.map SmtLine.declare, line.Plain :=
    List.forall_mem_map.mpr fun v hv => plain_declare hv
  have hconstraints : ∀ line ∈ smtConstraints sc, line.Plain := fun line hline =>
    (smtConstraints_asserts hstep line hline).plain
  rw [smtExport_eq]
  simp only [List.forall_mem_append, List.forall_mem_cons]
  exact ⟨⟨hhead, hscenario, hlength, plain_blank, hlogic, plain_blank, nofun⟩, hdeclare, hconstraints, hcheck,
    hmodel, nofun⟩

/-- **The text says what the constraints say.** A reader of SMT-LIB accepts it and finds every step declared once,
under its name, and the constraints over these names; so they can be satisfied exactly if those of the model can. -/
theorem smtText_read_back (hstep : ∃ t s, sc.HasStep t s) {name : String} (hname : '\n' ∉ name.toList)
    (trace : Trace) :
    readScript (smtText (smtExport sc name trace)) = some
        { declared := sc.stepVars.map StepVar.name
          asserted := (asserted (smtExport sc name trace)).map (·.map StepVar.name) } ∧
      (sc.stepVars.map StepVar.name).Nodup ∧
      (Satisfiable ((asserted (smtExport sc name trace)).map (·.map StepVar.name)) ↔
        Satisfiable (asserted (smtExport sc name trace))) := by
  have hne : sc.stepVars ≠ [] := by
    obtain ⟨t, s, hts⟩ := hstep
    exact List.ne_nil_of_mem ((@Scenario.mem_stepVars sc ⟨t, s⟩).mpr hts)
  have honSteps : ∀ c ∈ asserted (smtExport sc name trace), OnSteps sc c := by
    rw [asserted_smtExport]
    exact onSteps_of_asserts (smtConstraints_asserts hne)
  refine ⟨?_, nodup_names sc, satisfiable_map_iff (fun c hc => (honSteps c hc).vars) fun v hv v' hv' => ?_⟩
  · have hread := read_smtText (smtExport_plain hne hname trace)
    rw [commands_smtExport hne] at hread
    refine readScript_commands hread (nodup_names sc) (List.forall_mem_map.mpr fun c hc => ?_)
    rw [vars_map]
    exact ⟨List.map_subset _ (honSteps c hc).vars, (honSteps c hc).printable⟩
  · exact name_inj (tid_of_mem_stepVars hv) (tid_of_mem_stepVars hv')

theorem smtText_read_back_abba :
    readScript (smtText (smtExport abbaDeadlock "abba_deadlock" Engine.zero.trace)) = some
        { declared := abbaDeadlock.stepVars.map StepVar.name
          asserted := (asserted (smtExport abbaDeadlock "abba_deadlock" Engine.zero.trace)).map (·.map StepVar.name) } ∧
      (abbaDeadlock.stepVars.map StepVar.name).Nodup ∧
      (Satisfiable ((asserted (smtExport abbaDeadlock "abba_deadlock" Engine.zero.trace)).map (·.map StepVar.name)) ↔
        Satisfiable (asserted (smtExport abbaDeadlock "abba_deadlock" Engine.zero.trace))) :=
  smtText_read_back ⟨0, 0, by decide, by decide⟩ (by decide) _

end Smash
