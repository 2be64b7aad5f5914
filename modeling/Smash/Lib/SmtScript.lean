import Smash.Lib.OrderConstraints
import Smash.Lib.SExpr

/-!
# Order constraints in SMT-LIB

A solver reads a script command by command. It rejects a constant that is declared twice and one that is used before
it is declared, so a script that is accepted says which constants there are and what holds of them (`Script`).
`readScript` is such a reader, for scripts in `QF_LIA` that compare integer constants. Like Z3 it takes a `distinct`
or an `or` with one argument, but none without.

`command_assert` and `command_declare` say that it understands what is printed as `assertion` and `declaration`.
-/

set_option autoImplicit false

namespace SmtScript

open OrderConstraints

/-! ## The reader -/

/-- What a script has said so far. -/
structure Script where
  declared : List String
  asserted : List (Constraint String)

def Script.empty : Script := ⟨[], []⟩

/-- A constant that has been declared. -/
def Script.constant (s : Script) : SExpr → Option String
  | .symbol x => if x ∈ s.declared then some x else none
  | .list _ => none

/-- `(< a b)`. -/
def Script.comparison (s : Script) : SExpr → Option (String × String)
  | .list [.symbol op, a, b] =>
    if op = "<" then (s.constant a).bind fun x => (s.constant b).map fun y => (x, y) else none
  | _ => none

/-- The arguments of `>=`: a constant and zero. -/
def Script.bound (s : Script) : List SExpr → Option (Constraint String)
  | [a, .symbol zero] => if zero = "0" then (s.constant a).map .nonneg else none
  | _ => none

/-- The term in an `assert`. -/
def Script.term (s : Script) : SExpr → Option (Constraint String)
  | .list (.symbol op :: args) =>
    if op = "<" then (s.comparison (.list (.symbol op :: args))).map fun p => .less p.1 p.2
    else if args = [] then none
    else if op = "distinct" then (args.mapM s.constant).map .distinct
    else if op = "or" then (args.mapM s.comparison).map .anyLess
    else if op = ">=" then s.bound args
    else none
  | _ => none

/-- One command. -/
def Script.command (s : Script) : SExpr → Option Script
  | .list [.symbol name] => if name = "check-sat" ∨ name = "get-model" then some s else none
  | .list [.symbol name, e] =>
    if name = "assert" then (s.term e).map fun c => { s with asserted := s.asserted ++ [c] } else none
  | .list [.symbol name, .symbol x, .symbol sort] =>
    if name = "declare-const" ∧ sort = "Int" ∧ x ∉ s.declared then some { s with declared := s.declared ++ [x] }
    else none
  | _ => none

/-- A whole script, which begins with its logic. -/
def readScript (text : String) : Option Script :=
  match SExpr.read text with
  | some (.list [.symbol name, .symbol logic] :: commands) =>
    if name = "set-logic" ∧ logic = "QF_LIA" then commands.foldlM Script.command .empty else none
  | _ => none

/-! ## The printer -/

def comparisonTerm (p : String × String) : SExpr := .list [.symbol "<", .symbol p.1, .symbol p.2]

def constraintTerm : Constraint String → SExpr
  | .nonneg v => .list [.symbol ">=", .symbol v, .symbol "0"]
  | .less a b => comparisonTerm (a, b)
  | .distinct vs => .list (.symbol "distinct" :: vs.map .symbol)
  | .anyLess pairs => .list (.symbol "or" :: pairs.map comparisonTerm)

def declaration (x : String) : SExpr := .list [.symbol "declare-const", .symbol x, .symbol "Int"]

def assertion (c : Constraint String) : SExpr := .list [.symbol "assert", constraintTerm c]

/-- The commands of a script about the constants `xs`. -/
def commands (xs : List String) (cs : List (Constraint String)) : List SExpr :=
  .list [.symbol "set-logic", .symbol "QF_LIA"] :: (xs.map declaration ++ (cs.map assertion ++
    [.list [.symbol "check-sat"], .list [.symbol "get-model"]]))

/-- A constraint that can be printed: a conjunction or disjunction has a part. -/
def Printable : Constraint String → Prop
  | .distinct vs => vs ≠ []
  | .anyLess pairs => pairs ≠ []
  | _ => True

/-! ## What is printed is understood -/

variable {s : Script}

theorem constant_symbol {x : String} (h : x ∈ s.declared) : s.constant (.symbol x) = some x := if_pos h

theorem comparison_print {p : String × String} (h₁ : p.1 ∈ s.declared) (h₂ : p.2 ∈ s.declared) :
    s.comparison (comparisonTerm p) = some p := by
  rw [comparisonTerm, Script.comparison, if_pos rfl, constant_symbol h₁, constant_symbol h₂]
  rfl

/-- Item by item. -/
theorem mapM_print {α β : Type} {f : β → Option α} {g : α → β} {l : List α} (h : ∀ x ∈ l, f (g x) = some x) :
    (l.map g).mapM f = some l := by
  induction l with
  | nil => rfl
  | cons x l ih =>
    obtain ⟨hx, hrest⟩ := List.forall_mem_cons.mp h
    rw [List.map_cons, List.mapM_cons, hx, ih hrest]
    rfl

/-- **A printed constraint is understood** when its constants have been declared. -/
theorem term_print {c : Constraint String} (hvars : c.vars ⊆ s.declared) (hprint : Printable c) :
    s.term (constraintTerm c) = some c := by
  cases c with
  | nonneg v =>
    have hv : v ∈ s.declared := hvars List.mem_cons_self
    rw [constraintTerm, Script.term, if_neg (by decide), if_neg (List.cons_ne_nil _ _), if_neg (by decide),
      if_neg (by decide), if_pos rfl, Script.bound, if_pos rfl, constant_symbol hv]
    rfl
  | less a b =>
    have ha : a ∈ s.declared := hvars List.mem_cons_self
    have hb : b ∈ s.declared := hvars (List.mem_cons_of_mem _ List.mem_cons_self)
    have hless := @comparison_print s (a, b) ha hb
    rw [comparisonTerm] at hless
    rw [constraintTerm, comparisonTerm, Script.term, if_pos rfl, hless]
    rfl
  | distinct vs =>
    have hread : (vs.map SExpr.symbol).mapM s.constant = some vs := mapM_print fun v hv => constant_symbol (hvars hv)
    have hne : vs.map SExpr.symbol ≠ [] := fun hnil => hprint (List.map_eq_nil_iff.mp hnil)
    rw [constraintTerm, Script.term, if_neg (by decide), if_neg hne, if_pos rfl, hread]
    rfl
  | anyLess pairs =>
    have hread : (pairs.map comparisonTerm).mapM s.comparison = some pairs := mapM_print fun p hp =>
      comparison_print (hvars (List.mem_flatMap.mpr ⟨p, hp, List.mem_cons_self⟩))
        (hvars (List.mem_flatMap.mpr ⟨p, hp, List.mem_cons_of_mem _ List.mem_cons_self⟩))
    have hne : pairs.map comparisonTerm ≠ [] := fun hnil => hprint (List.map_eq_nil_iff.mp hnil)
    rw [constraintTerm, Script.term, if_neg (by decide), if_neg hne, if_neg (by decide), if_pos rfl, hread]
    rfl

theorem command_assert {c : Constraint String} (hvars : c.vars ⊆ s.declared) (hprint : Printable c) :
    s.command (assertion c) = some { s with asserted := s.asserted ++ [c] } := by
  rw [assertion, Script.command, if_pos rfl, term_print hvars hprint]
  rfl

theorem command_declare {x : String} (h : x ∉ s.declared) :
    s.command (declaration x) = some { s with declared := s.declared ++ [x] } := if_pos ⟨rfl, rfl, h⟩

/-- **Declarations**, of constants that are all different. -/
theorem run_declarations {xs : List String} (h : (s.declared ++ xs).Nodup) :
    (xs.map declaration).foldlM Script.command s = some { s with declared := s.declared ++ xs } := by
  induction xs generalizing s with
  | nil => rw [List.append_nil]; rfl
  | cons x xs ih =>
    have hx : x ∉ s.declared := fun hmem => (List.nodup_append.mp h).2.2 x hmem x List.mem_cons_self rfl
    have hall : s.declared ++ x :: xs = s.declared ++ [x] ++ xs := List.append_cons ..
    rw [hall] at h ⊢
    rw [List.map_cons, List.foldlM_cons, command_declare hx]
    exact @ih { s with declared := s.declared ++ [x] } h

/-- **Assertions.** -/
theorem run_assertions {cs : List (Constraint String)}
    (h : ∀ c ∈ cs, c.vars ⊆ s.declared ∧ Printable c) :
    (cs.map assertion).foldlM Script.command s = some { s with asserted := s.asserted ++ cs } := by
  induction cs generalizing s with
  | nil => rw [List.append_nil]; rfl
  | cons c cs ih =>
    obtain ⟨⟨hvars, hprint⟩, hrest⟩ := List.forall_mem_cons.mp h
    have hall : s.asserted ++ c :: cs = s.asserted ++ [c] ++ cs := List.append_cons ..
    rw [hall, List.map_cons, List.foldlM_cons, command_assert hvars hprint]
    exact @ih { s with asserted := s.asserted ++ [c] } hrest

theorem command_checkSat : s.command (.list [.symbol "check-sat"]) = some s := by
  rw [Script.command, if_pos (.inl rfl)]

theorem command_getModel : s.command (.list [.symbol "get-model"]) = some s := by
  rw [Script.command, if_pos (.inr rfl)]

/-- **A script that has been printed is understood.** -/
theorem readScript_commands {text : String} {xs : List String} {cs : List (Constraint String)}
    (hread : SExpr.read text = some (commands xs cs)) (hxs : xs.Nodup)
    (hcs : ∀ c ∈ cs, c.vars ⊆ xs ∧ Printable c) : readScript text = some ⟨xs, cs⟩ := by
  have hdeclare : (xs.map declaration).foldlM Script.command .empty = some ⟨xs, []⟩ := run_declarations hxs
  have hassert : (cs.map assertion).foldlM Script.command ⟨xs, []⟩ = some ⟨xs, cs⟩ := run_assertions hcs
  rw [readScript, hread, commands]
  dsimp only
  rw [if_pos ⟨rfl, rfl⟩, List.foldlM_append, hdeclare, Option.bind_eq_bind, Option.bind_some,
    List.foldlM_append, hassert, Option.bind_eq_bind, Option.bind_some, List.foldlM_cons, command_checkSat,
    Option.bind_eq_bind, Option.bind_some, List.foldlM_cons, command_getModel]
  rfl

/-! ## Plain terms -/

theorem plainSymbol_less : SExpr.PlainSymbol "<" := by decide

theorem plain_comparisonTerm {p : String × String} (h₁ : SExpr.PlainSymbol p.1) (h₂ : SExpr.PlainSymbol p.2) :
    (comparisonTerm p).Plain := ⟨plainSymbol_less, h₁, h₂, trivial⟩

/-- A term has no other symbols than its operators and its constants. -/
theorem plain_constraintTerm {c : Constraint String} (h : ∀ v ∈ c.vars, SExpr.PlainSymbol v) :
    (constraintTerm c).Plain := by
  cases c with
  | nonneg v =>
    have hop : SExpr.PlainSymbol ">=" := by decide
    have hzero : SExpr.PlainSymbol "0" := by decide
    exact ⟨hop, h v List.mem_cons_self, hzero, trivial⟩
  | less a b =>
    exact plain_comparisonTerm (h a List.mem_cons_self) (h b (List.mem_cons_of_mem _ List.mem_cons_self))
  | distinct vs =>
    have hop : SExpr.PlainSymbol "distinct" := by decide
    exact ⟨hop, SExpr.plainAll_iff.mpr (List.forall_mem_map.mpr fun v hv => h v hv)⟩
  | anyLess pairs =>
    have hop : SExpr.PlainSymbol "or" := by decide
    refine ⟨hop, SExpr.plainAll_iff.mpr (List.forall_mem_map.mpr fun p hp => ?_)⟩
    exact plain_comparisonTerm (h _ (List.mem_flatMap.mpr ⟨p, hp, List.mem_cons_self⟩))
      (h _ (List.mem_flatMap.mpr ⟨p, hp, List.mem_cons_of_mem _ List.mem_cons_self⟩))

theorem plain_assertion {c : Constraint String} (h : ∀ v ∈ c.vars, SExpr.PlainSymbol v) :
    (assertion c).Plain := by
  have hop : SExpr.PlainSymbol "assert" := by decide
  exact ⟨hop, plain_constraintTerm h, trivial⟩

theorem plain_declaration {x : String} (h : SExpr.PlainSymbol x) : (declaration x).Plain := by
  have hop : SExpr.PlainSymbol "declare-const" := by decide
  have hsort : SExpr.PlainSymbol "Int" := by decide
  exact ⟨hop, h, hsort, trivial⟩

end SmtScript
