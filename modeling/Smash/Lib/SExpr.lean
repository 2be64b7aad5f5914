import Mathlib.Data.List.Basic

/-!
# S-expressions as text

The notation of Lisp and of SMT-LIB: symbols, and lists of them in parentheses, with blanks in between and comments
from a semicolon to the end of the line. (String literals and quoted symbols are left out.)

`lex` is the lexer and `parse` the parser. `lex_text` says that an expression lexes to its own tokens, whatever
delimiter comes next, and `parse_tokens` that these are read as the expression: so what has been printed is read back
(`parse_lex`).
-/

set_option autoImplicit false

inductive SExpr where
  | symbol (name : String)
  | list (items : List SExpr)

namespace SExpr

/-! ## Tokens -/

inductive Token where
  | lparen
  | rparen
  | symbol (name : String)
  deriving DecidableEq

/-- Between two tokens, inside a comment, inside a symbol. What was read of a symbol is kept last character first. -/
inductive Lexer where
  | idle
  | comment
  | symbol (read : List Char)

def isBlank (c : Char) : Bool := c = ' ' || c = '\n' || c = '\r' || c = '\t'

/-- A character at which a symbol ends. -/
def isDelimiter (c : Char) : Bool := isBlank c || c = ';' || c = '(' || c = ')'

/-- A character between two tokens. -/
def start (c : Char) : List Token × Lexer :=
  if isBlank c then ([], .idle)
  else if c = ';' then ([], .comment)
  else if c = '(' then ([.lparen], .idle)
  else if c = ')' then ([.rparen], .idle)
  else ([], .symbol [c])

def Lexer.step : Lexer → Char → List Token × Lexer
  | .idle, c => start c
  | .comment, c => ([], if c = '\n' then .idle else .comment)
  | .symbol read, c =>
    if isDelimiter c then (.symbol (String.ofList read.reverse) :: (start c).1, (start c).2)
    else ([], .symbol (c :: read))

/-- The tokens of a text, from a state of the lexer on. -/
def lex : Lexer → List Char → List Token
  | .symbol read, [] => [.symbol (String.ofList read.reverse)]
  | .idle, [] | .comment, [] => []
  | st, c :: cs => (st.step c).1 ++ lex (st.step c).2 cs

/-! ## The parser -/

/-- The expressions that tokens stand for. The stack has what has been read of each open list, last item first; at its
bottom is what has been read outside of all lists. -/
def parse : List Token → List (List SExpr) → Option (List SExpr)
  | [], [top] => some top.reverse
  | .lparen :: ts, stack => parse ts ([] :: stack)
  | .rparen :: ts, items :: above :: stack => parse ts ((.list items.reverse :: above) :: stack)
  | .symbol name :: ts, items :: stack => parse ts ((.symbol name :: items) :: stack)
  | _, _ => none

/-- The expressions in a text. -/
def read (text : String) : Option (List SExpr) := parse (lex .idle text.toList) [[]]

/-! ## The printer -/

mutual

/-- The tokens of an expression, … -/
def tokens : SExpr → List Token
  | .symbol name => [.symbol name]
  | .list items => .lparen :: tokensAll items ++ [.rparen]

def tokensAll : List SExpr → List Token
  | [] => []
  | s :: ss => tokens s ++ tokensAll ss

end

mutual

/-- … and its text, with one blank between two items of a list. -/
def text : SExpr → List Char
  | .symbol name => name.toList
  | .list items => '(' :: textAll items ++ [')']

def textAll : List SExpr → List Char
  | [] => []
  | [s] => text s
  | s :: ss => text s ++ ' ' :: textAll ss

end

theorem textAll_cons (s : SExpr) (ss : List SExpr) :
    textAll (s :: ss) = s.text ++ ss.flatMap fun s' => ' ' :: s'.text := by
  induction ss generalizing s with
  | nil => exact (List.append_nil _).symm
  | cons s' ss ih =>
    rw [textAll, ih, List.flatMap_cons]
    · rfl
    · exact nofun

theorem tokensAll_append (ss ss' : List SExpr) : tokensAll (ss ++ ss') = tokensAll ss ++ tokensAll ss' := by
  induction ss with
  | nil => rfl
  | cons s ss ih => rw [List.cons_append, tokensAll, tokensAll, ih, List.append_assoc]

/-- A symbol that is read as one. -/
def PlainSymbol (name : String) : Prop := name.toList ≠ [] ∧ name.toList.all (fun c => !isDelimiter c) = true

instance (name : String) : Decidable (PlainSymbol name) := inferInstanceAs (Decidable (_ ∧ _))

mutual

/-- All symbols in it are. -/
def Plain : SExpr → Prop
  | .symbol name => PlainSymbol name
  | .list items => PlainAll items

def PlainAll : List SExpr → Prop
  | [] => True
  | s :: ss => Plain s ∧ PlainAll ss

end

theorem plainAll_iff {ss : List SExpr} : PlainAll ss ↔ ∀ s ∈ ss, s.Plain := by
  induction ss with
  | nil => simp [PlainAll]
  | cons s ss ih => simp [PlainAll, ih]

/-! ## Texts lex to their tokens -/

/-- The text ends here, or goes on with a delimiter. -/
def Delimited (cs : List Char) : Prop := ∀ c ∈ cs.head?, isDelimiter c = true

theorem Delimited.nil : Delimited [] := fun _ hc => absurd hc (by simp)

theorem Delimited.cons {c : Char} (h : isDelimiter c = true) (cs : List Char) : Delimited (c :: cs) :=
  fun _ hc => Option.some.inj hc ▸ h

theorem lex_cons (st : Lexer) (c : Char) (cs : List Char) :
    lex st (c :: cs) = (st.step c).1 ++ lex (st.step c).2 cs := by
  cases st <;> rfl

theorem start_of_not_delimiter {c : Char} (h : isDelimiter c = false) : start c = ([], .symbol [c]) := by
  simp only [isDelimiter, Bool.or_eq_false_iff, decide_eq_false_iff_not] at h
  obtain ⟨⟨⟨hblank, hsemi⟩, hopen⟩, hclose⟩ := h
  rw [start, hblank, if_neg Bool.false_ne_true, if_neg hsemi, if_neg hopen, if_neg hclose]

/-- The rest of a symbol. -/
theorem lex_symbol_rest {read cs' cs : List Char} (hplain : ∀ c ∈ cs', isDelimiter c = false)
    (hend : Delimited cs) :
    lex (.symbol read) (cs' ++ cs) = .symbol (String.ofList (read.reverse ++ cs')) :: lex .idle cs := by
  induction cs' generalizing read with
  | nil =>
    rw [List.nil_append, List.append_nil]
    cases cs with
    | nil => rfl
    | cons c cs =>
      have hstep : (Lexer.symbol read).step c =
          (.symbol (String.ofList read.reverse) :: (start c).1, (start c).2) := if_pos (hend c rfl)
      rw [lex_cons, hstep, lex_cons]
      rfl
  | cons c cs' ih =>
    obtain ⟨hc, hrest⟩ := List.forall_mem_cons.mp hplain
    rw [List.cons_append, lex_cons, Lexer.step, hc, if_neg Bool.false_ne_true, List.nil_append, ih hrest,
      List.reverse_cons, List.append_assoc, List.singleton_append]

theorem lex_symbol {name : String} {cs : List Char} (h : PlainSymbol name) (hend : Delimited cs) :
    lex .idle (name.toList ++ cs) = .symbol name :: lex .idle cs := by
  obtain ⟨hne, hall⟩ := h
  have hplain : ∀ c ∈ name.toList, isDelimiter c = false := fun c hc => by
    simpa using List.all_eq_true.mp hall c hc
  cases hname : name.toList with
  | nil => exact absurd hname hne
  | cons c cs' =>
    rw [hname] at hplain
    obtain ⟨hc, hrest⟩ := List.forall_mem_cons.mp hplain
    rw [List.cons_append, lex_cons, Lexer.step, start_of_not_delimiter hc, List.nil_append,
      lex_symbol_rest hrest hend, List.reverse_singleton, List.singleton_append, ← hname, String.ofList_toList]

mutual

/-- **An expression lexes to its tokens.** -/
theorem lex_text : ∀ (s : SExpr), s.Plain → ∀ {cs : List Char}, Delimited cs →
    lex .idle (s.text ++ cs) = s.tokens ++ lex .idle cs
  | .symbol name, h, cs, hend => by
    rw [text, tokens, lex_symbol h hend]
    rfl
  | .list items, h, cs, _ => by
    have hitems := lex_textAll items h (Delimited.cons (c := ')') rfl cs)
    have hclose : lex .idle (')' :: cs) = .rparen :: lex .idle cs := by
      rw [lex_cons]
      rfl
    have hopen : lex .idle ('(' :: (textAll items ++ ')' :: cs)) =
        .lparen :: lex .idle (textAll items ++ ')' :: cs) := by
      rw [lex_cons]
      rfl
    rw [text, tokens]
    simp only [List.cons_append, List.append_assoc, List.nil_append]
    rw [hopen, hitems, hclose]

theorem lex_textAll : ∀ (ss : List SExpr), PlainAll ss → ∀ {cs : List Char}, Delimited cs →
    lex .idle (textAll ss ++ cs) = tokensAll ss ++ lex .idle cs
  | [], _, _, _ => rfl
  | [s], h, cs, hend => by
    rw [textAll, tokensAll, tokensAll, List.append_nil]
    exact lex_text s h.1 hend
  | s :: s' :: ss, h, cs, hend => by
    have hrest := lex_textAll (s' :: ss) h.2 hend
    rw [textAll, tokensAll, List.append_assoc, List.cons_append, lex_text s h.1 (.cons (c := ' ') rfl _), lex_cons]
    · change s.tokens ++ lex .idle (textAll (s' :: ss) ++ cs) = _
      rw [hrest, List.append_assoc]
    · exact nofun

end

/-- A comment is skipped with the end of its line. -/
theorem lex_comment {comment cs : List Char} (h : '\n' ∉ comment) :
    lex .comment (comment ++ '\n' :: cs) = lex .idle cs := by
  induction comment with
  | nil => rfl
  | cons c comment ih =>
    obtain ⟨hc, hrest⟩ := not_or.mp fun hor => h (List.mem_cons.mpr hor)
    have hstep : Lexer.comment.step c = ([], .comment) := by rw [Lexer.step, if_neg (Ne.symm hc)]
    rw [List.cons_append, lex_cons, hstep, List.nil_append]
    exact ih hrest

/-! ## Tokens are read as expressions -/

mutual

/-- **The tokens of an expression are read as the expression.** -/
theorem parse_tokens : ∀ (s : SExpr) (ts : List Token) (items : List SExpr) (stack : List (List SExpr)),
    parse (s.tokens ++ ts) (items :: stack) = parse ts ((s :: items) :: stack)
  | .symbol name, ts, items, stack => by
    rw [tokens, List.singleton_append, parse]
  | .list inner, ts, items, stack => by
    rw [tokens]
    simp only [List.cons_append, List.append_assoc, List.nil_append]
    rw [parse, parse_tokensAll inner, parse, List.append_nil, List.reverse_reverse]

theorem parse_tokensAll : ∀ (ss : List SExpr) (ts : List Token) (items : List SExpr) (stack : List (List SExpr)),
    parse (tokensAll ss ++ ts) (items :: stack) = parse ts ((ss.reverse ++ items) :: stack)
  | [], ts, items, stack => rfl
  | s :: ss, ts, items, stack => by
    rw [tokensAll, List.append_assoc, parse_tokens s, parse_tokensAll ss, List.reverse_cons, List.append_assoc,
      List.singleton_append]

end

/-- **A text that lexes to the tokens of expressions is read as them.** -/
theorem read_of_lex {source : String} {ss : List SExpr} (h : lex .idle source.toList = tokensAll ss) :
    read source = some ss := by
  have hparse := parse_tokensAll ss [] [] []
  rw [List.append_nil, List.append_nil] at hparse
  rw [read, h, hparse, parse, List.reverse_reverse]

end SExpr
