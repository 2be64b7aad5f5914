import Mathlib.Data.List.Forall2

/-!
# Reading JSON

A reader for the fragment of JSON that has objects, arrays, integers and strings without escapes; a text that
uses more is rejected. It has two passes. `Lexer.step` is a machine that looks at one character at a time and
puts out tokens, so that what a text lexes to can be put together from what its pieces lex to
(`Lexes.append`). `value` is the recursive descent over the tokens; `Reads` says what some tokens stand for
whatever follows them, and is put together from `Reads` of the parts.

A number ends where the next character is no digit, so `Lexes.int` needs what follows it.
-/

set_option autoImplicit false

/-- A value; `obj` keeps its fields in the order in which they stand. -/
inductive Json where
  | int (n : Int)
  | str (s : String)
  | arr (items : List Json)
  | obj (fields : List (String × Json))

namespace Json

/-- A key that stands twice has its last value. -/
def field? (fields : List (String × Json)) (key : String) : Option Json := fields.reverse.lookup key

/-! ## Tokens -/

inductive Token where
  | lbrace
  | rbrace
  | lbracket
  | rbracket
  | comma
  | colon
  | int (n : Int)
  | str (s : String)
  deriving DecidableEq

/-- Between two tokens, inside a string, after a minus sign, inside a number. What was read of a string or a
number is kept last character first. -/
inductive Lexer where
  | idle
  | quoted (read : List Char)
  | minus
  | number (negative : Bool) (digits : List Char)
  deriving DecidableEq

def isBlank (c : Char) : Bool := c = ' ' || c = '\n' || c = '\r' || c = '\t'

def punctuation (c : Char) : Option Token :=
  if c = '\x7b' then some .lbrace
  else if c = '\x7d' then some .rbrace
  else if c = '[' then some .lbracket
  else if c = ']' then some .rbracket
  else if c = ',' then some .comma
  else if c = ':' then some .colon
  else none

/-- A character between two tokens. -/
def start (c : Char) : Option (List Token × Lexer) :=
  if isBlank c then some ([], .idle)
  else if c = '"' then some ([], .quoted [])
  else if c = '-' then some ([], .minus)
  else if c.isDigit then some ([], .number false [c])
  else (punctuation c).map fun t => ([t], .idle)

/-- The number that some digits, the last one first, stand for. -/
def numeral (negative : Bool) (digits : List Char) : Int :=
  let n : Int := Nat.ofDigitChars 10 digits.reverse 0
  if negative then -n else n

def Lexer.step : Lexer → Char → Option (List Token × Lexer)
  | .idle, c => start c
  | .quoted read, c =>
    if c = '"' then some ([.str (String.ofList read.reverse)], .idle)
    else if c = '\\' ∨ c.toNat < 32 then none
    else some ([], .quoted (c :: read))
  | .minus, c => if c.isDigit then some ([], .number true [c]) else none
  | .number negative digits, c =>
    if c.isDigit then
      -- no digit after a leading zero
      if digits = ['0'] then none else some ([], .number negative (c :: digits))
    else (start c).map fun (ts, st) => (.int (numeral negative digits) :: ts, st)

/-- The text ends. -/
def Lexer.finish : Lexer → Option (List Token)
  | .idle => some []
  | .number negative digits => some [.int (numeral negative digits)]
  | .quoted _ | .minus => none

def Lexer.run : Lexer → List Char → Option (List Token × Lexer)
  | st, [] => some ([], st)
  | st, c :: cs =>
    (st.step c).bind fun (ts, st') => (st'.run cs).map fun (ts', st'') => (ts ++ ts', st'')

def lex (text : List Char) : Option (List Token) :=
  (Lexer.idle.run text).bind fun (ts, st) => st.finish.map (ts ++ ·)

/-! ## Recursive descent -/

mutual

/-- A value at the head of the tokens, and what follows it. -/
def value : Nat → List Token → Option (Json × List Token)
  | _ + 1, .int n :: ts => some (.int n, ts)
  | _ + 1, .str s :: ts => some (.str s, ts)
  | _ + 1, .lbracket :: .rbracket :: ts => some (.arr [], ts)
  | fuel + 1, .lbracket :: ts => (items fuel ts).map fun (vs, rest) => (.arr vs, rest)
  | _ + 1, .lbrace :: .rbrace :: ts => some (.obj [], ts)
  | fuel + 1, .lbrace :: ts => (fields fuel ts).map fun (kvs, rest) => (.obj kvs, rest)
  | _, _ => none

/-- The items of an array, with its closing bracket. -/
def items : Nat → List Token → Option (List Json × List Token)
  | 0, _ => none
  | fuel + 1, ts =>
    match value fuel ts with
    | some (v, .comma :: ts) => (items fuel ts).map fun (vs, rest) => (v :: vs, rest)
    | some (v, .rbracket :: ts) => some ([v], ts)
    | _ => none

/-- The fields of an object, with its closing brace. -/
def fields : Nat → List Token → Option (List (String × Json) × List Token)
  | fuel + 1, .str k :: .colon :: ts =>
    match value fuel ts with
    | some (v, .comma :: ts) => (fields fuel ts).map fun (kvs, rest) => ((k, v) :: kvs, rest)
    | some (v, .rbrace :: ts) => some ([(k, v)], ts)
    | _ => none
  | _, _ => none

end

/-- A whole text. No token is looked at by more than two of the functions. -/
def parse (text : String) : Option Json :=
  (lex text.toList).bind fun ts =>
    match value (2 * ts.length) ts with
    | some (v, []) => some v
    | _ => none

/-! ## What a piece of text lexes to -/

/-- From `st`, the text puts out these tokens and leaves the machine in `st'`. -/
def Lexes (st : Lexer) (text : List Char) (ts : List Token) (st' : Lexer) : Prop :=
  st.run text = some (ts, st')

theorem Lexes.nil (st : Lexer) : Lexes st [] [] st := rfl

theorem Lexes.cons {st st' st'' : Lexer} {c : Char} {cs : List Char} {ts ts' : List Token}
    (h : st.step c = some (ts, st')) (hrest : Lexes st' cs ts' st'') :
    Lexes st (c :: cs) (ts ++ ts') st'' := by
  unfold Lexes at *
  rw [Lexer.run, h, Option.bind_some]
  dsimp only
  rw [hrest]
  rfl

theorem Lexes.uncons {st st'' : Lexer} {c : Char} {cs : List Char} {ts : List Token}
    (h : Lexes st (c :: cs) ts st'') :
    ∃ ts₁ st' ts₂, st.step c = some (ts₁, st') ∧ Lexes st' cs ts₂ st'' ∧ ts = ts₁ ++ ts₂ := by
  unfold Lexes at h
  rw [Lexer.run] at h
  obtain ⟨⟨ts₁, st'⟩, hstep, hmap⟩ := Option.bind_eq_some_iff.mp h
  obtain ⟨⟨ts₂, st₂⟩, hrun, heq⟩ := Option.map_eq_some_iff.mp hmap
  cases heq
  exact ⟨ts₁, st', ts₂, hstep, hrun, rfl⟩

theorem Lexes.append {st st' st'' : Lexer} {cs cs' : List Char} {ts ts' : List Token}
    (h : Lexes st cs ts st') (h' : Lexes st' cs' ts' st'') : Lexes st (cs ++ cs') (ts ++ ts') st'' := by
  induction cs generalizing st ts with
  | nil =>
    cases h
    exact h'
  | cons c cs ih =>
    obtain ⟨ts₁, st₁, ts₂, hstep, hrest, rfl⟩ := h.uncons
    rw [List.cons_append, List.append_assoc]
    exact .cons hstep (ih hrest)

theorem lex_of_lexes {text : List Char} {ts : List Token} (h : Lexes .idle text ts .idle) :
    lex text = some ts := by
  unfold Lexes at h
  rw [lex, h, Option.bind_some]
  exact congrArg some (List.append_nil ts)

/-! ### Numbers -/

/-- Digits are read one by one. -/
theorem Lexes.digits {negative : Bool} {read ds : List Char} (hds : ∀ c ∈ ds, c.isDigit = true)
    (hread : read ≠ []) (hzero : read.getLast? ≠ some '0') :
    Lexes (.number negative read) ds [] (.number negative (ds.reverse ++ read)) := by
  induction ds generalizing read with
  | nil => exact .nil _
  | cons c ds ih =>
    have hlead : read ≠ ['0'] := by
      intro heq
      rw [heq] at hzero
      exact hzero rfl
    have hstep : (Lexer.number negative read).step c = some ([], .number negative (c :: read)) := by
      rw [Lexer.step, if_pos (hds c List.mem_cons_self), if_neg hlead]
    have hlast : (c :: read).getLast? = read.getLast? := List.getLast?_cons_of_ne_nil hread
    have hrest := ih (fun d hd => hds d (List.mem_cons_of_mem _ hd)) (List.cons_ne_nil c read) (hlast ▸ hzero)
    rw [List.reverse_cons, List.append_assoc, List.singleton_append]
    exact .cons hstep hrest

/-- The text does not go on with a digit. -/
def NoDigit (text : List Char) : Prop := ∀ c ∈ text.head?, c.isDigit = false

/-- A number is put out when the text goes on. -/
theorem Lexes.endNumber {negative : Bool} {digits cs : List Char} {ts : List Token} {st : Lexer}
    (h : Lexes .idle cs ts st) (hne : cs ≠ []) (hcs : NoDigit cs) :
    Lexes (.number negative digits) cs (.int (numeral negative digits) :: ts) st := by
  cases cs with
  | nil => exact absurd rfl hne
  | cons c cs =>
    obtain ⟨ts₁, st₁, ts₂, hstep, hrest, rfl⟩ := h.uncons
    have hnot : c.isDigit = false := hcs c rfl
    have hnext : (Lexer.number negative digits).step c =
        some (.int (numeral negative digits) :: ts₁, st₁) := by
      rw [Lexer.step, hnot, if_neg Bool.false_ne_true, show start c = some (ts₁, st₁) from hstep]
      rfl
    exact .cons hnext hrest

/-- Only zero begins with the digit zero. -/
theorem head?_toDigits_ne {n : Nat} (h : 0 < n) : (Nat.toDigits 10 n).head? ≠ some '0' := by
  induction n using Nat.strongRecOn with
  | _ n ih =>
    by_cases hsmall : n < 10
    · have hchar : ∀ d < 10, 0 < d → d.digitChar ≠ '0' := by decide
      rw [Nat.toDigits_of_lt_base hsmall]
      exact fun heq => hchar n hsmall h (Option.some.inj heq)
    · have hne : Nat.toDigits 10 (n / 10) ≠ [] := Nat.toDigits_ne_nil
      rw [Nat.toDigits_of_base_le (by omega) (by omega), List.head?_append_of_ne_nil _ hne]
      exact ih (n / 10) (by omega) (by omega)

theorem start_of_isDigit {c : Char} (h : c.isDigit = true) : start c = some ([], .number false [c]) := by
  have hne : ∀ d : Char, d.isDigit = false → c ≠ d := by
    intro d hd heq
    rw [heq, hd] at h
    exact absurd h Bool.false_ne_true
  have hblank : isBlank c = false := by
    simp [isBlank, hne ' ' (by decide), hne '\n' (by decide), hne '\r' (by decide), hne '\t' (by decide)]
  rw [start, hblank, if_neg Bool.false_ne_true, if_neg (hne '"' (by decide)), if_neg (hne '-' (by decide)),
    if_pos h]

/-- The decimal digits of a number, from the machine's state after a sign or none. -/
theorem Lexes.toDigits {st : Lexer} {negative : Bool} (n : Nat)
    (hst : ∀ c, c.isDigit = true → st.step c = some ([], .number negative [c])) :
    Lexes st (Nat.toDigits 10 n) [] (.number negative (Nat.toDigits 10 n).reverse) := by
  have hdigits : ∀ c ∈ Nat.toDigits 10 n, c.isDigit = true := fun c hc =>
    Nat.isDigit_of_mem_toDigits (by omega) (by omega) hc
  cases hd : Nat.toDigits 10 n with
  | nil => exact absurd hd Nat.toDigits_ne_nil
  | cons c cs =>
    rw [hd] at hdigits
    have hfirst := hst c (hdigits c List.mem_cons_self)
    rw [List.reverse_cons]
    refine .cons hfirst ?_
    by_cases hzero : n = 0
    · subst hzero
      rw [Nat.toDigits_zero] at hd
      cases hd
      exact .nil _
    · refine .digits (fun d hd => hdigits d (List.mem_cons_of_mem _ hd)) (List.cons_ne_nil _ _) ?_
      intro hlast
      refine head?_toDigits_ne (Nat.pos_of_ne_zero hzero) ?_
      rw [hd]
      exact hlast

theorem numeral_toDigits (negative : Bool) (n : Nat) :
    numeral negative (Nat.toDigits 10 n).reverse = if negative then -(n : Int) else n := by
  rw [numeral, List.reverse_reverse, Nat.ofDigitChars_ten_toDigits]

/-- **A number in decimal**, in front of a text that does not go on with a digit. -/
theorem Lexes.int (n : Int) {cs : List Char} {ts : List Token} {st : Lexer} (h : Lexes .idle cs ts st)
    (hne : cs ≠ []) (hcs : NoDigit cs) : Lexes .idle ((toString n).toList ++ cs) (.int n :: ts) st := by
  cases n with
  | ofNat n =>
    have hread : Lexes .idle (Nat.toDigits 10 n) [] (.number false (Nat.toDigits 10 n).reverse) := by
      exact .toDigits n fun c hc => start_of_isDigit hc
    have hend := @Lexes.endNumber false (Nat.toDigits 10 n).reverse cs ts st h hne hcs
    rw [numeral_toDigits] at hend
    rw [show (toString (Int.ofNat n)).toList = Nat.toDigits 10 n from Nat.toList_repr]
    exact hread.append hend
  | negSucc n =>
    have hread : Lexes .minus (Nat.toDigits 10 (n + 1)) [] (.number true (Nat.toDigits 10 (n + 1)).reverse) := by
      exact .toDigits (n + 1) fun c hc => if_pos hc
    have hend := @Lexes.endNumber true (Nat.toDigits 10 (n + 1)).reverse cs ts st h hne hcs
    rw [numeral_toDigits] at hend
    have htext : (toString (Int.negSucc n)).toList = '-' :: Nat.toDigits 10 (n + 1) := by
      rw [show toString (Int.negSucc n) = "-" ++ (n + 1).repr from rfl, String.toList_append, Nat.toList_repr]
      rfl
    have hminus : Lexer.idle.step '-' = some ([], .minus) := rfl
    rw [htext]
    exact .cons hminus (hread.append hend)

/-- A text that can stand after a number. -/
structure Follows (text : List Char) (ts : List Token) (st : Lexer) : Prop where
  lexes : Lexes .idle text ts st
  ne_nil : text ≠ []
  noDigit : NoDigit text

theorem Follows.int {cs : List Char} {ts : List Token} {st : Lexer} (h : Follows cs ts st) (n : Int) :
    Lexes .idle ((toString n).toList ++ cs) (.int n :: ts) st := .int n h.lexes h.ne_nil h.noDigit

theorem Follows.nat {cs : List Char} {ts : List Token} {st : Lexer} (h : Follows cs ts st) (n : Nat) :
    Lexes .idle ((toString n).toList ++ cs) (.int n :: ts) st := h.int n

/-- A piece of text that begins with no digit, in front of another. -/
theorem Lexes.follows {c : Char} {piece cs : List Char} {ts ts' : List Token} {st : Lexer}
    (h : Lexes .idle cs ts' st) (hpiece : Lexes .idle (c :: piece) ts .idle) (hc : c.isDigit = false) :
    Follows (c :: piece ++ cs) (ts ++ ts') st :=
  ⟨hpiece.append h, List.cons_ne_nil _ _, fun _ hd => Option.some.inj hd ▸ hc⟩

/-! ## What tokens stand for -/

/-- Whatever follows, the tokens are read as `j`. -/
def Reads (ts : List Token) (j : Json) : Prop :=
  ∀ fuel, 2 * ts.length ≤ fuel → ∀ rest, value fuel (ts ++ rest) = some (j, rest)

/-- The tokens are a key, a colon and a value. -/
def ReadsField (ts : List Token) (kv : String × Json) : Prop :=
  ∃ vts, ts = .str kv.1 :: .colon :: vts ∧ Reads vts kv.2

/-- The pieces with commas between them. -/
def commas : List (List Token) → List Token
  | [] => []
  | ts :: tss => ts ++ tss.flatMap (.comma :: ·)

theorem reads_int (n : Int) : Reads [.int n] (.int n) := by
  intro fuel hfuel rest
  cases fuel with
  | zero => exact absurd hfuel (by simp)
  | succ fuel => simp [value]

theorem reads_str (s : String) : Reads [.str s] (.str s) := by
  intro fuel hfuel rest
  cases fuel with
  | zero => exact absurd hfuel (by simp)
  | succ fuel => simp [value]

/-- What stands for a value does not begin with a closing bracket. -/
theorem Reads.head {ts : List Token} {j : Json} (h : Reads ts j) : ∃ t ts', ts = t :: ts' ∧ t ≠ .rbracket := by
  have hread := h (2 * ts.length + 1) (Nat.le_succ _) []
  cases ts with
  | nil => exact absurd hread (by simp [value])
  | cons t ts' =>
    refine ⟨t, ts', rfl, ?_⟩
    rintro rfl
    exact absurd hread (by simp [value])

theorem items_commas {tss : List (List Token)} {vs : List Json} (h : List.Forall₂ Reads tss vs)
    (hne : vs ≠ []) {fuel : Nat} (hfuel : 2 * (commas tss).length + 1 ≤ fuel) (rest : List Token) :
    items fuel (commas tss ++ .rbracket :: rest) = some (vs, rest) := by
  induction h generalizing fuel with
  | nil => exact absurd rfl hne
  | @cons ts v tss vs hv hrest ih =>
    obtain ⟨fuel, rfl⟩ : ∃ k, fuel = k + 1 := ⟨fuel - 1, by omega⟩
    cases hrest with
    | nil =>
      have hlen : 2 * ts.length ≤ fuel := by simpa [commas] using hfuel
      have hread := hv fuel hlen (.rbracket :: rest)
      simp only [commas, List.flatMap_nil, List.append_nil]
      rw [items, hread]
    | @cons ts' v' tss' vs' hv' hrest' =>
      have hcommas : commas (ts :: ts' :: tss') = ts ++ .comma :: commas (ts' :: tss') := by
        simp [commas]
      rw [hcommas] at hfuel ⊢
      rw [List.length_append, List.length_cons] at hfuel
      have hread := hv fuel (by omega) (.comma :: commas (ts' :: tss') ++ .rbracket :: rest)
      rw [List.append_assoc, items, hread]
      simp only [List.cons_append]
      rw [ih (List.cons_ne_nil _ _) (by omega)]
      rfl

theorem fields_commas {tss : List (List Token)} {kvs : List (String × Json)}
    (h : List.Forall₂ ReadsField tss kvs) (hne : kvs ≠ []) {fuel : Nat}
    (hfuel : 2 * (commas tss).length + 1 ≤ fuel) (rest : List Token) :
    fields fuel (commas tss ++ .rbrace :: rest) = some (kvs, rest) := by
  induction h generalizing fuel with
  | nil => exact absurd rfl hne
  | @cons ts kv tss kvs hkv hrest ih =>
    obtain ⟨fuel, rfl⟩ : ∃ k, fuel = k + 1 := ⟨fuel - 1, by omega⟩
    obtain ⟨vts, rfl, hv⟩ := hkv
    cases hrest with
    | nil =>
      have hlen : 2 * vts.length ≤ fuel := by
        simp only [commas, List.flatMap_nil, List.append_nil, List.length_cons] at hfuel
        omega
      have hread := hv fuel hlen (.rbrace :: rest)
      simp only [commas, List.flatMap_nil, List.append_nil, List.cons_append]
      rw [fields, hread]
    | @cons ts' kv' tss' kvs' hkv' hrest' =>
      have hcommas : commas ((.str kv.1 :: .colon :: vts) :: ts' :: tss') =
          .str kv.1 :: .colon :: (vts ++ .comma :: commas (ts' :: tss')) := by
        simp [commas]
      rw [hcommas] at hfuel ⊢
      simp only [List.length_append, List.length_cons] at hfuel
      have hread := hv fuel (by omega) (.comma :: commas (ts' :: tss') ++ .rbrace :: rest)
      simp only [List.cons_append, List.append_assoc]
      rw [fields, show vts ++ .comma :: (commas (ts' :: tss') ++ .rbrace :: rest) =
        vts ++ (.comma :: commas (ts' :: tss') ++ .rbrace :: rest) from rfl, hread]
      simp only [List.cons_append]
      rw [ih (List.cons_ne_nil _ _) (by omega)]
      rfl

/-- **An array is read from what its items are read from, …** -/
theorem Reads.arr {tss : List (List Token)} {vs : List Json} (h : List.Forall₂ Reads tss vs) :
    Reads (.lbracket :: commas tss ++ [.rbracket]) (.arr vs) := by
  intro fuel hfuel rest
  simp only [List.length_append, List.length_cons, List.length_nil] at hfuel
  obtain ⟨fuel, rfl⟩ : ∃ k, fuel = k + 1 := ⟨fuel - 1, by omega⟩
  cases h with
  | nil => simp [commas, value]
  | @cons ts v tss vs hv hrest =>
    have hall := @items_commas _ _ (.cons hv hrest) (List.cons_ne_nil _ _) fuel (by omega) rest
    obtain ⟨t, ts', rfl, ht⟩ := hv.head
    simp only [commas, List.cons_append, List.append_assoc, List.nil_append] at hall ⊢
    rw [value, hall]
    · rfl
    · exact fun _ heq => ht (List.cons.inj heq).1

/-- **… and an object from what its fields are read from.** -/
theorem Reads.obj {tss : List (List Token)} {kvs : List (String × Json)}
    (h : List.Forall₂ ReadsField tss kvs) : Reads (.lbrace :: commas tss ++ [.rbrace]) (.obj kvs) := by
  intro fuel hfuel rest
  simp only [List.length_append, List.length_cons, List.length_nil] at hfuel
  obtain ⟨fuel, rfl⟩ : ∃ k, fuel = k + 1 := ⟨fuel - 1, by omega⟩
  cases h with
  | nil => simp [commas, value]
  | @cons ts kv tss kvs hkv hrest =>
    have hall := @fields_commas _ _ (.cons hkv hrest) (List.cons_ne_nil _ _) fuel (by omega) rest
    obtain ⟨vts, rfl, _⟩ := hkv
    simp only [commas, List.cons_append, List.append_assoc, List.nil_append] at hall ⊢
    rw [value, hall]
    · rfl
    · exact fun _ heq => absurd (List.cons.inj heq).1 (by simp)

/-! ### Records -/

/-- A value that is one token. -/
inductive Scalar where
  | int (n : Int)
  | str (s : String)

def Scalar.json : Scalar → Json
  | .int n => .int n
  | .str s => .str s

def Scalar.token : Scalar → Token
  | .int n => .int n
  | .str s => .str s

/-- The tokens of a field. -/
def fieldTokens (kv : String × Scalar) : List Token := [.str kv.1, .colon, kv.2.token]

/-- An object without inner structure, … -/
def record (kvs : List (String × Scalar)) : Json := .obj (kvs.map fun kv => (kv.1, kv.2.json))

/-- … and its tokens. -/
def recordTokens (kvs : List (String × Scalar)) : List Token :=
  .lbrace :: commas (kvs.map fieldTokens) ++ [.rbrace]

theorem readsField_scalar (kv : String × Scalar) : ReadsField (fieldTokens kv) (kv.1, kv.2.json) := by
  refine ⟨[kv.2.token], rfl, ?_⟩
  cases kv.2 with
  | int n => exact reads_int n
  | str s => exact reads_str s

theorem reads_record (kvs : List (String × Scalar)) : Reads (recordTokens kvs) (record kvs) := by
  refine .obj ?_
  rw [List.forall₂_map_left_iff, List.forall₂_map_right_iff, List.forall₂_same]
  exact fun kv _ => readsField_scalar kv

/-- **A text that lexes to such tokens is read as the value.** -/
theorem parse_of_reads {text : String} {ts : List Token} {j : Json}
    (hlex : Lexes .idle text.toList ts .idle) (h : Reads ts j) : parse text = some j := by
  have hread := h (2 * ts.length) (Nat.le_refl _) []
  rw [List.append_nil] at hread
  rw [parse, lex_of_lexes hlex, Option.bind_some, hread]

end Json
