import Mathlib.Data.List.Basic

/-!
# Texts in buffers

A C program that puts a message together with `snprintf` writes text after text into one buffer, each behind the
last: `off += snprintf(buf + off, len - off, ...)`. `snprintf` returns the length that it would have liked, so
`off` can pass `len`, and a loop that goes on only while `off < len` (`append`) is what keeps it inside.

`Filled len m off text` is what holds along such a loop: the buffer has the first `len - 1` characters of `text`
and a terminator, and `off` says where to go on while there is room. Nothing beyond the buffer is touched.
-/

set_option autoImplicit false

namespace CString

/-- The cells from the beginning of the buffer on, its own and those behind it. -/
abbrev Memory := Nat → Char

def nul : Char := Char.ofNat 0

/-- `snprintf(buf + off, size, ...)` of a text: what fits, and a terminator, unless the size is 0. -/
def snprintf (m : Memory) (off size : Nat) (text : List Char) : Memory := fun i =>
  if size = 0 ∨ i < off then m i
  else if i < off + min text.length (size - 1) then text.getD (i - off) nul
  else if i = off + min text.length (size - 1) then nul
  else m i

/-- `strlen(buf)`, in a buffer of `len` cells. -/
def strlen (m : Memory) (len : Nat) : Nat := (List.range len).findIdx fun i => m i = nul

/-- `for (...; off < len; ...) off += snprintf(buf + off, len - off, ...)`, with the last `off`. -/
def append (len : Nat) : List (List Char) → Nat → Memory → Memory × Nat
  | [], off, m => (m, off)
  | t :: ts, off, m =>
    if off < len then append len ts (off + t.length) (snprintf m off (len - off) t) else (m, off)

/-- The buffer holds the text, with its terminator. -/
structure Holds (m : Memory) (text : List Char) : Prop where
  chars : ∀ i < text.length, text[i]? = some (m i)
  terminator : m text.length = nul

/-- `m` became `m'`, and no cell from `len` on was touched. -/
def Within (len : Nat) (m m' : Memory) : Prop := ∀ i, len ≤ i → m' i = m i

theorem Within.refl (len : Nat) (m : Memory) : Within len m m := fun _ _ => rfl

theorem Within.trans {len : Nat} {m m' m'' : Memory} (h : Within len m m') (h' : Within len m' m'') :
    Within len m m'' := fun i hi => (h' i hi).trans (h i hi)

/-! ## Numbers in decimal -/

/-- A number is written in digits, … -/
theorem notMem_nat {c : Char} (hdigit : c.isDigit = false) (n : Nat) : c ∉ (toString n).toList := by
  intro hc
  rw [show (toString n).toList = Nat.toDigits 10 n from Nat.toList_repr] at hc
  have hdigit' : c.isDigit = true := Nat.isDigit_of_mem_toDigits (by omega) (by omega) hc
  rw [hdigit] at hdigit'
  exact absurd hdigit' Bool.false_ne_true

/-- … with a sign in front if it is negative. -/
theorem notMem_int {c : Char} (hdigit : c.isDigit = false) (hminus : c ≠ '-') (n : Int) :
    c ∉ (toString n).toList := by
  cases n with
  | ofNat n => exact notMem_nat hdigit n
  | negSucc n =>
    rw [show toString (Int.negSucc n) = "-" ++ toString (n + 1) from rfl, String.toList_append,
      List.mem_append, not_or]
    exact ⟨fun hc => hminus (List.mem_singleton.mp hc), notMem_nat hdigit (n + 1)⟩

/-! ## One text -/

theorem snprintf_within (m : Memory) {off size len : Nat} (hlen : off + size ≤ len) (text : List Char) :
    Within len m (snprintf m off size text) := by
  intro i hi
  unfold snprintf
  by_cases hsize : size = 0
  · rw [if_pos (.inl hsize)]
  · rw [if_neg (by omega), if_neg (by omega), if_neg (by omega)]

/-- What was there stays in front of what is written. -/
theorem snprintf_holds {m : Memory} {text t : List Char} {size : Nat} (hsize : 0 < size)
    (h : ∀ i < text.length, text[i]? = some (m i)) :
    Holds (snprintf m text.length size t) (text ++ t.take (size - 1)) where
  chars i hi := by
    rw [List.length_append, List.length_take, Nat.min_comm] at hi
    unfold snprintf
    by_cases hold : i < text.length
    · rw [if_pos (.inr hold), List.getElem?_append_left hold]
      exact h i hold
    · have hin : i - text.length < t.length := by omega
      rw [if_neg (by omega), if_pos hi, List.getElem?_append_right (by omega),
        List.getElem?_take_of_lt (by omega), List.getD_eq_getElem?_getD, List.getElem?_eq_getElem hin]
      rfl
  terminator := by
    unfold snprintf
    rw [List.length_append, List.length_take, Nat.min_comm, if_neg (by omega), if_neg (by omega), if_pos rfl]

/-- A text without a terminator in it is as long as `strlen` says. -/
theorem Holds.strlen_eq {m : Memory} {text : List Char} {len : Nat} (h : Holds m text) (hnul : nul ∉ text)
    (hlen : text.length < len) : strlen m len = text.length := by
  unfold strlen
  rw [List.findIdx_eq (by rwa [List.length_range])]
  refine ⟨by simpa using h.terminator, fun j hj => ?_⟩
  rw [List.getElem_range, decide_eq_false_iff_not]
  intro heq
  refine hnul (List.mem_of_getElem? (i := j) ?_)
  rw [h.chars j hj, heq]

/-! ## Text after text -/

/-- Along the loop: `text` is what has been written so far, or would have been. -/
structure Filled (len : Nat) (m : Memory) (off : Nat) (text : List Char) : Prop where
  holds : Holds m (text.take (len - 1))
  next : off < len → off = (text.take (len - 1)).length
  full : len ≤ off → len - 1 ≤ text.length

theorem Filled.snprintf {len off : Nat} {m : Memory} {text : List Char} (h : Filled len m off text)
    (hoff : off < len) (t : List Char) :
    Filled len (snprintf m off (len - off) t) (off + t.length) (text ++ t) := by
  have hnext := h.next hoff
  have hlength : (text.take (len - 1)).length = min (len - 1) text.length := List.length_take
  have htext : (text ++ t).take (len - 1) = text.take (len - 1) ++ t.take (len - off - 1) := by
    rw [List.take_append]
    by_cases hcut : text.length ≤ len - 1
    · have : len - 1 - text.length = len - off - 1 := by omega
      rw [this]
    · rw [show len - 1 - text.length = 0 by omega, show len - off - 1 = 0 by omega]
  refine ⟨?_, fun hroom => ?_, fun hfull => ?_⟩
  · rw [htext]
    have hwrite := @snprintf_holds m (text.take (len - 1)) t (len - off) (by omega) h.holds.chars
    rwa [← hnext] at hwrite
  · rw [List.length_take, List.length_append]
    omega
  · rw [List.length_append]
    omega

/-- The first text. -/
theorem filled_first {len : Nat} (hlen : 0 < len) (m : Memory) (t : List Char) :
    Filled len (CString.snprintf m 0 len t) t.length t := by
  have hwrite := @snprintf_holds m [] t len hlen (fun i hi => absurd hi (Nat.not_lt_zero i))
  refine ⟨hwrite, fun hroom => ?_, fun hfull => by omega⟩
  rw [List.length_take]
  omega

/-- **The loop keeps the beginning of all the texts**, inside the buffer. -/
theorem append_filled {len off : Nat} {m : Memory} {text : List Char} (h : Filled len m off text)
    (ts : List (List Char)) :
    Filled len (append len ts off m).1 (append len ts off m).2 (text ++ ts.flatten) ∧
      Within len m (append len ts off m).1 := by
  induction ts generalizing off m text with
  | nil =>
    rw [List.flatten_nil, List.append_nil]
    exact ⟨h, .refl len m⟩
  | cons t ts ih =>
    rw [append, List.flatten_cons, ← List.append_assoc]
    split
    · rename_i hoff
      obtain ⟨hfilled, hwithin⟩ := ih (h.snprintf hoff t)
      exact ⟨hfilled, (snprintf_within m (by omega) t).trans hwithin⟩
    · rename_i hoff
      have hfull := h.full (by omega)
      refine ⟨⟨?_, fun hroom => absurd hroom hoff, fun _ => ?_⟩, .refl len m⟩
      · rw [List.append_assoc, List.take_append_of_le_length hfull]
        exact h.holds
      · rw [List.append_assoc, List.length_append]
        omega

/-- Where the loop ends when everything fits. -/
theorem append_off {len off : Nat} (m : Memory) {ts : List (List Char)}
    (hroom : off + ts.flatten.length ≤ len) : (append len ts off m).2 = off + ts.flatten.length := by
  induction ts generalizing off m with
  | nil => rfl
  | cons t ts ih =>
    rw [List.flatten_cons, List.length_append] at hroom ⊢
    rw [append]
    split
    · rw [ih _ (by omega)]
      omega
    · omega

end CString
