import Mathlib.Algebra.GroupWithZero.Nat
import Mathlib.Data.List.Basic

/-!
# Array prefixes packed into a buffer

What a program does that gathers several arrays into one buffer by hand: it copies the first `len` cells of
each to the place where the last copy ended, and counts the place up.

```
memcpy(buf + off, src, len);  off += len;
```

In the end the buffer holds the prefixes one after the other, whatever it held before (`data_pack`). Where
one ends and the next begins is not in the buffer. So two packings tell their fields apart only if the
lengths are known to be the same; then they do (`data_pack_inj`).
-/

set_option autoImplicit false

namespace Packed

variable {α : Type}

/-- An array, of which the first `len` cells count. -/
structure Field (α : Type) where
  src : Nat → α
  len : Nat

def Field.toList (f : Field α) : List α := (List.range f.len).map f.src

/-- A buffer, and the place where the next copy goes. -/
structure Buf (α : Type) where
  cell : Nat → α
  off : Nat

/-- What has been copied so far. -/
def Buf.data (b : Buf α) : List α := (List.range b.off).map b.cell

/-- Copy a field to the end of what is there. -/
def Buf.copy (b : Buf α) (f : Field α) : Buf α :=
  { cell := fun i => if b.off ≤ i ∧ i < b.off + f.len then f.src (i - b.off) else b.cell i
    off := b.off + f.len }

/-- All of the fields in turn, over what the buffer held before. -/
def pack (before : Nat → α) (fields : List (Field α)) : Buf α := fields.foldl Buf.copy ⟨before, 0⟩

/-! ## What is in the buffer -/

theorem Field.length_toList (f : Field α) : f.toList.length = f.len := by simp [Field.toList]

theorem Field.toList_inj {f g : Field α} (hlen : f.len = g.len) :
    f.toList = g.toList ↔ ∀ i < f.len, f.src i = g.src i := by
  rw [Field.toList, Field.toList, ← hlen, List.map_inj_left]
  simp only [List.mem_range]

/-- A copy goes behind what was there and leaves that alone. -/
theorem Buf.data_copy (b : Buf α) (f : Field α) : (b.copy f).data = b.data ++ f.toList := by
  have hfront : (List.range b.off).map (b.copy f).cell = (List.range b.off).map b.cell := by
    refine List.map_congr_left fun i hi => if_neg fun h => ?_
    have := List.mem_range.mp hi
    omega
  have hback : ((List.range f.len).map (b.off + ·)).map (b.copy f).cell = (List.range f.len).map f.src := by
    rw [List.map_map]
    refine List.map_congr_left fun i hi => ?_
    have hlt := List.mem_range.mp hi
    show (if b.off ≤ b.off + i ∧ b.off + i < b.off + f.len then f.src (b.off + i - b.off) else _) = _
    rw [if_pos ⟨Nat.le_add_right _ _, Nat.add_lt_add_left hlt _⟩, Nat.add_sub_cancel_left]
  show (List.range (b.off + f.len)).map (b.copy f).cell = _
  rw [List.range_add, List.map_append, hfront, hback]
  rfl

theorem data_foldl_copy (fields : List (Field α)) (b : Buf α) :
    (fields.foldl Buf.copy b).data = b.data ++ fields.flatMap Field.toList := by
  induction fields generalizing b with
  | nil => simp
  | cons f fields ih => rw [List.foldl_cons, ih, Buf.data_copy, List.append_assoc, List.flatMap_cons]

/-- **The buffer holds the fields one after the other.** -/
theorem data_pack (before : Nat → α) (fields : List (Field α)) :
    (pack before fields).data = fields.flatMap Field.toList := by
  rw [pack, data_foldl_copy]
  rfl

theorem off_foldl_copy (fields : List (Field α)) (b : Buf α) :
    (fields.foldl Buf.copy b).off = b.off + (fields.map Field.len).sum := by
  induction fields generalizing b with
  | nil => rfl
  | cons f fields ih =>
    rw [List.foldl_cons, ih, List.map_cons, List.sum_cons, ← Nat.add_assoc]
    rfl

theorem off_pack (before : Nat → α) (fields : List (Field α)) :
    (pack before fields).off = (fields.map Field.len).sum := by
  rw [pack, off_foldl_copy, Nat.zero_add]

/-- On the way the place is never past where it ends. -/
theorem off_pack_take_le (before : Nat → α) (fields : List (Field α)) (k : Nat) :
    (pack before (fields.take k)).off ≤ (fields.map Field.len).sum := by
  have hsplit : (fields.map Field.len).sum
      = ((fields.take k).map Field.len).sum + ((fields.drop k).map Field.len).sum := by
    rw [← List.sum_append, ← List.map_append, List.take_append_drop]
  rw [off_pack, hsplit]
  exact Nat.le_add_right _ _

/-! ## Telling the fields apart -/

theorem flatMap_toList_inj {fs gs : List (Field α)} (hlen : fs.map Field.len = gs.map Field.len) :
    fs.flatMap Field.toList = gs.flatMap Field.toList ↔ fs.map Field.toList = gs.map Field.toList := by
  induction fs generalizing gs with
  | nil =>
    cases gs with
    | nil => simp
    | cons g gs => exact absurd hlen (by simp)
  | cons f fs ih =>
    cases gs with
    | nil => exact absurd hlen (by simp)
    | cons g gs =>
      rw [List.map_cons, List.map_cons, List.cons.injEq] at hlen
      obtain ⟨hhead, htail⟩ := hlen
      rw [List.flatMap_cons, List.flatMap_cons, List.map_cons, List.map_cons, List.cons.injEq, ← ih htail]
      constructor
      · intro h
        exact List.append_inj h (by rw [Field.length_toList, Field.length_toList, hhead])
      · rintro ⟨hf, hrest⟩
        rw [hf, hrest]

/-- **Fields of the same lengths are packed alike only if they are alike**, whatever is left in the buffers. -/
theorem data_pack_inj {fs gs : List (Field α)} (hlen : fs.map Field.len = gs.map Field.len)
    (before before' : Nat → α) :
    (pack before fs).data = (pack before' gs).data ↔ fs.map Field.toList = gs.map Field.toList := by
  rw [data_pack, data_pack]
  exact flatMap_toList_inj hlen

end Packed
