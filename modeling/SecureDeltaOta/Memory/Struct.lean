import SecureDeltaOta.Memory.Bytes
import SecureDeltaOta.Standard.Python

/-!
# Formats over byte strings

Where a program in C reads and writes words at offsets of a buffer, a program in
Python packs and unpacks a format. Item by item the two are the same.
-/

namespace SecureDeltaOta.Memory

open Python

/-! ## Packing -/

theorem leBytes_byte (b : UInt8) : leBytes 1 b.toNat = [b] := by
  simp [leBytes]

theorem leValue_le16 (w : UInt16) : leValue (le16 w) = w.toNat := by
  rw [← ofLe16_bytes w, toNat_ofLe16, ofLe16_bytes]
  simp only [le16, leValue]
  omega

theorem leValue_le32 (w : UInt32) : leValue (le32 w) = w.toNat := by
  rw [← ofLe32_bytes w, toNat_ofLe32, ofLe32_bytes]
  simp only [le32, leValue]
  omega

theorem packField_uint {size n : Nat} (h : n < 256 ^ size) :
    packField (.uint size) (.int n) = some (leBytes size n) := by
  rw [packField, if_pos ⟨by omega, by exact_mod_cast h⟩, Int.toNat_natCast]

theorem packField_byte (b : UInt8) : packField .B (.int b.toNat) = some [b] := by
  rw [Field.B, packField_uint b.toNat_lt, leBytes_byte]

theorem packField_le16 (w : UInt16) : packField .H (.int w.toNat) = some (le16 w) := by
  rw [Field.H, packField_uint w.toNat_lt, ← leValue_le16]
  exact congrArg some (leBytes_leValue (le16 w))

theorem packField_le32 (w : UInt32) : packField .I (.int w.toNat) = some (le32 w) := by
  rw [Field.I, packField_uint w.toNat_lt, ← leValue_le32]
  exact congrArg some (leBytes_leValue (le32 w))

theorem pack_cons_eq {f : Field} {fs : List Field} {v : Value} {vs : List Value}
    {item : List UInt8} (h : packField f v = some item) :
    pack (f :: fs) (v :: vs) = (pack fs vs).map (item ++ ·) := by
  rw [pack, h]
  cases pack fs vs <;> rfl

/-! ## Unpacking -/

/-- A window of a string, byte by byte. -/
theorem take_drop_eq {l : List UInt8} {o n : Nat} (h : o + n ≤ l.length) :
    (l.drop o).take n = (List.range n).map fun i => l.getD (o + i) 0 := by
  apply List.ext_getElem
  · rw [chunk_length h, List.length_map, List.length_range]
  · intro i hi _
    rw [chunk_length h] at hi
    rw [List.getElem_take, List.getElem_drop, List.getElem_map, List.getElem_range,
      List.getD_eq_getElem]

theorem leValue_byte {l : List UInt8} {o : Nat} (h : o + 1 ≤ l.length) :
    leValue ((l.drop o).take 1) = (l.getD o 0).toNat := by
  rw [take_drop_eq h]
  simp [leValue]

theorem leValue_readLe16 {l : List UInt8} {o : Nat} (h : o + 2 ≤ l.length) :
    leValue ((l.drop o).take 2) = (readLe16 l o).toNat := by
  rw [take_drop_eq h, readLe16, toNat_ofLe16]
  simp [leValue, List.range_succ]

theorem leValue_readLe32 {l : List UInt8} {o : Nat} (h : o + 4 ≤ l.length) :
    leValue ((l.drop o).take 4) = (readLe32 l o).toNat := by
  rw [take_drop_eq h, readLe32, toNat_ofLe32]
  simp [leValue, List.range_succ]

variable {l : List UInt8} {o : Nat} {fs : List Field}

theorem unpackFrom_cons {f : Field} (h : o + f.size ≤ l.length) :
    unpackFrom (f :: fs) (l.drop o) =
      (unpackFrom fs (l.drop (o + f.size))).map (unpackField f ((l.drop o).take f.size) :: ·) := by
  rw [unpackFrom, if_neg (by rw [List.length_drop]; omega), List.drop_drop]

theorem unpackFrom_byte (h : o + 1 ≤ l.length) :
    unpackFrom (.B :: fs) (l.drop o) =
      (unpackFrom fs (l.drop (o + 1))).map (.int (l.getD o 0).toNat :: ·) := by
  rw [← leValue_byte h]
  exact unpackFrom_cons h

theorem unpackFrom_le16 (h : o + 2 ≤ l.length) :
    unpackFrom (.H :: fs) (l.drop o) =
      (unpackFrom fs (l.drop (o + 2))).map (.int (readLe16 l o).toNat :: ·) := by
  rw [← leValue_readLe16 h]
  exact unpackFrom_cons h

theorem unpackFrom_le32 (h : o + 4 ≤ l.length) :
    unpackFrom (.I :: fs) (l.drop o) =
      (unpackFrom fs (l.drop (o + 4))).map (.int (readLe32 l o).toNat :: ·) := by
  rw [← leValue_readLe32 h]
  exact unpackFrom_cons h

theorem unpackFrom_bytes {n : Nat} (h : o + n ≤ l.length) :
    unpackFrom (.s n :: fs) (l.drop o) =
      (unpackFrom fs (l.drop (o + n))).map (.bytes ((l.drop o).take n) :: ·) :=
  unpackFrom_cons h

end SecureDeltaOta.Memory
