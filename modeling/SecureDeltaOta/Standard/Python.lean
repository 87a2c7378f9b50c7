import Mathlib.Tactic

/-!
# Library functions of Python

`struct` for little-endian formats of unsigned integers and byte strings,
`zlib.crc32` and hexadecimal texts, as their documentation has them. A failed
`pack` or `unpack` is `none`; the caller sees `struct.error`.
-/

namespace Python

/-! ## Little-endian numbers -/

/-- The `size` low bytes of a number, least significant first. -/
def leBytes : Nat → Nat → List UInt8
  | 0, _ => []
  | size + 1, n => UInt8.ofNat n :: leBytes size (n / 256)

/-- The number whose bytes are given least significant first. -/
def leValue : List UInt8 → Nat
  | [] => 0
  | b :: bs => b.toNat + 256 * leValue bs

@[simp] theorem leBytes_length (size n : Nat) : (leBytes size n).length = size := by
  induction size generalizing n with
  | zero => rfl
  | succ size ih => simp [leBytes, ih]

theorem leValue_leBytes {size n : Nat} (h : n < 256 ^ size) : leValue (leBytes size n) = n := by
  induction size generalizing n with
  | zero =>
      rw [pow_zero] at h
      rw [leBytes, leValue]
      omega
  | succ size ih =>
      have hdiv : n / 256 < 256 ^ size := by
        rw [pow_succ] at h
        omega
      have hbyte : (UInt8.ofNat n).toNat = n % 256 := by simp
      rw [leBytes, leValue, ih hdiv, hbyte]
      omega

theorem leBytes_leValue (bs : List UInt8) : leBytes bs.length (leValue bs) = bs := by
  induction bs with
  | nil => rfl
  | cons b bs ih =>
      have hb := b.toNat_lt
      have hlow : UInt8.ofNat (b.toNat + 256 * leValue bs) = b := by
        apply UInt8.toNat_inj.1
        simp only [UInt8.toNat_ofNat']
        omega
      have hhigh : (b.toNat + 256 * leValue bs) / 256 = leValue bs := by omega
      rw [List.length_cons, leValue, leBytes, hlow, hhigh, ih]

/-! ## Formats -/

/-- One item of a format that starts with `<`. -/
inductive Field where
  | uint (size : Nat)
  | bytes (size : Nat)
  deriving DecidableEq, Repr

namespace Field

/-- The format characters `B`, `H` and `I`, and a count before `s`. -/
def B : Field := .uint 1
def H : Field := .uint 2
def I : Field := .uint 4
def s (count : Nat) : Field := .bytes count

def size : Field → Nat
  | .uint n => n
  | .bytes n => n

end Field

/-- The argument or the result of one item. -/
inductive Value where
  | int (v : Int)
  | bytes (b : List UInt8)
  deriving DecidableEq, Repr

/-- A byte string is cut or filled up with zeros to the count of its item. -/
def packField : Field → Value → Option (List UInt8)
  | .uint size, .int v => if 0 ≤ v ∧ v < 256 ^ size then some (leBytes size v.toNat) else none
  | .bytes size, .bytes b => some (b.take size ++ List.replicate (size - b.length) 0)
  | _, _ => none

def pack : List Field → List Value → Option (List UInt8)
  | [], [] => some []
  | f :: fs, v :: vs => do
      let item ← packField f v
      let items ← pack fs vs
      return item ++ items
  | _, _ => none

def unpackField : Field → List UInt8 → Value
  | .uint _, b => .int (leValue b)
  | .bytes _, b => .bytes b

/-- `Struct.unpack_from` at the start of a buffer: the rest of the buffer is not looked at. -/
def unpackFrom : List Field → List UInt8 → Option (List Value)
  | [], _ => some []
  | f :: fs, buffer =>
      if buffer.length < f.size then none
      else (unpackFrom fs (buffer.drop f.size)).map (unpackField f (buffer.take f.size) :: ·)

/-- `Struct.size`. -/
def calcsize (fs : List Field) : Nat :=
  (fs.map Field.size).sum

@[simp] theorem calcsize_cons (f : Field) (fs : List Field) :
    calcsize (f :: fs) = f.size + calcsize fs := by
  simp [calcsize]

/-- A byte string of an item has the count of the item. -/
def Value.Exact : Field → Value → Prop
  | .bytes size, .bytes b => b.length = size
  | _, _ => True

theorem packField_length {f : Field} {v : Value} {b : List UInt8} (h : packField f v = some b) :
    b.length = f.size := by
  cases f with
  | uint size =>
      cases v with
      | int v =>
          rw [packField, Option.ite_none_right_eq_some] at h
          rw [← Option.some.inj h.2, leBytes_length]
          rfl
      | bytes b => cases h
  | bytes size =>
      cases v with
      | int v => cases h
      | bytes b =>
          rw [packField] at h
          rw [← Option.some.inj h]
          simp only [List.length_append, List.length_take, List.length_replicate, Field.size]
          omega

theorem unpackField_packField {f : Field} {v : Value} {b : List UInt8} (hexact : v.Exact f)
    (h : packField f v = some b) : unpackField f b = v := by
  cases f with
  | uint size =>
      cases v with
      | int v =>
          rw [packField, Option.ite_none_right_eq_some] at h
          have hlt : v.toNat < 256 ^ size := by
            have := h.1.2
            zify
            omega
          rw [← Option.some.inj h.2, unpackField, leValue_leBytes hlt, Int.toNat_of_nonneg h.1.1]
      | bytes b => cases h
  | bytes size =>
      cases v with
      | int v => cases h
      | bytes b =>
          have hlength : b.length = size := hexact
          rw [packField, hlength, ← hlength, List.take_length] at h
          simp only [Nat.sub_self, List.replicate_zero, List.append_nil, Option.some.injEq] at h
          rw [h]
          rfl

theorem pack_cons {f : Field} {fs : List Field} {v : Value} {vs : List Value} {b : List UInt8}
    (h : pack (f :: fs) (v :: vs) = some b) :
    ∃ item items, packField f v = some item ∧ pack fs vs = some items ∧ b = item ++ items := by
  simp only [pack, Option.bind_eq_bind, Option.bind_eq_some_iff, Option.pure_def,
    Option.some.injEq] at h
  obtain ⟨item, hitem, items, hitems, rfl⟩ := h
  exact ⟨item, items, hitem, hitems, rfl⟩

theorem pack_length {fs : List Field} {vs : List Value} {b : List UInt8}
    (h : pack fs vs = some b) : b.length = calcsize fs := by
  induction fs generalizing vs b with
  | nil =>
      cases vs with
      | nil =>
          cases h
          rfl
      | cons v vs => cases h
  | cons f fs ih =>
      cases vs with
      | nil => cases h
      | cons v vs =>
          obtain ⟨item, items, hitem, hitems, rfl⟩ := pack_cons h
          rw [List.length_append, packField_length hitem, ih hitems, calcsize_cons]

/-- What was packed is unpacked, whatever follows it. -/
theorem unpackFrom_pack {fs : List Field} {vs : List Value} {b : List UInt8}
    (hexact : List.Forall₂ (fun f v => Value.Exact f v) fs vs) (h : pack fs vs = some b)
    (rest : List UInt8) : unpackFrom fs (b ++ rest) = some vs := by
  induction hexact generalizing b with
  | nil => rfl
  | @cons f v fs vs hv _ ih =>
      obtain ⟨item, items, hitem, hitems, rfl⟩ := pack_cons h
      have hlength := packField_length hitem
      have hge : ¬ (item ++ items ++ rest).length < f.size := by
        simp only [List.length_append]
        omega
      rw [unpackFrom, if_neg hge, List.append_assoc, ← hlength, List.take_left, List.drop_left,
        ih hitems, unpackField_packField hv hitem]
      rfl

/-! ## `zlib.crc32` -/

/-- One entry of the table, for a byte. -/
def crcTable (byte : UInt32) : UInt32 :=
  Nat.repeat (fun c => if c &&& 1 = 1 then (0xEDB88320 : UInt32) ^^^ (c >>> 1) else c >>> 1) 8
    byte

def crcStep (crc : UInt32) (byte : UInt8) : UInt32 :=
  crcTable ((crc ^^^ byte.toUInt32) &&& 0xFF) ^^^ (crc >>> 8)

def crc32 (data : List UInt8) : UInt32 :=
  data.foldl crcStep 0xFFFFFFFF ^^^ 0xFFFFFFFF

/-! ## Hexadecimal texts -/

/-- A number in upper-case hexadecimal, with zeros up to a width. -/
def hexUpper (width : Nat) (n : Int) : String :=
  let digits := (Nat.toDigits 16 n.toNat).map Char.toUpper
  String.ofList (List.replicate (width - digits.length) '0' ++ digits)

/-- `bytes.hex`. -/
def hexBytes (data : List UInt8) : String :=
  String.ofList (data.flatMap fun b => [Nat.digitChar (b.toNat / 16), Nat.digitChar (b.toNat % 16)])

end Python
