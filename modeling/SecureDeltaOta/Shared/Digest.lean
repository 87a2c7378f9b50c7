import Mathlib.Tactic

/-!
# CRC-32 and SHA-256

The two digests of the firmware, as `crc32.c` and `sha256.c` compute them. Both
are streaming: a message may be absorbed in pieces of any size, and the digest
depends only on the concatenation.
-/

namespace SecureDeltaOta

/-! ## CRC-32 -/

namespace Crc32

def ieeeReversedPolynomial : UInt32 := 0xEDB88320

def ieeeInitialValue : UInt32 := 0xFFFFFFFF

def ieeeFinalXor : UInt32 := 0xFFFFFFFF

def updateBit (crc : UInt32) : UInt32 :=
  let mask := 0 - (crc &&& 1)
  (crc >>> 1) ^^^ (ieeeReversedPolynomial &&& mask)

def updateByte (crc : UInt32) (byte : UInt8) : UInt32 :=
  Nat.repeat updateBit 8 (crc ^^^ byte.toUInt32)

def update (runningCrc : UInt32) (data : List UInt8) : UInt32 :=
  data.foldl updateByte runningCrc

def calculate (data : List UInt8) : UInt32 :=
  update ieeeInitialValue data ^^^ ieeeFinalXor

theorem update_append (crc : UInt32) (xs ys : List UInt8) :
    update crc (xs ++ ys) = update (update crc xs) ys :=
  List.foldl_append

example : calculate [0x31, 0x32, 0x33, 0x34, 0x35, 0x36, 0x37, 0x38, 0x39] = 0xCBF43926 := by
  decide +kernel

end Crc32

/-! ## SHA-256 -/

namespace Sha256

def digestSize : Nat := 32

def blockSize : Nat := 64

def k : List UInt32 :=
  [0x428A2F98, 0x71374491, 0xB5C0FBCF, 0xE9B5DBA5, 0x3956C25B, 0x59F111F1, 0x923F82A4, 0xAB1C5ED5,
   0xD807AA98, 0x12835B01, 0x243185BE, 0x550C7DC3, 0x72BE5D74, 0x80DEB1FE, 0x9BDC06A7, 0xC19BF174,
   0xE49B69C1, 0xEFBE4786, 0x0FC19DC6, 0x240CA1CC, 0x2DE92C6F, 0x4A7484AA, 0x5CB0A9DC, 0x76F988DA,
   0x983E5152, 0xA831C66D, 0xB00327C8, 0xBF597FC7, 0xC6E00BF3, 0xD5A79147, 0x06CA6351, 0x14292967,
   0x27B70A85, 0x2E1B2138, 0x4D2C6DFC, 0x53380D13, 0x650A7354, 0x766A0ABB, 0x81C2C92E, 0x92722C85,
   0xA2BFE8A1, 0xA81A664B, 0xC24B8B70, 0xC76C51A3, 0xD192E819, 0xD6990624, 0xF40E3585, 0x106AA070,
   0x19A4C116, 0x1E376C08, 0x2748774C, 0x34B0BCB5, 0x391C0CB3, 0x4ED8AA4A, 0x5B9CCA4F, 0x682E6FF3,
   0x748F82EE, 0x78A5636F, 0x84C87814, 0x8CC70208, 0x90BEFFFA, 0xA4506CEB, 0xBEF9A3F7, 0xC67178F2]

/-- The eight chaining words, and the eight working variables of a block. -/
structure State where
  a : UInt32
  b : UInt32
  c : UInt32
  d : UInt32
  e : UInt32
  f : UInt32
  g : UInt32
  h : UInt32
  deriving DecidableEq, Repr

/--
The streaming context. `buffer` holds the bytes of the unfinished block, so its
length is the `buffer_length` of the source; the stale rest of the source's
array is never read.
-/
structure Context where
  state : State
  totalLength : UInt64
  buffer : List UInt8
  deriving DecidableEq, Repr

def rotateRight (value count : UInt32) : UInt32 :=
  (value >>> count) ||| (value <<< (32 - count))

def loadBe32 (data : List UInt8) (offset : Nat) : UInt32 :=
  ((data.getD offset 0).toUInt32 <<< 24) ||| ((data.getD (offset + 1) 0).toUInt32 <<< 16) |||
    ((data.getD (offset + 2) 0).toUInt32 <<< 8) ||| (data.getD (offset + 3) 0).toUInt32

def storeBe32 (value : UInt32) : List UInt8 :=
  [(value >>> 24).toUInt8, (value >>> 16).toUInt8, (value >>> 8).toUInt8, value.toUInt8]

/-- The next word of the message schedule from the words before it. -/
def extendSchedule (w : List UInt32) : List UInt32 :=
  let i := w.length
  let w15 := w.getD (i - 15) 0
  let w2 := w.getD (i - 2) 0
  let s0 := rotateRight w15 7 ^^^ rotateRight w15 18 ^^^ (w15 >>> 3)
  let s1 := rotateRight w2 17 ^^^ rotateRight w2 19 ^^^ (w2 >>> 10)
  w ++ [w.getD (i - 16) 0 + s0 + w.getD (i - 7) 0 + s1]

def messageSchedule (block : List UInt8) : List UInt32 :=
  Nat.repeat extendSchedule 48 ((List.range 16).map fun i => loadBe32 block (4 * i))

/-- One round, with its constant and its schedule word. -/
def round (s : State) (kw : UInt32 × UInt32) : State :=
  let s1 := rotateRight s.e 6 ^^^ rotateRight s.e 11 ^^^ rotateRight s.e 25
  let choice := (s.e &&& s.f) ^^^ ((~~~s.e) &&& s.g)
  let temp1 := s.h + s1 + choice + kw.1 + kw.2
  let s0 := rotateRight s.a 2 ^^^ rotateRight s.a 13 ^^^ rotateRight s.a 22
  let majority := (s.a &&& s.b) ^^^ (s.a &&& s.c) ^^^ (s.b &&& s.c)
  let temp2 := s0 + majority
  { a := temp1 + temp2, b := s.a, c := s.b, d := s.c, e := s.d + temp1, f := s.e, g := s.f,
    h := s.g }

def transform (state : State) (block : List UInt8) : State :=
  let v := (k.zip (messageSchedule block)).foldl round state
  { a := state.a + v.a, b := state.b + v.b, c := state.c + v.c, d := state.d + v.d,
    e := state.e + v.e, f := state.f + v.f, g := state.g + v.g, h := state.h + v.h }

def init : Context where
  state := { a := 0x6A09E667, b := 0xBB67AE85, c := 0x3C6EF372, d := 0xA54FF53A,
             e := 0x510E527F, f := 0x9B05688C, g := 0x1F83D9AB, h := 0x5BE0CD19 }
  totalLength := 0
  buffer := []

/-- The copy loop of `Sha256_Update`: fill the buffer, transform it when it is full. -/
def absorb : Nat → Context → List UInt8 → Context
  | 0, context, _ => context
  | fuel + 1, context, input =>
      if input.length = 0 then
        context
      else
        let chunk := min (blockSize - context.buffer.length) input.length
        let buffer := context.buffer ++ input.take chunk
        let context :=
          if buffer.length = blockSize then
            { context with state := transform context.state buffer, buffer := [] }
          else
            { context with buffer := buffer }
        absorb fuel context (input.drop chunk)

def update (context : Context) (data : List UInt8) : Context :=
  absorb data.length
    { context with totalLength := context.totalLength + UInt64.ofNat data.length } data

def final (context : Context) : List UInt8 :=
  let bitLength := context.totalLength * 8
  let buffer := context.buffer ++ [0x80]
  let context :=
    if buffer.length > 56 then
      let buffer := buffer ++ List.replicate (blockSize - buffer.length) 0
      { context with state := transform context.state buffer, buffer := [] }
    else
      { context with buffer := buffer }
  let buffer := context.buffer ++ List.replicate (56 - context.buffer.length) 0 ++
    (List.range 8).map fun i => (bitLength >>> UInt64.ofNat ((7 - i) * 8)).toUInt8
  let s := transform context.state buffer
  storeBe32 s.a ++ storeBe32 s.b ++ storeBe32 s.c ++ storeBe32 s.d ++ storeBe32 s.e ++
    storeBe32 s.f ++ storeBe32 s.g ++ storeBe32 s.h

def calculate (data : List UInt8) : List UInt8 :=
  final (update init data)

@[simp] theorem final_length (context : Context) : (final context).length = digestSize := rfl

example : calculate [0x61, 0x62, 0x63] =
    [0xBA, 0x78, 0x16, 0xBF, 0x8F, 0x01, 0xCF, 0xEA, 0x41, 0x41, 0x40, 0xDE, 0x5D, 0xAE, 0x22, 0x23,
     0xB0, 0x03, 0x61, 0xA3, 0x96, 0x17, 0x7A, 0x9C, 0xB4, 0x10, 0xFF, 0x61, 0xF2, 0x00, 0x15,
     0xAD] := by
  decide +kernel

/-! ### Streaming -/

/-- A context between calls: the unfinished block is not full. -/
def Context.Open (context : Context) : Prop := context.buffer.length < blockSize

/-- One input byte at a time; the chunks of `absorb` add up to this. -/
def absorbByte (context : Context) (byte : UInt8) : Context :=
  if context.buffer.length + 1 = blockSize then
    { context with state := transform context.state (context.buffer ++ [byte]), buffer := [] }
  else
    { context with buffer := context.buffer ++ [byte] }

theorem absorbByte_open {context : Context} (h : context.Open) (byte : UInt8) :
    (absorbByte context byte).Open := by
  unfold absorbByte Context.Open blockSize at *
  split
  · simp
  · next hfull =>
      simp only [List.length_append, List.length_singleton]
      omega

theorem foldl_absorbByte_open {context : Context} (h : context.Open) (data : List UInt8) :
    (data.foldl absorbByte context).Open := by
  induction data generalizing context with
  | nil => exact h
  | cons byte data ih => exact ih (absorbByte_open h byte)

/-- Bytes that do not complete the block are only buffered. -/
theorem foldl_absorbByte_short {context : Context} {data : List UInt8}
    (h : context.buffer.length + data.length < blockSize) :
    data.foldl absorbByte context = { context with buffer := context.buffer ++ data } := by
  induction data generalizing context with
  | nil => simp
  | cons byte data ih =>
      simp only [List.length_cons] at h
      have hstep : absorbByte context byte = { context with buffer := context.buffer ++ [byte] } :=
        if_neg (by omega)
      rw [List.foldl_cons, hstep, ih (by simp only [List.length_append, List.length_singleton]; omega)]
      simp

/-- Bytes that complete the block are transformed with it. -/
theorem foldl_absorbByte_full {context : Context} {data : List UInt8} (hdata : data ≠ [])
    (h : context.buffer.length + data.length = blockSize) :
    data.foldl absorbByte context =
      { context with state := transform context.state (context.buffer ++ data), buffer := [] } := by
  have hlast := List.dropLast_append_getLast hdata
  have hlen : data.dropLast.length + 1 = data.length := by
    have hpos := List.length_pos_of_ne_nil hdata
    rw [List.length_dropLast]
    omega
  have hshort : data.dropLast.foldl absorbByte context =
      { context with buffer := context.buffer ++ data.dropLast } :=
    foldl_absorbByte_short (by omega)
  calc data.foldl absorbByte context
      = absorbByte (data.dropLast.foldl absorbByte context) (data.getLast hdata) := by
        conv_lhs => rw [← hlast, List.foldl_append, List.foldl_cons, List.foldl_nil]
    _ = _ := by
        rw [hshort, absorbByte, if_pos (by simp only [List.length_append]; omega),
          List.append_assoc, hlast]

theorem absorb_eq_foldl {fuel : Nat} {context : Context} {input : List UInt8}
    (hopen : context.Open) (hfuel : input.length ≤ fuel) :
    absorb fuel context input = input.foldl absorbByte context := by
  induction fuel generalizing context input with
  | zero =>
      have hnil : input = [] := List.length_eq_zero_iff.1 (by omega)
      simp [absorb, hnil]
  | succ fuel ih =>
      by_cases hempty : input.length = 0
      · have hnil : input = [] := List.length_eq_zero_iff.1 hempty
        simp [absorb, hnil]
      · have hroom : context.buffer.length < blockSize := hopen
        generalize hchunk : min (blockSize - context.buffer.length) input.length = chunk
        have hsplit : input.foldl absorbByte context =
            (input.drop chunk).foldl absorbByte ((input.take chunk).foldl absorbByte context) := by
          rw [← List.foldl_append, List.take_append_drop]
        have htake : (input.take chunk).length = chunk := by
          rw [List.length_take]
          omega
        simp only [absorb, hempty, if_false, hchunk]
        have hrest : (input.drop chunk).length ≤ fuel := by
          rw [List.length_drop]
          omega
        by_cases hfull : context.buffer.length + chunk = blockSize
        · have hne : input.take chunk ≠ [] := List.ne_nil_of_length_pos (by omega)
          rw [if_pos (by simp [htake, hfull]), hsplit, foldl_absorbByte_full hne (by omega)]
          exact ih (by simp [Context.Open, blockSize]) hrest
        · have hshort : (input.take chunk).foldl absorbByte context =
              { context with buffer := context.buffer ++ input.take chunk } :=
            foldl_absorbByte_short (by omega)
          rw [if_neg (by simp [htake, hfull]), hsplit, hshort]
          refine ih ?_ hrest
          simp only [Context.Open, List.length_append, htake]
          omega

theorem absorbByte_totalLength (context : Context) (n : UInt64) (byte : UInt8) :
    absorbByte { context with totalLength := n } byte =
      { absorbByte context byte with totalLength := n } := by
  unfold absorbByte
  split <;> rfl

theorem foldl_absorbByte_totalLength (context : Context) (n : UInt64) (data : List UInt8) :
    data.foldl absorbByte { context with totalLength := n } =
      { data.foldl absorbByte context with totalLength := n } := by
  induction data generalizing context with
  | nil => rfl
  | cons byte data ih =>
      rw [List.foldl_cons, absorbByte_totalLength, ih]
      rfl

theorem update_eq_foldl {context : Context} (h : context.Open) (data : List UInt8) :
    update context data =
      { data.foldl absorbByte context with
        totalLength := context.totalLength + UInt64.ofNat data.length } := by
  have hopen : ({ context with
      totalLength := context.totalLength + UInt64.ofNat data.length } : Context).Open := h
  unfold update
  rw [absorb_eq_foldl hopen le_rfl, foldl_absorbByte_totalLength]

theorem update_open {context : Context} (h : context.Open) (data : List UInt8) :
    (update context data).Open := by
  rw [update_eq_foldl h]
  exact foldl_absorbByte_open h data

theorem init_open : init.Open := by
  unfold Context.Open init blockSize
  decide

theorem update_nil {context : Context} (h : context.Open) : update context [] = context := by
  rw [update_eq_foldl h]
  simp

/-- Two calls absorb what one call on the concatenation absorbs. -/
theorem update_append {context : Context} (h : context.Open) (xs ys : List UInt8) :
    update context (xs ++ ys) = update (update context xs) ys := by
  rw [update_eq_foldl (update_open h xs), update_eq_foldl h, update_eq_foldl h, List.foldl_append,
    foldl_absorbByte_totalLength (xs.foldl absorbByte context)
      (context.totalLength + UInt64.ofNat xs.length) ys]
  simp [UInt64.ofNat_add, UInt64.add_assoc]

end Sha256

end SecureDeltaOta
