import SecureDeltaOta.Container.ReaderAgreement
import SecureDeltaOta.Protocol.CodecAgreement
import SecureDeltaOta.Standard.ShiftRegister

/-!
# Bursts are detected

The CRC-32 of the packets is a shift register that takes the bytes of a packet
lowest bit first, and the stored checksum continues the message in that order. An
intact packet leaves a fixed register, whatever it says; a burst of at most 32
bits changes the register, so a packet it damages is never accepted.
-/

namespace SecureDeltaOta

open Memory ShiftRegister

namespace Crc32

/-! ## The register -/

def register (c : BitVec 32) : BitVec 32 := (updateBit (.ofBitVec c)).toBitVec

theorem register_toBitVec (c : UInt32) : register c.toBitVec = (updateBit c).toBitVec := rfl

theorem updateBit_eq_zero {c : UInt32} (h : updateBit c = 0) : c = 0 := by
  have hlow : (c &&& 1).toNat = c.toNat % 2 := by
    rw [UInt32.toNat_and]
    exact Nat.and_one_is_mod _
  have hshift : (c >>> 1).toNat = c.toNat / 2 := by
    rw [UInt32.toNat_shiftRight]
    exact Nat.shiftRight_eq_div_pow _ _
  have hlt := c.toNat_lt
  rw [updateBit_eq_ite] at h
  split at h
  · -- the feedback sets the highest bit, which the shift has cleared
    have hequal : (c >>> 1).toNat = (0xEDB88320 : UInt32).toNat := by
      rw [UInt32.xor_eq_zero_iff.1 h]
    rw [hshift] at hequal
    have hpolynomial : (0xEDB88320 : UInt32).toNat = 3988292384 := rfl
    omega
  · next heven =>
      have hzero : (c >>> 1).toNat = 0 := by rw [h]; rfl
      rcases and_one_cases c with hbit | hbit
      · rw [hbit] at hlow
        apply UInt32.toNat_inj.1
        have hz : (0 : UInt32).toNat = 0 := rfl
        omega
      · exact absurd hbit heven

theorem feedback_register : Feedback register where
  xor a b := by
    unfold register
    rw [show UInt32.ofBitVec (a ^^^ b) = UInt32.ofBitVec a ^^^ UInt32.ofBitVec b from rfl,
      updateBit_xor]
    rfl
  shift c hc := by
    have heven : UInt32.ofBitVec c &&& 1 ≠ 1 := by
      intro hodd
      have hbit := congrArg (fun v : UInt32 => v.toBitVec.getLsbD 0) hodd
      simp at hbit
      rw [BitVec.getLsbD_eq_getElem (by decide), hbit] at hc
      cases hc
    unfold register
    rw [updateBit_eq_ite, if_neg heven]
    rfl
  nonzero c hc := by
    have hzero : updateBit (.ofBitVec c) = 0 := UInt32.toBitVec_inj.1 hc
    exact congrArg UInt32.toBitVec (updateBit_eq_zero hzero)

/-! ## Bytes as bits -/

/-- The bits of a byte, the least significant one first. -/
def byteBits (byte : UInt8) : List Bool := (List.range 8).map byte.toNat.testBit

def bits (bytes : List UInt8) : List Bool := bytes.flatMap byteBits

theorem bits_length (bytes : List UInt8) : (bits bytes).length = 8 * bytes.length := by
  induction bytes with
  | nil => rfl
  | cons byte bytes ih =>
      have hcons : bits (byte :: bytes) = byteBits byte ++ bits bytes := rfl
      rw [hcons, List.length_append, ih, List.length_cons]
      simp only [byteBits, List.length_map, List.length_range]
      omega

theorem byteBits_getD (byte : UInt8) (i : Nat) :
    (byteBits byte).getD i false = byte.toNat.testBit i := by
  have hlt : byte.toNat < 2 ^ 8 := byte.toNat_lt
  by_cases hi : i < 8
  · simp [byteBits, hi]
  · rw [Nat.testBit_lt_two_pow (hlt.trans_le (Nat.pow_le_pow_right (by omega) (by omega)))]
    simp [byteBits, hi]

/-- The bits are numbered byte by byte. -/
theorem bits_getD (bytes : List UInt8) (i : Nat) :
    (bits bytes).getD i false = (bytes.getD (i / 8) 0).toNat.testBit (i % 8) := by
  induction bytes generalizing i with
  | nil => simp [bits]
  | cons byte bytes ih =>
      have hlength : (byteBits byte).length = 8 := by simp [byteBits]
      have hcons : bits (byte :: bytes) = byteBits byte ++ bits bytes := rfl
      rw [hcons]
      by_cases hi : i < 8
      · have hdiv : i / 8 = 0 := by omega
        rw [List.getD_append _ _ _ _ (by omega), byteBits_getD, hdiv, Nat.mod_eq_of_lt hi]
        rfl
      · have hdiv : i / 8 = (i - 8) / 8 + 1 := by omega
        have hmod : i % 8 = (i - 8) % 8 := by omega
        rw [List.getD_append_right _ _ _ _ (by omega), hlength, ih, hdiv, hmod]
        rfl

theorem ofBits_byteBits (byte : UInt8) :
    (ofBits (byteBits byte) : BitVec 32) = byte.toUInt32.toBitVec := by
  apply BitVec.eq_of_getLsbD_eq
  intro i hi
  rw [getLsbD_ofBits (by simp [byteBits]), byteBits_getD]
  rfl

theorem ofBits_le32 (v : UInt32) : (ofBits (bits (le32 v)) : BitVec 32) = v.toBitVec := by
  have hbyte (k : Nat) (hk : k < 4) : ((le32 v).getD k 0).toNat = v.toNat / 2 ^ (8 * k) % 2 ^ 8 := by
    have hlt := v.toNat_lt
    interval_cases k <;> simp [le32, Nat.shiftRight_eq_div_pow]
  apply BitVec.eq_of_getLsbD_eq
  intro i hi
  rw [getLsbD_ofBits (by simp [bits_length]), bits_getD, hbyte _ (by omega),
    Nat.testBit_mod_two_pow, Nat.testBit_div_two_pow]
  simp only [Nat.mod_lt i (show 0 < 8 by omega), decide_true, Bool.true_and]
  rw [show i % 8 + 8 * (i / 8) = i by omega]
  rfl

theorem repeat_updateBit_toBitVec (n : Nat) (c : UInt32) :
    (Nat.repeat updateBit n c).toBitVec = register^[n] c.toBitVec := by
  induction n with
  | zero => rfl
  | succ n ih => rw [Nat.repeat, Function.iterate_succ_apply', ← ih, register_toBitVec]

theorem updateByte_toBitVec (crc : UInt32) (byte : UInt8) :
    (updateByte crc byte).toBitVec = feed register crc.toBitVec (byteBits byte) := by
  rw [feedback_register.feed_eq (by simp [byteBits]), ofBits_byteBits, updateByte,
    repeat_updateBit_toBitVec]
  simp [byteBits]

/-- The checksum takes the bits of a message one after the other. -/
theorem update_toBitVec (crc : UInt32) (bytes : List UInt8) :
    (update crc bytes).toBitVec = feed register crc.toBitVec (bits bytes) := by
  induction bytes generalizing crc with
  | nil => rfl
  | cons byte bytes ih =>
      have hcons : bits (byte :: bytes) = byteBits byte ++ bits bytes := rfl
      have hupdate : update crc (byte :: bytes) = update (updateByte crc byte) bytes := rfl
      rw [hcons, feed_append, hupdate, ih, updateByte_toBitVec]

/-! ## Messages with their checksum -/

/-- A message with its checksum leaves the same register as every other one. -/
theorem feed_checked (body : List UInt8) :
    feed register ieeeInitialValue.toBitVec (bits (body ++ le32 (calculate body))) =
      register^[32] ieeeFinalXor.toBitVec := by
  have hbits : bits (body ++ le32 (calculate body)) =
      bits body ++ bits (le32 (calculate body)) := List.flatMap_append
  have hcancel : (update ieeeInitialValue body).toBitVec ^^^ (calculate body).toBitVec =
      ieeeFinalXor.toBitVec := by
    rw [calculate, UInt32.toBitVec_xor, ← BitVec.xor_assoc, BitVec.xor_self, BitVec.zero_xor]
  have hchecksum : (bits (le32 (calculate body))).length = 32 := by
    rw [bits_length, le32_length]
  rw [hbits, feed_append, ← update_toBitVec ieeeInitialValue, feedback_register.feed_eq hchecksum.le,
    ofBits_le32, hcancel, hchecksum]

/-- The error pattern is added to the bytes. -/
def damage (bytes error : List UInt8) : List UInt8 := List.zipWith (· ^^^ ·) bytes error

theorem bits_damage {bytes error : List UInt8} (h : bytes.length = error.length) :
    bits (damage bytes error) = List.zipWith (· ^^ ·) (bits bytes) (bits error) := by
  induction bytes generalizing error with
  | nil => rfl
  | cons byte bytes ih =>
      cases error with
      | nil => cases h
      | cons e error =>
          simp only [List.length_cons, Nat.add_right_cancel_iff] at h
          have hbyte : byteBits (byte ^^^ e) = List.zipWith (· ^^ ·) (byteBits byte) (byteBits e) := by
            simp [byteBits, List.zipWith_map, Nat.testBit_xor]
          have hcons (b : UInt8) (bs : List UInt8) : bits (b :: bs) = byteBits b ++ bits bs := rfl
          have hdamage : damage (byte :: bytes) (e :: error) = (byte ^^^ e) :: damage bytes error :=
            rfl
          rw [hdamage, hcons, hcons, hcons, ih h, hbyte, List.zipWith_append (by simp [byteBits])]

/-- Two checked messages never differ by a burst. -/
theorem burst_changes (body body' : List UInt8) {error : List UInt8}
    (hlength : (body ++ le32 (calculate body)).length = error.length) (hset : true ∈ bits error)
    {s : Nat} (hburst : ∀ i, (bits error).getD i false = true → s ≤ i ∧ i < s + 32) :
    damage (body ++ le32 (calculate body)) error ≠ body' ++ le32 (calculate body') := by
  intro hequal
  have hbits : (bits (body ++ le32 (calculate body))).length = (bits error).length := by
    rw [bits_length, bits_length, hlength]
  have hxor := feedback_register.feed_xor hbits ieeeInitialValue.toBitVec 0#32
  rw [← bits_damage hlength, hequal, BitVec.xor_zero, feed_checked, feed_checked] at hxor
  have hzero : feed register 0#32 (bits error) = 0#32 := by
    have hself := congrArg (register^[32] ieeeFinalXor.toBitVec ^^^ ·) hxor
    simpa only [BitVec.xor_self, ← BitVec.xor_assoc, BitVec.zero_xor] using hself.symm
  exact feedback_register.feed_burst hset hburst hzero

end Crc32

/-! ## Packets -/

/-- The bit of an error pattern at a position, numbered byte by byte from the lowest bit on. -/
def errorBit (error : List UInt8) (i : Nat) : Bool :=
  (error.getD (i / 8) 0).toNat.testBit (i % 8)

/-- An accepted packet ends in its checksum. -/
theorem PacketWellFormed.checked {raw : List UInt8} (h : PacketWellFormed raw) :
    ∃ body, raw = body ++ le32 (Crc32.calculate body) := by
  obtain ⟨-, -, -, -, hsize, hcrc⟩ := h
  generalize hend : 16 + (readLe16 raw 14).toNat = m at hsize hcrc
  have hlast : le32 (readLe32 raw m) = raw.drop m := by
    rw [le32_readLe32 (by omega), List.take_of_length_le (by rw [List.length_drop]; omega)]
  refine ⟨raw.take m, ?_⟩
  rw [← hcrc, hlast, List.take_append_drop]

/--
Bursts are always detected: a packet as it is serialised, damaged within 32 consecutive bits, is
never accepted.
-/
theorem burst_detected (packet : WirePacket) (rawCapacity : Nat) (raw error : List UInt8)
    (hraw : packet.serialize rawCapacity = some raw) (hlength : error.length = raw.length)
    (hnonzero : ∃ i, errorBit error i = true)
    (hburst : ∃ start, ∀ i, errorBit error i = true → start ≤ i ∧ i < start + 32) :
    ∀ accepted, WirePacket.deserialize (List.zipWith (· ^^^ ·) raw error) ≠ .ok accepted := by
  intro accepted hok
  have hformed := (WirePacket.deserialize_accepted.1
    (show (WirePacket.deserialize (List.zipWith (· ^^^ ·) raw error)).accepted =
      some accepted.toOtaPacket by rw [hok]; rfl)).1
  obtain ⟨body', hbody'⟩ := hformed.checked
  have hbody : packet.crcInput ++ le32 (Crc32.calculate packet.crcInput) = raw := by
    unfold WirePacket.serialize at hraw
    split at hraw
    · cases hraw
    · split at hraw
      · cases hraw
      · exact Option.some.inj hraw
  obtain ⟨i, hi⟩ := hnonzero
  obtain ⟨start, hstart⟩ := hburst
  have hset : true ∈ Crc32.bits error := by
    have hbit : (Crc32.bits error).getD i false = true := (Crc32.bits_getD error i).trans hi
    rw [← hbit]
    have hin : i < (Crc32.bits error).length := by
      by_contra hout
      rw [List.getD_eq_getElem?_getD, List.getElem?_eq_none (not_lt.1 hout)] at hbit
      cases hbit
    rw [List.getD_eq_getElem _ _ hin]
    exact List.getElem_mem hin
  refine Crc32.burst_changes packet.crcInput body' (by rw [hbody, hlength]) hset (s := start)
    (fun j hj => hstart j ((Crc32.bits_getD error j).symm.trans hj)) ?_
  rw [hbody]
  exact hbody'

/-- A query with the two lowest bits of its magic number flipped. -/
theorem burst_detected_magic :
    sampleQuery.serialize otaPacketMaxRawSize = some (rawOf sampleQuery.toOtaPacket) ∧
      ∀ accepted, WirePacket.deserialize (List.zipWith (· ^^^ ·) (rawOf sampleQuery.toOtaPacket)
        (3 :: List.replicate 19 0)) ≠ .ok accepted := by
  have hraw : sampleQuery.serialize otaPacketMaxRawSize = some (rawOf sampleQuery.toOtaPacket) :=
    WirePacket.serialize_eq rfl rfl (by decide)
  refine ⟨hraw, burst_detected _ _ _ _ hraw ?_ ⟨0, by decide⟩ ⟨0, fun i hi => ?_⟩⟩
  · rw [rawOf_length]
    rfl
  · refine ⟨Nat.zero_le i, ?_⟩
    by_contra hfar
    obtain ⟨k, hk⟩ : ∃ k, i / 8 = k + 1 := ⟨i / 8 - 1, by omega⟩
    have hclear : (List.replicate 19 (0 : UInt8)).getD k 0 = 0 := by
      rw [List.getD_eq_getElem?_getD, List.getElem?_replicate]
      split <;> rfl
    rw [errorBit, hk, List.getD_cons_succ, hclear] at hi
    simp at hi

end SecureDeltaOta
