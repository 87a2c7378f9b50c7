import SecureDeltaOta.Protocol.Codecs
import SecureDeltaOta.Standard.ByteStuffing

/-!
# Checksums and stuffing of the codecs

The three checksums are the same function. The stuffing loops in C and in Python
compute `ByteStuffing.stuff` and `unstuff`, the ones in C up to the capacity of
their buffer.
-/

namespace SecureDeltaOta

open Memory ByteStuffing

/-! ## The checksums -/

namespace Crc32

theorem and_one_cases (c : UInt32) : c &&& 1 = 0 ∨ c &&& 1 = 1 := by
  have hlow : (c &&& 1).toNat = c.toNat % 2 := by
    rw [UInt32.toNat_and]
    exact Nat.and_one_is_mod _
  rcases Nat.mod_two_eq_zero_or_one c.toNat with h | h
  · exact .inl (UInt32.toNat_inj.1 (hlow.trans h))
  · exact .inr (UInt32.toNat_inj.1 (hlow.trans h))

/-- The mask of the loop chooses whether the polynomial is added. -/
theorem updateBit_eq_ite (c : UInt32) :
    updateBit c = if c &&& 1 = 1 then (0xEDB88320 : UInt32) ^^^ (c >>> 1) else c >>> 1 := by
  have hones : ieeeReversedPolynomial &&& (0 - 1) = 0xEDB88320 := by decide
  have hnone : ieeeReversedPolynomial &&& (0 - 0) = 0 := by decide
  unfold updateBit
  rcases and_one_cases c with h | h
  · rw [h, if_neg (by decide)]
    simp only [hnone, UInt32.xor_zero]
  · rw [h, if_pos rfl]
    simp only [hones, UInt32.xor_comm]

theorem and_xor_distrib (a b c : UInt32) : c &&& (a ^^^ b) = (c &&& a) ^^^ (c &&& b) := by
  apply UInt32.toBitVec_inj.1
  ext i hi
  simp only [UInt32.toBitVec_and, UInt32.toBitVec_xor, BitVec.getElem_and, BitVec.getElem_xor]
  exact Bool.and_xor_distrib_left _ _ _

/-- The register is shifted linearly, so the bits of a byte can be shifted on their own. -/
theorem updateBit_xor (a b : UInt32) : updateBit (a ^^^ b) = updateBit a ^^^ updateBit b := by
  have hmask : 0 - ((a ^^^ b) &&& 1) = (0 - (a &&& 1)) ^^^ (0 - (b &&& 1)) := by
    rw [UInt32.and_comm, and_xor_distrib, UInt32.and_comm 1 a, UInt32.and_comm 1 b]
    rcases and_one_cases a with ha | ha <;> rcases and_one_cases b with hb | hb <;>
      rw [ha, hb] <;> decide
  simp only [updateBit, hmask, and_xor_distrib, UInt32.shiftRight_xor]
  ac_rfl

theorem repeat_updateBit_xor (n : Nat) (a b : UInt32) :
    Nat.repeat updateBit n (a ^^^ b) = Nat.repeat updateBit n a ^^^ Nat.repeat updateBit n b := by
  induction n with
  | zero => rfl
  | succ n ih => rw [Nat.repeat, ih, updateBit_xor, Nat.repeat, Nat.repeat]

theorem updateBit_even {c : UInt32} (h : c.toNat % 2 = 0) : (updateBit c).toNat = c.toNat / 2 := by
  have hlow : c &&& 1 ≠ 1 := by
    intro hodd
    have hbit := congrArg UInt32.toNat hodd
    rw [UInt32.toNat_and] at hbit
    have hmod : c.toNat % 2 = 1 := (Nat.and_one_is_mod _).symm.trans hbit
    omega
  rw [updateBit_eq_ite, if_neg hlow, UInt32.toNat_shiftRight]
  exact Nat.shiftRight_eq_div_pow _ _

/-- Nothing is added while the bits that are shifted out are clear. -/
theorem repeat_updateBit_high {c : UInt32} {n : Nat} (h : 2 ^ n ∣ c.toNat) :
    (Nat.repeat updateBit n c).toNat = c.toNat / 2 ^ n := by
  induction n with
  | zero => simp [Nat.repeat]
  | succ n ih =>
      obtain ⟨m, hm⟩ := h
      have hshifted : (Nat.repeat updateBit n c).toNat = 2 * m := by
        rw [ih ⟨2 * m, by rw [hm, pow_succ, Nat.mul_assoc]⟩, hm, pow_succ, Nat.mul_assoc,
          Nat.mul_div_cancel_left _ (by positivity)]
      have hall : c.toNat / 2 ^ (n + 1) = m := by
        rw [hm, Nat.mul_div_cancel_left _ (by positivity)]
      rw [Nat.repeat, updateBit_even (by omega), hshifted, hall]
      omega

/-- A step of the table is a byte of the loop. -/
theorem crcStep_eq (crc : UInt32) (byte : UInt8) : Python.crcStep crc byte = updateByte crc byte := by
  have htable (c : UInt32) : Python.crcTable c = Nat.repeat updateBit 8 c := by
    rw [Python.crcTable, ← funext updateBit_eq_ite]
  -- the low byte is looked up, the rest of the register only moves down
  have hsplit : crc ^^^ byte.toUInt32 =
      ((crc ^^^ byte.toUInt32) &&& (0xFF : UInt32)) ^^^ ((crc >>> 8) <<< 8) := by
    have hmask : ∀ i (_ : i < 32), (255 : BitVec 32)[i] = decide (i < 8) := by decide
    apply UInt32.toBitVec_inj.1
    ext i hi
    simp
    grind
  have hhigh : Nat.repeat updateBit 8 ((crc >>> 8) <<< 8) = crc >>> 8 := by
    have hdown : (crc >>> 8).toNat = crc.toNat / 256 := Nat.shiftRight_eq_div_pow _ _
    have hup : ((crc >>> 8) <<< 8).toNat = 2 ^ 8 * (crc.toNat / 256) := by
      have hcrc := crc.toNat_lt
      rw [UInt32.toNat_shiftLeft, hdown]
      change (crc.toNat / 256) <<< 8 % 2 ^ 32 = _
      rw [Nat.shiftLeft_eq]
      omega
    apply UInt32.toNat_inj.1
    rw [repeat_updateBit_high ⟨_, hup⟩, hup, hdown]
    omega
  rw [Python.crcStep, htable, updateByte]
  conv_rhs => rw [hsplit, repeat_updateBit_xor, hhigh]

theorem python_crc32_eq (data : List UInt8) : Python.crc32 data = calculate data := by
  rw [Python.crc32, calculate, update, funext₂ crcStep_eq]
  rfl

theorem tool_crc32_eq (data : List UInt8) : OtaUartProtocol.crc32 data = (calculate data).toNat := by
  have hlt := (calculate data).toNat_lt
  rw [OtaUartProtocol.crc32, python_crc32_eq]
  exact (Nat.and_two_pow_sub_one_eq_mod _ 32).trans (Nat.mod_eq_of_lt hlt)

end Crc32

/-! ## The encoders -/

/-- A code is stored into the slot that was reserved before the run. -/
theorem set_slot (done run : List UInt8) (c : UInt8) :
    (done ++ 0 :: run).set done.length c = done ++ c :: run := by
  rw [List.set_append_right _ _ le_rfl, Nat.sub_self, List.set_cons_zero]

namespace CobsBuffer.Encoder

/-- The encoder has finished `done` and waits with a run. -/
structure Holds (e : Encoder) (done run : List UInt8) : Prop where
  output : e.output = done ++ 0 :: run
  codeIndex : e.codeIndex = done.length
  code : e.code = ByteStuffing.code run

theorem Holds.start : Holds start [] [] := ⟨rfl, rfl, rfl⟩

theorem Holds.store {e : Encoder} {done run : List UInt8} (h : Holds e done run) :
    e.store = done ++ ByteStuffing.code run :: run := by
  rw [Encoder.store, h.output, h.codeIndex, h.code, set_slot]

theorem Holds.push {e : Encoder} {done run : List UInt8} (h : Holds e done run) (b : UInt8) :
    Holds { e with output := e.output ++ [b], code := e.code + 1 } done (run ++ [b]) := by
  refine ⟨by simp [h.output], h.codeIndex, ?_⟩
  simp only [h.code, ByteStuffing.code, List.length_append, List.length_singleton]
  exact (UInt8.ofNat_add _ 1).symm

/-- The next code is refused exactly when there is no slot for it. -/
theorem Holds.nextCode {e : Encoder} {done run : List UInt8} (h : Holds e done run)
    (capacity : Nat) :
    (capacity ≤ (done ++ ByteStuffing.code run :: run).length ∧ e.nextCode capacity = none) ∨
    ((done ++ ByteStuffing.code run :: run).length < capacity ∧
      ∃ e', e.nextCode capacity = some e' ∧
        Holds e' (done ++ ByteStuffing.code run :: run) []) := by
  rw [Encoder.nextCode, h.store]
  split_ifs with hfull
  · exact .inl ⟨hfull, rfl⟩
  · exact .inr ⟨not_le.1 hfull, _, rfl, rfl, rfl, rfl⟩

/-- The frame if it fits. -/
def within (capacity : Nat) (frame : List UInt8) : Option (List UInt8) :=
  if frame.length ≤ capacity then some frame else none

theorem foldlM_push {e : Encoder} {done run : List UInt8} (h : Holds e done run)
    (hrun : Open run) {capacity : Nat} (hroom : e.output.length ≤ capacity)
    (message : List UInt8) :
    (message.foldlM (push capacity) e).map store =
      within capacity (done ++ stuffRun run message) := by
  induction message generalizing e done run with
  | nil =>
      have hlength : (done ++ ByteStuffing.code run :: run).length ≤ capacity := by
        simpa [h.output] using hroom
      rw [stuffRun, within, if_pos hlength, List.foldlM_nil]
      exact congrArg some h.store
  | cons b bs ih =>
      -- a run that ends here leaves its code and a slot, if there is room for the slot
      have hclose {e' : Encoder} {run' : List UInt8} (h' : Holds e' done run') :
          ((e'.nextCode capacity).bind fun e => bs.foldlM (push capacity) e).map store =
            within capacity (done ++ (ByteStuffing.code run' :: run' ++ stuffRun [] bs)) := by
        have hrest := length_lt_stuffRun [] bs
        rcases h'.nextCode capacity with ⟨hfull, hnone⟩ | ⟨hfree, e'', hsome, hnext⟩
        · rw [hnone, within, if_neg]
          · rfl
          · simp only [List.length_append, List.length_cons, List.length_nil] at *
            omega
        · have hslot : e''.output.length ≤ capacity := by
            rw [hnext.output, List.length_append]
            simpa using hfree
          rw [hsome, Option.bind_some, ih hnext Open.nil hslot, List.append_assoc]
      have hlonger := length_lt_stuffRun run (b :: bs)
      rw [List.foldlM_cons, Encoder.push]
      by_cases hb : b = 0
      · rw [if_pos hb, stuffRun, if_pos hb]
        exact hclose h
      · rw [if_neg hb]
        by_cases hfull : capacity ≤ e.output.length
        · rw [if_pos hfull, within, if_neg]
          · rfl
          · rw [h.output] at hfull
            simp only [List.length_append, List.length_cons] at *
            omega
        · have hpushed := h.push b
          rw [if_neg hfull, stuffRun, if_neg hb]
          dsimp only
          by_cases hlast : run.length + 1 = fullRun
          · have hcode := hpushed.code.trans (code_full (by simp [hlast]))
            rw [if_pos hcode, if_pos hlast]
            exact hclose hpushed
          · have hcode := hpushed.code.trans_ne (code_ne_full (hrun.push hb hlast))
            rw [if_neg hcode, if_neg hlast]
            refine ih hpushed (hrun.push hb hlast) ?_
            rw [List.length_append, List.length_singleton]
            omega

end CobsBuffer.Encoder

open CobsBuffer.Encoder (within)

/-- The encoders in C stuff, if the frame fits. -/
theorem CobsBuffer.encode_eq {capacity : Nat} (h : 0 < capacity) (input : List UInt8) :
    CobsBuffer.encode capacity input = within capacity (stuff input) := by
  rw [CobsBuffer.encode, if_neg (by omega), Encoder.foldlM_push Encoder.Holds.start Open.nil h]
  rfl

namespace OtaUartProtocol.Encoder

structure Holds (e : Encoder) (done run : List UInt8) : Prop where
  out : e.out = done ++ 0 :: run
  codeIndex : e.codeIndex = done.length
  code : e.code = run.length + 1

theorem Holds.store {e : Encoder} {done run : List UInt8} (h : Holds e done run) :
    e.store = done ++ ByteStuffing.code run :: run := by
  rw [Encoder.store, h.out, h.codeIndex, h.code, set_slot]
  rfl

theorem Holds.push {e : Encoder} {done run : List UInt8} (h : Holds e done run) (b : UInt8) :
    Holds { e with out := e.out ++ [b], code := e.code + 1 } done (run ++ [b]) :=
  ⟨by simp [h.out], h.codeIndex, by simp [h.code]⟩

theorem Holds.nextCode {e : Encoder} {done run : List UInt8} (h : Holds e done run) :
    Holds e.nextCode (done ++ ByteStuffing.code run :: run) [] :=
  ⟨by rw [Encoder.nextCode, h.store], by simp [Encoder.nextCode, h.out], rfl⟩

theorem foldl_push {e : Encoder} {done run : List UInt8} (h : Holds e done run)
    (message : List UInt8) :
    (message.foldl Encoder.push e).store = done ++ stuffRun run message := by
  induction message generalizing e done run with
  | nil => exact h.store
  | cons b bs ih =>
      have hpushed := h.push b
      rw [List.foldl_cons, Encoder.push, stuffRun]
      by_cases hb : b = 0
      · rw [if_pos hb, if_pos hb, ih h.nextCode, List.append_assoc]
      · rw [if_neg hb, if_neg hb]
        dsimp only
        by_cases hlast : run.length + 1 = fullRun
        · have hcode : e.code + 1 = 0xFF := by rw [h.code, hlast]; rfl
          rw [if_pos hcode, if_pos hlast, ih hpushed.nextCode, List.append_assoc]
        · have hcode : e.code + 1 ≠ 0xFF := by
            rw [h.code]
            unfold fullRun at hlast
            omega
          rw [if_neg hcode, if_neg hlast, ih hpushed]

end OtaUartProtocol.Encoder

/-- The encoder of the tools stuffs. -/
theorem OtaUartProtocol.cobsEncode_eq (data : List UInt8) : cobsEncode data = stuff data := by
  have hstart : Encoder.Holds { out := [0], codeIndex := 0, code := 1 } [] [] := ⟨rfl, rfl, rfl⟩
  exact Encoder.foldl_push hstart data

/-! ## The decoders -/

/-- The next code of a frame and what follows it. -/
theorem drop_eq_getD_cons {input : List UInt8} {i : Nat} (h : i < input.length) :
    input.drop i = input.getD i 0 :: input.drop (i + 1) := by
  rw [List.drop_eq_getElem_cons h, List.getD_eq_getElem _ _ h]

theorem within_none {capacity : Nat} {frame : List UInt8} (h : capacity < frame.length) :
    within capacity frame = none :=
  if_neg (by omega)

theorem CobsBuffer.decodeLoop_eq {input output : List UInt8} {capacity fuel readIndex : Nat}
    (hroom : output.length ≤ capacity) :
    decodeLoop input capacity fuel readIndex output =
      (unstuffRuns fuel (input.drop readIndex)).bind fun m => within capacity (output ++ m) := by
  induction fuel generalizing readIndex output with
  | zero => rfl
  | succ fuel ih =>
      rw [decodeLoop]
      by_cases hend : input.length ≤ readIndex
      · rw [if_pos hend, List.drop_eq_nil_of_le hend, unstuffRuns, Option.bind_some,
          List.append_nil, within, if_pos hroom]
      · rw [if_neg hend, drop_eq_getD_cons (by omega), unstuffRuns]
        generalize input.getD readIndex 0 = code
        dsimp only
        rw [List.length_drop, List.drop_drop]
        by_cases hcode : code = 0
        · rw [if_pos hcode, if_pos (.inl hcode)]
          rfl
        by_cases hshort : code.toNat - 1 > input.length - (readIndex + 1)
        · rw [if_neg hcode, if_pos hshort, if_pos (.inr hshort)]
          rfl
        rw [if_neg hcode, if_neg hshort, if_neg (not_or.2 ⟨hcode, hshort⟩), Option.bind_map]
        have hrun : ((input.drop (readIndex + 1)).take (code.toNat - 1)).length =
            code.toNat - 1 := by
          rw [List.length_take, List.length_drop]
          omega
        have htail : input.drop (readIndex + 1 + (code.toNat - 1)) ≠ [] ↔
            readIndex + 1 + (code.toNat - 1) < input.length := by
          rw [ne_eq, List.drop_eq_nil_iff, not_le]
        generalize (input.drop (readIndex + 1)).take (code.toNat - 1) = run at *
        -- a run or a zero beyond the capacity makes every output too long
        have hlonger (zero : List UInt8) (hfull : capacity < output.length + run.length + zero.length) :
            (unstuffRuns fuel (input.drop (readIndex + 1 + (code.toNat - 1)))).bind
              ((fun m => within capacity (output ++ m)) ∘ (run ++ zero ++ ·)) = none := by
          rw [Option.bind_eq_none_iff]
          intro m _
          apply within_none
          simp only [List.length_append]
          omega
        by_cases hlong : code.toNat - 1 > capacity - output.length
        · rw [if_pos hlong, hlonger _ (by omega)]
        rw [if_neg hlong]
        by_cases hzero : code ≠ 0xFF ∧ readIndex + 1 + (code.toNat - 1) < input.length
        · have hsep : code ≠ 0xFF ∧ input.drop (readIndex + 1 + (code.toNat - 1)) ≠ [] :=
            ⟨hzero.1, htail.2 hzero.2⟩
          rw [if_pos hzero, if_pos hsep]
          by_cases hfull : capacity ≤ (output ++ run).length
          · rw [if_pos hfull, hlonger]
            simp only [List.length_append, List.length_singleton] at *
            omega
          · have hnext : (output ++ run ++ [0]).length ≤ capacity := by
              rw [List.length_append, List.length_singleton]
              omega
            rw [if_neg hfull, ih hnext]
            simp
        · have hsep : ¬ (code ≠ 0xFF ∧ input.drop (readIndex + 1 + (code.toNat - 1)) ≠ []) :=
            fun h => hzero ⟨h.1, htail.1 h.2⟩
          rw [if_neg hzero, if_neg hsep, ih (by rw [List.length_append]; omega)]
          simp

/-- The decoders in C read a frame, if its message fits. -/
theorem CobsBuffer.decode_eq (capacity : Nat) (input : List UInt8) :
    CobsBuffer.decode capacity input = (unstuff input).bind (within capacity) := by
  rw [CobsBuffer.decode, unstuff]
  by_cases hempty : input = []
  · rw [if_pos hempty, if_pos (by rw [hempty]; rfl)]
    rfl
  · rw [if_neg hempty, if_neg (by simpa using hempty), decodeLoop_eq (Nat.zero_le _)]
    rfl

theorem OtaUartProtocol.cobsDecodeLoop_eq {data out : List UInt8} {fuel index : Nat} :
    (cobsDecodeLoop data fuel index out).toOption =
      (unstuffRuns fuel (data.drop index)).map (out ++ ·) := by
  induction fuel generalizing index out with
  | zero => rfl
  | succ fuel ih =>
      rw [cobsDecodeLoop]
      by_cases hend : data.length ≤ index
      · rw [if_pos hend, List.drop_eq_nil_of_le hend, unstuffRuns, Option.map_some,
          List.append_nil]
        rfl
      · rw [if_neg hend, drop_eq_getD_cons (by omega), unstuffRuns]
        generalize data.getD index 0 = code
        dsimp only
        rw [List.length_drop, List.drop_drop]
        by_cases hcode : code = 0
        · rw [if_pos (by rw [hcode]; rfl), if_pos (.inl hcode)]
          rfl
        have hnat : code.toNat ≠ 0 := fun h => hcode (UInt8.toNat_inj.1 h)
        rw [if_neg hnat]
        by_cases hshort : data.length - (index + 1) < code.toNat - 1
        · rw [if_pos (by omega), if_pos (.inr hshort)]
          rfl
        have hstop : index + 1 + code.toNat - 1 = index + 1 + (code.toNat - 1) := by omega
        have hrun : (data.take (index + 1 + (code.toNat - 1))).drop (index + 1) =
            (data.drop (index + 1)).take (code.toNat - 1) := by
          rw [List.drop_take, Nat.add_sub_cancel_left]
        have hsep : (code.toNat ≠ 0xFF ∧ index + 1 + (code.toNat - 1) < data.length) ↔
            (code ≠ 0xFF ∧ data.drop (index + 1 + (code.toNat - 1)) ≠ []) := by
          have hfull : code.toNat ≠ 0xFF ↔ code ≠ 0xFF := not_congr (UInt8.toNat_inj (b := 0xFF))
          rw [hfull, ne_eq (data.drop _), List.drop_eq_nil_iff, not_le]
        rw [if_neg (by omega), if_neg (not_or.2 ⟨hcode, hshort⟩), hstop, hrun, Option.map_map]
        by_cases hzero : code.toNat ≠ 0xFF ∧ index + 1 + (code.toNat - 1) < data.length
        · rw [if_pos hzero, if_pos (hsep.1 hzero), ih]
          simp [Function.comp_def]
        · rw [if_neg hzero, if_neg (mt hsep.2 hzero), ih]
          simp [Function.comp_def]

/-- The decoder of the tools reads a frame. -/
theorem OtaUartProtocol.cobsDecode_eq (data : List UInt8) :
    (cobsDecode data).toOption = unstuff data := by
  rw [cobsDecode, unstuff]
  split_ifs
  · rfl
  · rw [cobsDecodeLoop_eq]
    simp

end SecureDeltaOta
