import SecureDeltaOta.Shared.Digest
import SecureDeltaOta.Standard.Fips180

/-!
# The digest is the standard one

The streaming SHA-256 of the source computes what FIPS 180-4 defines, however
its input is split: the buffered blocks are the blocks of the padded message,
and one transformation is one iteration of the hash computation.
-/

namespace SecureDeltaOta

namespace Sha256

open Fips180

/-- A byte string as a bit string. -/
def bits (bytes : List UInt8) : Bits := bytes.flatMap fun b => binary 8 b.toNat

@[simp] theorem bits_nil : bits [] = [] := rfl

@[simp] theorem bits_cons (b : UInt8) (bytes : List UInt8) :
    bits (b :: bytes) = binary 8 b.toNat ++ bits bytes := rfl

theorem bits_append (xs ys : List UInt8) : bits (xs ++ ys) = bits xs ++ bits ys :=
  List.flatMap_append

@[simp] theorem bits_length (bytes : List UInt8) : (bits bytes).length = 8 * bytes.length := by
  induction bytes with
  | nil => rfl
  | cons b bytes ih =>
      rw [bits_cons, List.length_append, binary_length, ih, List.length_cons]
      ring

theorem bits_drop (bytes : List UInt8) (n : Nat) :
    (bits bytes).drop (8 * n) = bits (bytes.drop n) := by
  induction n generalizing bytes with
  | zero => simp
  | succ n ih =>
      cases bytes with
      | nil => simp
      | cons b bytes =>
          rw [bits_cons, List.drop_succ_cons, ← ih, Nat.mul_succ, Nat.add_comm, ← List.drop_drop,
            List.drop_left' (binary_length _ _)]

theorem bits_take (bytes : List UInt8) (n : Nat) :
    (bits bytes).take (8 * n) = bits (bytes.take n) := by
  induction n generalizing bytes with
  | zero => simp
  | succ n ih =>
      cases bytes with
      | nil => simp
      | cons b bytes =>
          rw [bits_cons, List.take_succ_cons, bits_cons, ← ih, Nat.mul_succ, Nat.add_comm,
            List.take_append, List.take_of_length_le (by simp), binary_length]
          simp

/-! ## Words -/

theorem rotateRight_toBitVec (x : UInt32) {n : Nat} (h : 0 < n) (hn : n < 32) :
    (rotateRight x (UInt32.ofNat n)).toBitVec = rotr n x.toBitVec := by
  interval_cases n <;> rfl

theorem loadBe32_toNat (bytes : List UInt8) (offset : Nat) :
    (loadBe32 bytes offset).toNat = (bytes.getD offset 0).toNat * 2 ^ 24 +
      (bytes.getD (offset + 1) 0).toNat * 2 ^ 16 + (bytes.getD (offset + 2) 0).toNat * 2 ^ 8 +
      (bytes.getD (offset + 3) 0).toNat := by
  unfold loadBe32
  generalize bytes.getD offset 0 = b₀
  generalize bytes.getD (offset + 1) 0 = b₁
  generalize bytes.getD (offset + 2) 0 = b₂
  generalize bytes.getD (offset + 3) 0 = b₃
  have h₀ := b₀.toNat_lt
  have h₁ := b₁.toNat_lt
  have h₂ := b₂.toNat_lt
  have h₃ := b₃.toNat_lt
  have hshift : ∀ (b : UInt8) (n : Nat), n ≤ 24 →
      (b.toUInt32 <<< UInt32.ofNat n).toNat = b.toNat * 2 ^ n := by
    intro b n hn
    have hb := b.toNat_lt
    have hpow : 2 ^ n ≤ 2 ^ 24 := Nat.pow_le_pow_right (by decide) hn
    rw [UInt32.toNat_shiftLeft, UInt32.toNat_ofNat', Nat.mod_eq_of_lt (by omega : n < 2 ^ 32),
      Nat.mod_eq_of_lt (by omega : n < 32), UInt8.toNat_toUInt32, Nat.shiftLeft_eq]
    exact Nat.mod_eq_of_lt (by nlinarith)
  have hor : ∀ (high low n : Nat), low < 2 ^ n → (2 ^ n * high) ||| low = 2 ^ n * high + low :=
    fun high low n hlow => (Nat.two_pow_add_eq_or_of_lt hlow high).symm
  rw [UInt32.toNat_or, UInt32.toNat_or, UInt32.toNat_or, UInt8.toNat_toUInt32]
  change (b₀.toUInt32 <<< UInt32.ofNat 24).toNat ||| (b₁.toUInt32 <<< UInt32.ofNat 16).toNat |||
    (b₂.toUInt32 <<< UInt32.ofNat 8).toNat ||| b₃.toNat = _
  rw [hshift _ 24 (by decide), hshift _ 16 (by decide), hshift _ 8 (by decide)]
  calc b₀.toNat * 2 ^ 24 ||| b₁.toNat * 2 ^ 16 ||| b₂.toNat * 2 ^ 8 ||| b₃.toNat
      = 2 ^ 16 * (b₀.toNat * 2 ^ 8 + b₁.toNat) ||| b₂.toNat * 2 ^ 8 ||| b₃.toNat := by
        rw [Nat.mul_comm b₀.toNat, hor _ _ 24 (by omega)]
        congr 2
        ring
    _ = 2 ^ 8 * ((b₀.toNat * 2 ^ 8 + b₁.toNat) * 2 ^ 8 + b₂.toNat) ||| b₃.toNat := by
        rw [hor _ _ 16 (by omega)]
        congr 1
        ring
    _ = _ := by
        rw [hor _ _ 8 h₃]
        ring

theorem byte_shift (x : UInt32) {n : Nat} (h : n < 32) :
    ((x >>> UInt32.ofNat n).toUInt8).toNat = x.toNat / 2 ^ n % 256 := by
  rw [UInt32.toNat_toUInt8, UInt32.toNat_shiftRight, Nat.shiftRight_eq_div_pow]
  rw [UInt32.toNat_ofNat', Nat.mod_eq_of_lt (by omega : n < 2 ^ 32), Nat.mod_eq_of_lt h]

theorem storeBe32_bits (x : UInt32) : bits (storeBe32 x) = binary 32 x.toNat := by
  have hbyte : ∀ n, n < 32 → binary 8 ((x >>> UInt32.ofNat n).toUInt8).toNat =
      binary 8 (x.toNat / 2 ^ n) := by
    intro n hn
    rw [byte_shift x hn]
    exact binary_mod 8 _
  have hlast : binary 8 x.toUInt8.toNat = binary 8 x.toNat := by
    rw [UInt32.toNat_toUInt8]
    exact binary_mod 8 _
  calc bits (storeBe32 x)
      = binary 8 (x.toNat / 2 ^ 24) ++ (binary 8 (x.toNat / 2 ^ 16) ++
          (binary 8 (x.toNat / 2 ^ 8) ++ binary 8 x.toNat)) := by
        rw [← hbyte 24 (by decide), ← hbyte 16 (by decide), ← hbyte 8 (by decide), ← hlast]
        simp [storeBe32]
    _ = binary 32 x.toNat := by
        rw [← binary_add 8 8, ← binary_add 8 16, ← binary_add 8 24]

theorem number_byte (b : UInt8) : number (binary 8 b.toNat) = b.toNat := by
  rw [number_binary]
  exact Nat.mod_eq_of_lt b.toNat_lt

theorem take_four {bytes : List UInt8} {n : Nat} (h : n + 4 ≤ bytes.length) :
    (bytes.drop n).take 4 = [bytes.getD n 0, bytes.getD (n + 1) 0, bytes.getD (n + 2) 0,
      bytes.getD (n + 3) 0] := by
  rw [List.drop_eq_getElem_cons (by omega), List.drop_eq_getElem_cons (by omega),
    List.drop_eq_getElem_cons (by omega), List.drop_eq_getElem_cons (by omega)]
  simp only [List.take_succ_cons, List.take_zero]
  rw [List.getD_eq_getElem _ _ (by omega), List.getD_eq_getElem _ _ (by omega),
    List.getD_eq_getElem _ _ (by omega), List.getD_eq_getElem _ _ (by omega)]

/-- A word of a block is loaded from its four bytes. -/
theorem blockWord_bits {bytes : List UInt8} {t : Nat} (h : 4 * t + 4 ≤ bytes.length) :
    blockWord (bits bytes) t = (loadBe32 bytes (4 * t)).toBitVec := by
  have hfour : ((bits bytes).drop (32 * t)).take 32 = bits [bytes.getD (4 * t) 0,
      bytes.getD (4 * t + 1) 0, bytes.getD (4 * t + 2) 0, bytes.getD (4 * t + 3) 0] := by
    rw [← take_four h, ← bits_take _ 4, show 32 * t = 8 * (4 * t) by ring, bits_drop]
  unfold blockWord word
  rw [hfour]
  apply BitVec.eq_of_toNat_eq
  change _ = (loadBe32 bytes (4 * t)).toNat
  rw [loadBe32_toNat, BitVec.toNat_ofNat]
  simp only [bits_cons, bits_nil, List.append_nil, number_append, number_byte, List.length_append,
    binary_length]
  have h₀ := (bytes.getD (4 * t) 0).toNat_lt
  have h₁ := (bytes.getD (4 * t + 1) 0).toNat_lt
  have h₂ := (bytes.getD (4 * t + 2) 0).toNat_lt
  have h₃ := (bytes.getD (4 * t + 3) 0).toNat_lt
  omega

/-! ## One block -/

/-- The words of a state as the standard's. -/
def State.work (s : State) : Work :=
  ⟨s.a.toBitVec, s.b.toBitVec, s.c.toBitVec, s.d.toBitVec, s.e.toBitVec, s.f.toBitVec,
    s.g.toBitVec, s.h.toBitVec⟩

theorem smallSigma0_toBitVec (x : UInt32) :
    (rotateRight x 7 ^^^ rotateRight x 18 ^^^ (x >>> 3)).toBitVec = smallSigma0 x.toBitVec :=
  rfl

theorem smallSigma1_toBitVec (x : UInt32) :
    (rotateRight x 17 ^^^ rotateRight x 19 ^^^ (x >>> 10)).toBitVec = smallSigma1 x.toBitVec :=
  rfl

/-- The schedule so far. -/
def Scheduled (M : Nat → Word) (w : List UInt32) : Prop :=
  ∀ t < w.length, (w.getD t 0).toBitVec = schedule M t

/-- The schedule is extended by the recurrence of the standard. -/
theorem extendSchedule_spec {w : List UInt32} {M : Nat → Word} (hlength : 16 ≤ w.length)
    (h : Scheduled M w) : Scheduled M (extendSchedule w) := by
  intro t ht
  unfold extendSchedule at ht ⊢
  rw [List.length_append, List.length_singleton] at ht
  rcases Nat.lt_succ_iff_lt_or_eq.1 ht with hold | rfl
  · rw [List.getD_append _ _ _ _ hold]
    exact h t hold
  · rw [List.getD_append_right _ _ _ _ le_rfl, Nat.sub_self, List.getD_cons_zero,
      schedule_ge M hlength, ← h _ (by omega), ← h _ (by omega), ← h _ (by omega),
      ← h _ (by omega), ← smallSigma0_toBitVec, ← smallSigma1_toBitVec]
    simp only [UInt32.toBitVec_add]
    ac_rfl

theorem loadWords_scheduled {block : List UInt8} (hblock : block.length = blockSize) :
    Scheduled (blockWord (bits block)) ((List.range 16).map fun i => loadBe32 block (4 * i)) := by
  intro t ht
  rw [List.length_map, List.length_range] at ht
  unfold blockSize at hblock
  rw [schedule_lt _ ht, blockWord_bits (by omega), List.getD_eq_getElem _ _ (by simpa using ht),
    List.getElem_map, List.getElem_range]

theorem repeat_extendSchedule {w : List UInt32} {M : Nat → Word} (hlength : 16 ≤ w.length)
    (h : Scheduled M w) (n : Nat) :
    (Nat.repeat extendSchedule n w).length = w.length + n ∧
      Scheduled M (Nat.repeat extendSchedule n w) := by
  induction n with
  | zero => exact ⟨rfl, h⟩
  | succ n ih =>
      obtain ⟨hsize, hscheduled⟩ := ih
      refine ⟨?_, extendSchedule_spec (by omega) hscheduled⟩
      rw [Nat.repeat, extendSchedule, List.length_append, hsize]
      rfl

theorem messageSchedule_spec {block : List UInt8} (hblock : block.length = blockSize) :
    (messageSchedule block).length = 64 ∧
      Scheduled (blockWord (bits block)) (messageSchedule block) :=
  repeat_extendSchedule (by simp) (loadWords_scheduled hblock) 48

/-- A round with words of the standard is a step of the standard. -/
theorem round_spec (s : State) (k w : UInt32) :
    (round s (k, w)).work = step s.work k.toBitVec w.toBitVec :=
  rfl

/-- The integer part of a root of a small number. -/
def wholeRoot (e p : Nat) : Nat := (List.range 18).findIdx fun c => Nat.blt p ((c + 1) ^ e)

/-- A word has the fractional bits of a root. -/
def IsRoot (e p : Nat) (w : UInt32) : Prop :=
  (wholeRoot e p * 2 ^ 32 + w.toNat) ^ e ≤ p * 2 ^ (32 * e) ∧
    p * 2 ^ (32 * e) < (wholeRoot e p * 2 ^ 32 + w.toNat + 1) ^ e ∧
    wholeRoot e p * 2 ^ 32 + w.toNat ≤ p * 2 ^ 32

instance (e p : Nat) (w : UInt32) : Decidable (IsRoot e p w) :=
  inferInstanceAs (Decidable (_ ∧ _ ∧ _))

theorem IsRoot.eq {e p : Nat} {w : UInt32} (h : IsRoot e p w) : w.toBitVec = rootBits e p := by
  rw [rootBits_eq h.1 h.2.1 h.2.2]
  apply BitVec.eq_of_toNat_eq
  have hlt : w.toNat < 2 ^ 32 := w.toNat_lt
  change w.toNat = _
  rw [BitVec.toNat_ofNat]
  omega

/-- The constants of the source are the ones of the standard. -/
theorem k_spec {t : Nat} (ht : t < 64) : (k.getD t 0).toBitVec = constant t := by
  have hroot : ∀ t < 64, IsRoot 3 (primes.getD t 0) (k.getD t 0) := by decide +kernel
  rw [constant, nth_prime ht]
  exact (hroot t ht).eq

theorem init_spec : init.state.work = initialValue := by
  have hroot : ∀ i < 8, IsRoot 2 (primes.getD i 0) ([init.state.a, init.state.b, init.state.c,
      init.state.d, init.state.e, init.state.f, init.state.g, init.state.h].getD i 0) := by
    decide +kernel
  unfold State.work initialValue initialWord
  rw [nth_prime (by decide), nth_prime (by decide), nth_prime (by decide), nth_prime (by decide),
    nth_prime (by decide), nth_prime (by decide), nth_prime (by decide), nth_prime (by decide)]
  rw [← (hroot 0 (by decide)).eq, ← (hroot 1 (by decide)).eq, ← (hroot 2 (by decide)).eq,
    ← (hroot 3 (by decide)).eq, ← (hroot 4 (by decide)).eq, ← (hroot 5 (by decide)).eq,
    ← (hroot 6 (by decide)).eq, ← (hroot 7 (by decide)).eq]
  rfl

/-- The rounds of the source, round by round. -/
theorem rounds_spec {block : List UInt8} (hblock : block.length = blockSize) (s : State) {n : Nat}
    (hn : n ≤ 64) :
    (((k.zip (messageSchedule block)).take n).foldl round s).work =
      rounds s.work (blockWord (bits block)) n := by
  obtain ⟨hlength, hscheduled⟩ := messageSchedule_spec hblock
  have hk : k.length = 64 := rfl
  induction n with
  | zero => rfl
  | succ n ih =>
      have hlt : n < (k.zip (messageSchedule block)).length := by
        rw [List.length_zip]
        omega
      rw [List.take_succ_eq_append_getElem hlt, List.foldl_append, List.foldl_cons, List.foldl_nil,
        List.getElem_zip, round_spec, ih (by omega), rounds, ← k_spec (by omega),
        ← hscheduled n (by omega), List.getD_eq_getElem _ _ (by omega),
        List.getD_eq_getElem _ _ (by omega)]

/-- The transformation of a block is the compression of the standard. -/
theorem transform_spec {block : List UInt8} (hblock : block.length = blockSize) (s : State) :
    (transform s block).work = compress s.work (bits block) := by
  have hrounds := rounds_spec hblock s le_rfl
  have hall : (k.zip (messageSchedule block)).length ≤ 64 := by
    rw [List.length_zip, (messageSchedule_spec hblock).1]
    exact Nat.min_le_right _ _
  rw [List.take_of_length_le hall] at hrounds
  rw [compress, ← hrounds]
  simp only [transform, State.work, Work.add, UInt32.toBitVec_add, Work.mk.injEq]
  refine ⟨?_, ?_, ?_, ?_, ?_, ?_, ?_, ?_⟩ <;> exact BitVec.add_comm _ _

/-! ## All blocks -/

/-- Whole blocks are transformed one after the other. -/
theorem foldl_absorbByte_blocks {n : Nat} {data : List UInt8} {context : Context}
    (hdata : data.length = blockSize * n) (hbuffer : context.buffer = []) :
    (data.foldl absorbByte context).state = (List.range n).foldl
      (fun s i => transform s ((data.drop (blockSize * i)).take blockSize)) context.state := by
  induction n generalizing data context with
  | zero =>
      rw [List.length_eq_zero_iff.1 hdata]
      rfl
  | succ n ih =>
      have hsize : (data.take blockSize).length = blockSize := by
        rw [List.length_take, hdata, Nat.mul_succ]
        omega
      have hne : data.take blockSize ≠ [] :=
        List.ne_nil_of_length_pos (by rw [hsize]; decide)
      have hfirst : (data.take blockSize).foldl absorbByte context = _ :=
        foldl_absorbByte_full hne (by rw [hbuffer]; simpa using hsize)
      have hrest : (data.drop blockSize).length = blockSize * n := by
        rw [List.length_drop, hdata, Nat.mul_succ]
        omega
      rw [← List.take_append_drop blockSize data, List.foldl_append, hfirst, ih hrest rfl,
        List.take_append_drop, List.range_succ_eq_map, List.foldl_cons, List.foldl_map, hbuffer]
      simp only [List.drop_drop, Nat.mul_zero, List.drop_zero, List.nil_append, Nat.mul_succ,
        Nat.add_comm]

theorem absorbByte_buffer_length (context : Context) (h : context.Open) (byte : UInt8) :
    (absorbByte context byte).buffer.length = (context.buffer.length + 1) % blockSize := by
  have hopen : context.buffer.length < blockSize := h
  unfold absorbByte
  split
  · next hfull => rw [hfull, Nat.mod_self, List.length_nil]
  · next hpart =>
    rw [List.length_append, List.length_singleton, Nat.mod_eq_of_lt (by omega)]

/-- The unfinished block has as many bytes as are left over. -/
theorem foldl_absorbByte_buffer_length {context : Context} (h : context.Open)
    (data : List UInt8) : (data.foldl absorbByte context).buffer.length =
      (context.buffer.length + data.length) % blockSize := by
  induction data generalizing context with
  | nil => exact (Nat.mod_eq_of_lt h).symm
  | cons byte data ih =>
      rw [List.foldl_cons, ih (absorbByte_open h byte), absorbByte_buffer_length context h,
        Nat.mod_add_mod, List.length_cons]
      congr 1
      omega

/-! ## Padding -/

/-- The length of the message in bits, as the source stores it. -/
def lengthBytes (totalLength : UInt64) : List UInt8 :=
  (List.range 8).map fun i => ((totalLength * 8) >>> UInt64.ofNat ((7 - i) * 8)).toUInt8

/-- What `Sha256_Final` adds to an unfinished block of the given length. -/
def padding (buffered : Nat) (totalLength : UInt64) : List UInt8 :=
  0x80 :: List.replicate ((119 - buffered) % 64) 0 ++ lengthBytes totalLength

def digestOf (s : State) : List UInt8 :=
  storeBe32 s.a ++ storeBe32 s.b ++ storeBe32 s.c ++ storeBe32 s.d ++ storeBe32 s.e ++
    storeBe32 s.f ++ storeBe32 s.g ++ storeBe32 s.h

@[simp] theorem lengthBytes_length (totalLength : UInt64) :
    (lengthBytes totalLength).length = 8 := rfl

/-- The padding fits into the unfinished block. -/
theorem final_short {context : Context} (h : context.buffer.length ≤ 55) :
    final context = digestOf ((padding context.buffer.length context.totalLength).foldl absorbByte
      context).state := by
  have hzeros : (119 - context.buffer.length) % 64 = 55 - context.buffer.length := by omega
  have hlength : context.buffer.length +
      (padding context.buffer.length context.totalLength).length = blockSize := by
    simp only [padding, List.length_append, List.length_cons, List.length_replicate,
      lengthBytes_length, hzeros, blockSize]
    omega
  rw [foldl_absorbByte_full (by simp [padding]) hlength]
  have hroom : 56 - (context.buffer ++ [0x80]).length = 55 - context.buffer.length := by
    rw [List.length_append, List.length_singleton]
    omega
  unfold final
  dsimp only
  rw [if_neg (by rw [List.length_append, List.length_singleton]; omega)]
  dsimp only
  rw [hroom, padding, hzeros]
  simp only [List.append_assoc, List.cons_append, List.nil_append, digestOf, lengthBytes]

/-- The padding takes a second block. -/
theorem final_long {context : Context} (h : 56 ≤ context.buffer.length)
    (hopen : context.buffer.length < blockSize) :
    final context = digestOf ((padding context.buffer.length context.totalLength).foldl absorbByte
      context).state := by
  unfold blockSize at hopen
  have hzeros : (119 - context.buffer.length) % 64 = (63 - context.buffer.length) + 56 := by omega
  have hsplit : padding context.buffer.length context.totalLength =
      (0x80 :: List.replicate (63 - context.buffer.length) 0) ++
        (List.replicate 56 0 ++ lengthBytes context.totalLength) := by
    rw [padding, hzeros, List.replicate_add]
    simp only [List.append_assoc, List.cons_append]
  have hfirst : context.buffer.length +
      (0x80 :: List.replicate (63 - context.buffer.length) (0 : UInt8)).length = blockSize := by
    simp only [List.length_cons, List.length_replicate, blockSize]
    omega
  rw [hsplit, List.foldl_append, foldl_absorbByte_full (by simp) hfirst,
    foldl_absorbByte_full (by simp) (by simp [blockSize])]
  have hroom : 64 - (context.buffer ++ [0x80]).length = 63 - context.buffer.length := by
    rw [List.length_append, List.length_singleton]
    omega
  unfold final
  dsimp only
  rw [if_pos (by rw [List.length_append, List.length_singleton]; omega)]
  dsimp only
  rw [blockSize, hroom]
  simp only [List.append_assoc, List.cons_append, List.nil_append, List.length_nil, Nat.sub_zero,
    digestOf, lengthBytes]

/-- Finishing amounts to absorbing the padding. -/
theorem final_eq {context : Context} (h : context.Open) :
    final context = digestOf ((padding context.buffer.length context.totalLength).foldl absorbByte
      context).state := by
  by_cases hshort : context.buffer.length ≤ 55
  · exact final_short hshort
  · exact final_long (by omega) h

theorem digestOf_bits (s : State) : bits (digestOf s) = s.work.bits := by
  simp only [digestOf, bits_append, storeBe32_bits, Work.bits, State.work, List.flatMap_cons,
    List.flatMap_nil, List.append_nil, List.append_assoc, UInt32.toNat_toBitVec]

theorem lengthBytes_bits {n : Nat} (h : n < 2 ^ 61) :
    bits (lengthBytes (UInt64.ofNat n)) = binary 64 (8 * n) := by
  generalize hx : UInt64.ofNat n * 8 = x
  have hbyte : ∀ k, k < 64 → binary 8 ((x >>> UInt64.ofNat k).toUInt8).toNat =
      binary 8 (x.toNat / 2 ^ k) := by
    intro k hk
    rw [UInt64.toNat_toUInt8, UInt64.toNat_shiftRight, Nat.shiftRight_eq_div_pow,
      UInt64.toNat_ofNat', Nat.mod_eq_of_lt (by omega : k < 2 ^ 64), Nat.mod_eq_of_lt hk]
    exact binary_mod 8 _
  have height : (8 : UInt64).toNat = 8 := rfl
  have hnat : x.toNat = 8 * n := by
    rw [← hx, UInt64.toNat_mul, UInt64.toNat_ofNat', Nat.mod_eq_of_lt (by omega : n < 2 ^ 64),
      Nat.mul_comm, height]
    exact Nat.mod_eq_of_lt (by omega)
  have hrange : List.range 8 = [0, 1, 2, 3, 4, 5, 6, 7] := rfl
  rw [lengthBytes, hx, hrange]
  simp only [List.map_cons, List.map_nil, bits_cons, bits_nil, List.append_nil, Nat.reduceSub,
    Nat.reduceMul]
  rw [hbyte 56 (by decide), hbyte 48 (by decide), hbyte 40 (by decide), hbyte 32 (by decide),
    hbyte 24 (by decide), hbyte 16 (by decide), hbyte 8 (by decide), hbyte 0 (by decide),
    Nat.pow_zero, Nat.div_one, ← binary_add 8 8, ← binary_add 8 16, ← binary_add 8 24,
    ← binary_add 8 32, ← binary_add 8 40, ← binary_add 8 48, ← binary_add 8 56, hnat]

theorem bits_zeros (n : Nat) : bits (List.replicate n 0) = List.replicate (8 * n) false := by
  induction n with
  | zero => rfl
  | succ n ih =>
      have hzero : binary 8 (0 : UInt8).toNat = List.replicate 8 false := rfl
      rw [List.replicate_succ, bits_cons, ih, hzero, ← List.replicate_add, Nat.mul_succ, Nat.add_comm]

/-- The padded message of the standard. -/
theorem pad_bits {message : List UInt8} (h : message.length < 2 ^ 61) :
    pad (bits message) = bits (message ++
      padding (message.length % blockSize) (UInt64.ofNat message.length)) := by
  have hone : binary 8 (0x80 : UInt8).toNat = true :: List.replicate 7 false := rfl
  have hzeros : zeros (8 * message.length) =
      7 + 8 * ((119 - message.length % blockSize) % 64) := by
    unfold zeros blockSize
    omega
  rw [pad, padding, bits_length, hzeros, bits_append, bits_append, lengthBytes_bits h, bits_cons,
    bits_zeros, hone, List.replicate_add]
  simp only [List.append_assoc, List.cons_append]

/-! ## The digest -/

theorem foldl_update {context : Context} (h : context.Open) (chunks : List (List UInt8)) :
    chunks.foldl update context = update context chunks.flatten := by
  induction chunks generalizing context with
  | nil => exact (update_nil h).symm
  | cons chunk chunks ih =>
      rw [List.foldl_cons, ih (update_open h chunk), List.flatten_cons, update_append h]

theorem foldl_work {blocks : List Nat} {f : State → Nat → State} {g : Work → Nat → Work}
    (h : ∀ i ∈ blocks, ∀ s, (f s i).work = g s.work i) (s : State) :
    (blocks.foldl f s).work = blocks.foldl g s.work := by
  induction blocks generalizing s with
  | nil => rfl
  | cons i blocks ih =>
      rw [List.foldl_cons, List.foldl_cons, ← h i (.head _),
        ih fun i' hi' => h i' (.tail _ hi')]

/-- A message of whole blocks after the padding is hashed as the standard says. -/
theorem hashValue_bits {message padded : List UInt8} (hpad : pad (bits message) = bits padded)
    {n : Nat} (hlength : padded.length = blockSize * n) :
    (padded.foldl absorbByte init).state.work = hashValue (bits message) := by
  have hblocks : (bits padded).length / 512 = n := by
    rw [bits_length, hlength]
    unfold blockSize
    omega
  have hblock : ∀ i < n, block (bits padded) i =
      bits ((padded.drop (blockSize * i)).take blockSize) := by
    intro i _
    rw [block, show 512 * i = 8 * (blockSize * i) by unfold blockSize; ring, bits_drop,
      ← bits_take _ blockSize]
    rfl
  rw [hashValue, hpad, hblocks, foldl_absorbByte_blocks hlength rfl, ← init_spec]
  refine foldl_work (fun i hi s => ?_) init.state
  have hi := List.mem_range.1 hi
  rw [hblock i hi]
  refine transform_spec ?_ s
  have hroom : blockSize * (i + 1) ≤ blockSize * n := Nat.mul_le_mul_left _ hi
  rw [Nat.mul_succ] at hroom
  rw [List.length_take, List.length_drop, hlength]
  omega

/--
The streaming digest of a message is its digest in the standard, however the
message is split into chunks.
-/
theorem sha256_streaming (message : List UInt8) (hmessage : message.length < 2 ^ 61)
    (chunks : List (List UInt8))
    (hsplit : chunks.flatten = message) :
    bits (final (chunks.foldl update init)) = sha256 (bits message) := by
  have hbuffer : (message.foldl absorbByte init).buffer.length = message.length % blockSize := by
    rw [foldl_absorbByte_buffer_length init_open]
    exact congrArg (· % blockSize) (Nat.zero_add _)
  have hpadded : ∃ n, (message ++ padding (message.length % blockSize)
      (UInt64.ofNat message.length)).length = blockSize * n := by
    refine ⟨message.length / 64 + 1 + (if 56 ≤ message.length % 64 then 1 else 0), ?_⟩
    simp only [padding, List.length_append, List.length_cons, List.length_replicate,
      lengthBytes_length, blockSize]
    split <;> omega
  obtain ⟨n, hlength⟩ := hpadded
  rw [foldl_update init_open, hsplit, final_eq (update_open init_open _),
    update_eq_foldl init_open]
  have htotal : init.totalLength + UInt64.ofNat message.length = UInt64.ofNat message.length :=
    UInt64.zero_add _
  dsimp only
  rw [hbuffer, htotal, foldl_absorbByte_totalLength, digestOf_bits, sha256,
    ← hashValue_bits (pad_bits hmessage) hlength, List.foldl_append]

/-- The message "abc" in three chunks, one of them empty. -/
theorem sha256_streaming_abc :
    bits (final ([[0x61], [], [0x62, 0x63]].foldl update init)) = sha256 (bits [0x61, 0x62, 0x63]) :=
  sha256_streaming [0x61, 0x62, 0x63] (by decide) [[0x61], [], [0x62, 0x63]] rfl

end Sha256

end SecureDeltaOta
