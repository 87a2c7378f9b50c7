import SecureDeltaOta.Crypto.EcdsaP256
import SecureDeltaOta.Shared.Sha256Standard
import SecureDeltaOta.Standard.Primality

/-!
# The arithmetic of 256-bit integers

The value of the limbs, and what the operations on limbs do to it: carries and
borrows leave exact sums and differences where the caller respects the bounds,
so addition, subtraction, multiplication by doubling and exponentiation are
those modulo the modulus.
-/

namespace SecureDeltaOta.EcdsaP256

namespace U256

/-! ## Values of limbs -/

/-- The number that limbs stand for, the least significant limb first. -/
def limbsValue : List UInt32 → Nat
  | [] => 0
  | limb :: limbs => limb.toNat + 2 ^ 32 * limbsValue limbs

def value (v : U256) : Nat := limbsValue v.limb

theorem limbsValue_lt (limbs : List UInt32) : limbsValue limbs < 2 ^ (32 * limbs.length) := by
  induction limbs with
  | nil => exact Nat.one_pos
  | cons limb limbs ih =>
      have hlimb := limb.toNat_lt
      rw [limbsValue, List.length_cons, Nat.mul_succ, Nat.pow_add]
      have hstep : 2 ^ 32 * (limbsValue limbs + 1) ≤ 2 ^ (32 * limbs.length) * 2 ^ 32 := by
        rw [Nat.mul_comm]
        exact Nat.mul_le_mul_right _ ih
      omega

theorem value_lt (v : U256) : v.value < 2 ^ 256 := by
  have h := limbsValue_lt v.limb
  rwa [v.limb_length] at h

theorem limbsValue_append (xs ys : List UInt32) :
    limbsValue (xs ++ ys) = limbsValue xs + 2 ^ (32 * xs.length) * limbsValue ys := by
  induction xs with
  | nil => simp [limbsValue]
  | cons x xs ih =>
      rw [List.cons_append, limbsValue, ih, limbsValue, List.length_cons, Nat.mul_succ, Nat.pow_add]
      ring

theorem limbsValue_replicate_zero (count : Nat) : limbsValue (List.replicate count 0) = 0 := by
  induction count with
  | zero => rfl
  | succ count ih => simp [List.replicate_succ, limbsValue, ih]

@[simp] theorem value_clear : clear.value = 0 := limbsValue_replicate_zero 8

@[simp] theorem value_one : one.value = 1 := by
  rw [value, one, limbsValue, limbsValue_replicate_zero]
  rfl

/-! ## Differences and sums -/

theorem flag_toNat (c : Bool) : (flag c).toNat = c.toNat := by
  cases c <;> rfl

theorem flag_or (c d : Bool) : flag c ||| flag d = flag (c || d) := by
  cases c <;> cases d <;> rfl

/-- One limb of a difference. -/
theorem subLimb (a b : UInt32) (borrow : Bool) :
    (a - b - flag borrow).toNat + b.toNat + borrow.toNat =
      a.toNat + 2 ^ 32 * (decide (a < b) || decide (a - b < flag borrow)).toNat := by
  have ha := a.toNat_lt
  have hb := b.toNat_lt
  have hflag := flag_toNat borrow
  have hborrow : borrow.toNat ≤ 1 := Bool.toNat_le borrow
  have hfirst : (a - b).toNat = (2 ^ 32 - b.toNat + a.toNat) % 2 ^ 32 := UInt32.toNat_sub a b
  simp only [UInt32.toNat_sub (a - b), UInt32.lt_iff_toNat_lt, hflag, hfirst]
  by_cases hlt : a.toNat < b.toNat
  · have hvalue : (2 ^ 32 - b.toNat + a.toNat) % 2 ^ 32 = 2 ^ 32 - b.toNat + a.toNat :=
      Nat.mod_eq_of_lt (by omega)
    rw [hvalue, decide_eq_true hlt, Bool.true_or, Bool.toNat_true]
    omega
  · have hvalue : (2 ^ 32 - b.toNat + a.toNat) % 2 ^ 32 = a.toNat - b.toNat := by omega
    rw [hvalue, decide_eq_false hlt, Bool.false_or]
    by_cases hunder : a.toNat - b.toNat < borrow.toNat
    · rw [decide_eq_true hunder, Bool.toNat_true]
      omega
    · rw [decide_eq_false hunder, Bool.toNat_false]
      omega

theorem subLimbs_value {left right : List UInt32} (h : left.length = right.length)
    (borrow : Bool) : ∃ out : Bool,
      limbsValue (subLimbs left right (flag borrow)) + limbsValue right + borrow.toNat =
        limbsValue left + 2 ^ (32 * left.length) * out.toNat := by
  induction left generalizing right borrow with
  | nil =>
      obtain rfl : right = [] := List.length_eq_zero_iff.1 h.symm
      exact ⟨borrow, by simp [subLimbs, limbsValue]⟩
  | cons a left ih =>
      cases right with
      | nil => cases h
      | cons b right =>
          have hlimb := subLimb a b borrow
          obtain ⟨out, hout⟩ := ih (Nat.succ.inj h) (decide (a < b) || decide (a - b < flag borrow))
          refine ⟨out, ?_⟩
          dsimp only [subLimbs]
          rw [flag_or, limbsValue, limbsValue, limbsValue, List.length_cons, Nat.mul_succ,
            Nat.pow_add]
          linear_combination hlimb + 2 ^ 32 * hout

/-- One limb of a sum. -/
theorem addLimb (a b : UInt32) (carry : Bool) :
    (a + b + flag carry).toNat +
        2 ^ 32 * (decide (a + b < a) || decide (a + b + flag carry < a + b)).toNat =
      a.toNat + b.toNat + carry.toNat := by
  have ha := a.toNat_lt
  have hb := b.toNat_lt
  have hcarry : carry.toNat ≤ 1 := Bool.toNat_le carry
  simp only [UInt32.lt_iff_toNat_lt, UInt32.toNat_add, flag_toNat]
  by_cases hover : a.toNat + b.toNat < 2 ^ 32
  · rw [Nat.mod_eq_of_lt hover, decide_eq_false (by omega), Bool.false_or]
    by_cases hover' : a.toNat + b.toNat + carry.toNat < 2 ^ 32
    · rw [Nat.mod_eq_of_lt hover', decide_eq_false (by omega), Bool.toNat_false]
      omega
    · rw [decide_eq_true (by omega), Bool.toNat_true]
      omega
  · have hvalue : (a.toNat + b.toNat) % 2 ^ 32 = a.toNat + b.toNat - 2 ^ 32 := by omega
    rw [hvalue, decide_eq_true (by omega), Bool.true_or, Bool.toNat_true, Nat.mod_eq_of_lt (by omega)]
    omega

theorem addLimbs_value {left right : List UInt32} (h : left.length = right.length)
    (carry : Bool) : ∃ out : Bool,
      limbsValue (addLimbs left right (flag carry)) + 2 ^ (32 * left.length) * out.toNat =
        limbsValue left + limbsValue right + carry.toNat := by
  induction left generalizing right carry with
  | nil =>
      obtain rfl : right = [] := List.length_eq_zero_iff.1 h.symm
      exact ⟨carry, by simp [addLimbs, limbsValue]⟩
  | cons a left ih =>
      cases right with
      | nil => cases h
      | cons b right =>
          have hlimb := addLimb a b carry
          obtain ⟨out, hout⟩ := ih (Nat.succ.inj h)
            (decide (a + b < a) || decide (a + b + flag carry < a + b))
          refine ⟨out, ?_⟩
          dsimp only [addLimbs]
          rw [flag_or, limbsValue, limbsValue, limbsValue, List.length_cons, Nat.mul_succ,
            Nat.pow_add]
          linear_combination hlimb + 2 ^ 32 * hout

theorem value_subRaw {left right : U256} (h : right.value ≤ left.value) :
    (subRaw left right).value = left.value - right.value := by
  obtain ⟨out, hout⟩ := subLimbs_value (left.limb_length.trans right.limb_length.symm) false
  have hlt : (subRaw left right).value < 2 ^ 256 := value_lt _
  have hsum : (subRaw left right).value + right.value + 0 = left.value + 2 ^ 256 * out.toNat := by
    rw [left.limb_length] at hout
    exact hout
  cases out with
  | false =>
      rw [Bool.toNat_false] at hsum
      omega
  | true =>
      rw [Bool.toNat_true] at hsum
      omega

theorem value_addRaw {left right : U256} (h : left.value + right.value < 2 ^ 256) :
    (addRaw left right).value = left.value + right.value := by
  obtain ⟨out, hout⟩ := addLimbs_value (left.limb_length.trans right.limb_length.symm) false
  have hsum : (addRaw left right).value + 2 ^ 256 * out.toNat = left.value + right.value + 0 := by
    rw [left.limb_length] at hout
    exact hout
  cases out with
  | false =>
      rw [Bool.toNat_false] at hsum
      omega
  | true =>
      rw [Bool.toNat_true] at hsum
      omega

theorem subSmallLimbs_value {limbs : List UInt32} {small : UInt32}
    (h : small.toNat ≤ limbsValue limbs) :
    limbsValue (subSmallLimbs limbs small) = limbsValue limbs - small.toNat := by
  induction limbs generalizing small with
  | nil =>
      rw [limbsValue] at h
      rw [subSmallLimbs, limbsValue]
      omega
  | cons current rest ih =>
      have hcurrent := current.toNat_lt
      have hsmall := small.toNat_lt
      rw [limbsValue] at h
      unfold subSmallLimbs
      dsimp only
      split
      · next hge =>
          rw [ge_iff_le, UInt32.le_iff_toNat_le] at hge
          rw [limbsValue, limbsValue, UInt32.toNat_sub_of_le _ _ hge]
          omega
      · next hlt =>
          rw [ge_iff_le, UInt32.le_iff_toNat_le] at hlt
          have hborrow : (1 : UInt32).toNat ≤ limbsValue rest := by
            rw [UInt32.toNat_one]
            omega
          rw [limbsValue, limbsValue, ih hborrow, UInt32.toNat_sub, UInt32.toNat_one,
            Nat.mod_eq_of_lt (by omega)]
          omega

theorem value_subSmall {v : U256} {small : UInt32} (h : small.toNat ≤ v.value) :
    (subSmall v small).value = v.value - small.toNat :=
  subSmallLimbs_value h

/-! ## Comparisons and bits -/

theorem compareLimbs_eq {left right : List UInt32} (h : left.length = right.length) :
    compareLimbs left right =
      Ord.compare (limbsValue left.reverse) (limbsValue right.reverse) := by
  induction left generalizing right with
  | nil =>
      obtain rfl : right = [] := List.length_eq_zero_iff.1 h.symm
      rfl
  | cons a left ih =>
      cases right with
      | nil => cases h
      | cons b right =>
          have hlength : left.length = right.length := Nat.succ.inj h
          have hleft := limbsValue_lt left.reverse
          have hright := limbsValue_lt right.reverse
          rw [List.length_reverse] at hleft hright
          rw [← hlength] at hright
          rw [List.reverse_cons, List.reverse_cons, limbsValue_append, limbsValue_append,
            List.length_reverse, List.length_reverse, ← hlength]
          simp only [limbsValue, Nat.mul_zero, Nat.add_zero]
          unfold compareLimbs
          rw [ih hlength, Nat.compare_eq_ite_lt, Nat.compare_eq_ite_lt]
          generalize limbsValue left.reverse = l at hleft ⊢
          generalize limbsValue right.reverse = r at hright ⊢
          generalize 2 ^ (32 * left.length) = base at hleft hright ⊢
          -- the most significant limb decides, unless it is the same in both
          rcases Nat.lt_trichotomy a.toNat b.toNat with hlt | heq | hgt
          · have hmul : base * (a.toNat + 1) ≤ base * b.toNat := Nat.mul_le_mul_left _ hlt
            rw [Nat.mul_succ] at hmul
            rw [if_neg (by rw [gt_iff_lt, UInt32.lt_iff_toNat_lt]; omega),
              if_pos (by rw [UInt32.lt_iff_toNat_lt]; exact hlt), if_pos (by omega)]
          · rw [UInt32.toNat_inj.1 heq, if_neg (UInt32.lt_irrefl b), if_neg (UInt32.lt_irrefl b)]
            simp only [Nat.add_lt_add_iff_right]
          · have hmul : base * (b.toNat + 1) ≤ base * a.toNat := Nat.mul_le_mul_left _ hgt
            rw [Nat.mul_succ] at hmul
            rw [if_pos (by rw [gt_iff_lt, UInt32.lt_iff_toNat_lt]; exact hgt), if_neg (by omega),
              if_pos (by omega)]

/-- The order of two numbers is that of their values. -/
theorem compare_eq (left right : U256) : compare left right = Ord.compare left.value right.value := by
  have h := compareLimbs_eq (show left.limb.reverse.length = right.limb.reverse.length by
    rw [List.length_reverse, List.length_reverse, left.limb_length, right.limb_length])
  rwa [List.reverse_reverse, List.reverse_reverse] at h

theorem compare_lt_iff {left right : U256} : compare left right = .lt ↔ left.value < right.value := by
  rw [compare_eq, compare_lt_iff_lt]

theorem compare_eq_iff {left right : U256} : compare left right = .eq ↔ left.value = right.value := by
  rw [compare_eq, compare_eq_iff_eq]

theorem foldl_or_eq_zero (limbs : List UInt32) (start : UInt32) :
    limbs.foldl (· ||| ·) start = 0 ↔ start = 0 ∧ limbsValue limbs = 0 := by
  induction limbs generalizing start with
  | nil => simp [limbsValue]
  | cons limb limbs ih =>
      rw [List.foldl_cons, ih, UInt32.or_eq_zero_iff, limbsValue]
      have hzero : limb = 0 ↔ limb.toNat = 0 := by
        rw [← UInt32.toNat_inj]
        rfl
      rw [hzero, and_assoc, Nat.add_eq_zero_iff, Nat.mul_eq_zero, or_iff_right (by decide)]

theorem isZero_iff {v : U256} : isZero v = true ↔ v.value = 0 := by
  rw [isZero, decide_eq_true_eq, foldl_or_eq_zero]
  exact and_iff_right rfl

theorem testBit_limbsValue (limbs : List UInt32) (i : Nat) :
    (limbsValue limbs).testBit i = (limbs.getD (i / 32) 0).toNat.testBit (i % 32) := by
  induction limbs generalizing i with
  | nil => simp [limbsValue]
  | cons limb limbs ih =>
      rw [limbsValue, Nat.add_comm, Nat.testBit_two_pow_mul_add _ limb.toNat_lt]
      by_cases h : i < 32
      · rw [if_pos h, Nat.div_eq_of_lt h, Nat.mod_eq_of_lt h]
        rfl
      · have hdiv : i / 32 = (i - 32) / 32 + 1 := by omega
        have hmod : i % 32 = (i - 32) % 32 := by omega
        rw [if_neg h, ih, hdiv, hmod, List.getD_cons_succ]

theorem getBit_eq (v : U256) (bit : Nat) : getBit v bit = v.value.testBit bit := by
  have hshift : (UInt32.ofNat (bit % 32)).toNat % 32 = bit % 32 := by
    rw [UInt32.toNat_ofNat_of_lt' (by omega : bit % 32 < 2 ^ 32), Nat.mod_mod]
  rw [value, testBit_limbsValue, getBit, Nat.testBit, bne, Bool.eq_iff_iff]
  simp only [decide_eq_true_eq, Bool.not_eq_true', beq_eq_false_iff_ne]
  rw [ne_eq, ← UInt32.toNat_inj, UInt32.toNat_and, UInt32.toNat_shiftRight, hshift, Nat.and_comm]
  rfl

/-! ## Big-endian bytes -/

/-- The number that bytes stand for, the most significant byte first. -/
def bigEndian (bytes : List UInt8) : Nat :=
  bytes.foldl (fun v byte => 256 * v + byte.toNat) 0

theorem bigEndian_take_word {bytes : List UInt8} {offset : Nat} (h : offset + 4 ≤ bytes.length) :
    bigEndian (bytes.take (offset + 4)) =
      2 ^ 32 * bigEndian (bytes.take offset) + (Sha256.loadBe32 bytes offset).toNat := by
  have hbyte {i : Nat} (hi : i < bytes.length) :
      bigEndian (bytes.take (i + 1)) =
        256 * bigEndian (bytes.take i) + (bytes.getD i 0).toNat := by
    rw [List.take_succ_eq_append_getElem hi, bigEndian, List.foldl_append,
      List.getD_eq_getElem bytes 0 hi]
    rfl
  rw [hbyte (by omega), hbyte (by omega), hbyte (by omega), hbyte (by omega),
    Sha256.loadBe32_toNat]
  ring

theorem value_fromBigEndian {bytes : List UInt8} (h : 32 ≤ bytes.length) :
    (fromBigEndian bytes).value = bigEndian (bytes.take 32) := by
  have hlimbs : (fromBigEndian bytes).limb = [Sha256.loadBe32 bytes 28, Sha256.loadBe32 bytes 24,
      Sha256.loadBe32 bytes 20, Sha256.loadBe32 bytes 16, Sha256.loadBe32 bytes 12,
      Sha256.loadBe32 bytes 8, Sha256.loadBe32 bytes 4, Sha256.loadBe32 bytes 0] := rfl
  have hword (offset : Nat) (hle : offset + 4 ≤ 32) :=
    bigEndian_take_word (show offset + 4 ≤ bytes.length by omega)
  rw [value, hlimbs]
  simp only [limbsValue]
  rw [hword 28 (by omega), hword 24 (by omega), hword 20 (by omega), hword 16 (by omega),
    hword 12 (by omega), hword 8 (by omega), hword 4 (by omega), hword 0 (by omega)]
  have hnil : bigEndian (bytes.take 0) = 0 := rfl
  rw [hnil]
  ring

end U256

/-! ## Modular arithmetic -/

open U256

section Modular

variable {left right modulus : U256}

theorem value_modAdd (hleft : left.value < modulus.value) (hright : right.value < modulus.value) :
    (modAdd left right modulus).value = (left.value + right.value) % modulus.value := by
  have hmodulus := modulus.value_lt
  have hthreshold : (subRaw modulus right).value = modulus.value - right.value :=
    value_subRaw hright.le
  unfold modAdd
  dsimp only
  split
  · next hge =>
      rw [ne_eq, compare_lt_iff, hthreshold] at hge
      rw [value_subRaw (by omega), hthreshold,
        Nat.mod_eq_sub_mod (by omega), Nat.mod_eq_of_lt (by omega)]
      omega
  · next hlt =>
      rw [not_not, compare_lt_iff, hthreshold] at hlt
      rw [value_addRaw (by omega), Nat.mod_eq_of_lt (by omega)]

theorem value_modSub (hleft : left.value < modulus.value) (hright : right.value < modulus.value) :
    (modSub left right modulus).value =
      (left.value + (modulus.value - right.value)) % modulus.value := by
  unfold modSub
  split
  · next hge =>
      rw [ne_eq, compare_lt_iff] at hge
      rw [value_subRaw (by omega), Nat.mod_eq_sub_mod (by omega), Nat.mod_eq_of_lt (by omega)]
      omega
  · next hlt =>
      rw [not_not, compare_lt_iff] at hlt
      have hdifference : (subRaw right left).value = right.value - left.value :=
        value_subRaw hlt.le
      rw [value_subRaw (by omega), hdifference, Nat.mod_eq_of_lt (by omega)]
      omega

/-- After `count` bits the accumulator holds the product with the low bits of the right operand,
and the left operand is doubled as often as the loop does. -/
theorem modMul_loop (hleft : left.value < modulus.value) (right : U256) {count : Nat}
    (hcount : count ≤ 256) :
    ((List.range count).foldl (modMulStep right modulus) (clear, left)).1.value =
        left.value * (right.value % 2 ^ count) % modulus.value ∧
      ((List.range count).foldl (modMulStep right modulus) (clear, left)).2.value =
        left.value * 2 ^ min count 255 % modulus.value := by
  have hpositive : 0 < modulus.value := by omega
  induction count with
  | zero =>
      constructor
      · simp [Nat.mod_one]
      · simp [Nat.mod_eq_of_lt hleft]
  | succ count ih =>
      obtain ⟨haccumulator, hdoubled⟩ := ih (by omega)
      rw [List.range_succ, List.foldl_append]
      generalize (List.range count).foldl (modMulStep right modulus) (clear, left) = state
        at haccumulator hdoubled ⊢
      have hsmall : state.1.value < modulus.value := haccumulator ▸ Nat.mod_lt _ hpositive
      have hsmall' : state.2.value < modulus.value := hdoubled ▸ Nat.mod_lt _ hpositive
      rw [Nat.min_eq_left (by omega)] at hdoubled
      dsimp only [List.foldl_cons, List.foldl_nil, modMulStep]
      constructor
      · rw [getBit_eq, Nat.mod_pow_succ, ← Nat.toNat_testBit]
        cases right.value.testBit count with
        | false => simp [haccumulator]
        | true =>
            rw [if_pos rfl, value_modAdd hsmall hsmall', haccumulator, hdoubled, ← Nat.add_mod,
              Bool.toNat_true, Nat.mul_one, Nat.mul_add]
      · split
        · next hmore =>
            rw [value_modAdd hsmall' hsmall', hdoubled, ← Nat.add_mod, Nat.min_eq_left (by omega),
              Nat.pow_succ]
            congr 1
            ring
        · next hlast =>
            rw [hdoubled, show min (count + 1) 255 = count by omega]

theorem value_modMul (hleft : left.value < modulus.value) (right : U256) :
    (modMul left right modulus).value = left.value * right.value % modulus.value := by
  have hloop := (modMul_loop hleft right le_rfl).1
  rwa [Nat.mod_eq_of_lt right.value_lt] at hloop

theorem modInverseStep_spec (left exponent : U256) {accumulator : U256}
    (haccumulator : accumulator.value < modulus.value) (bit : Nat) :
    (modInverseStep left exponent modulus accumulator bit).value < modulus.value ∧
      ((modInverseStep left exponent modulus accumulator bit).value : ZMod modulus.value) =
        Powers.powerStep (left.value : ZMod modulus.value) (accumulator.value : ZMod modulus.value)
          (exponent.value.testBit bit) := by
  have hpositive : 0 < modulus.value := Nat.zero_lt_of_lt haccumulator
  have hsquared : (modSquare accumulator modulus).value =
      accumulator.value * accumulator.value % modulus.value := by
    rw [modSquare, value_modMul haccumulator accumulator]
  have hsmall : (modSquare accumulator modulus).value < modulus.value := by
    rw [hsquared]
    exact Nat.mod_lt _ hpositive
  unfold modInverseStep Powers.powerStep
  dsimp only
  rw [getBit_eq]
  cases exponent.value.testBit bit with
  | false =>
      rw [if_neg Bool.false_ne_true, if_neg Bool.false_ne_true, hsquared, ZMod.natCast_mod,
        Nat.cast_mul]
      exact ⟨Nat.mod_lt _ hpositive, rfl⟩
  | true =>
      rw [if_pos rfl, if_pos rfl, value_modMul hsmall left, hsquared, ZMod.natCast_mod,
        Nat.cast_mul, ZMod.natCast_mod, Nat.cast_mul]
      exact ⟨Nat.mod_lt _ hpositive, rfl⟩

/-- The rounds over some bits of the exponent are those of a power by squaring. -/
theorem modInverse_loop (left exponent : U256) {accumulator : U256}
    (haccumulator : accumulator.value < modulus.value) (bits : List Nat) :
    (bits.foldl (modInverseStep left exponent modulus) accumulator).value < modulus.value ∧
      ((bits.foldl (modInverseStep left exponent modulus) accumulator).value : ZMod modulus.value) =
        (bits.map exponent.value.testBit).foldl (Powers.powerStep (left.value : ZMod modulus.value))
          (accumulator.value : ZMod modulus.value) := by
  induction bits generalizing accumulator with
  | nil => exact ⟨haccumulator, rfl⟩
  | cons bit bits ih =>
      obtain ⟨hsmall, hstep⟩ := modInverseStep_spec left exponent haccumulator bit
      rw [List.foldl_cons, List.map_cons, List.foldl_cons, ← hstep]
      exact ih hsmall

/-- The inverse modulo a prime, as the power with exponent `modulus - 2`. -/
theorem modInverse_spec (hprime : modulus.value.Prime) (hleft : left.value < modulus.value)
    (hzero : left.value ≠ 0) :
    ∃ inverse, modInverse left modulus = some inverse ∧ inverse.value < modulus.value ∧
      (left.value : ZMod modulus.value) * (inverse.value : ZMod modulus.value) = 1 := by
  have htwo := hprime.two_le
  have : Fact modulus.value.Prime := ⟨hprime⟩
  have hexponent : (subSmall modulus 2).value = modulus.value - 2 := value_subSmall htwo
  have hloop := modInverse_loop left (subSmall modulus 2)
    (show one.value < modulus.value by rw [value_one]; exact hprime.one_lt) (List.range 256).reverse
  have hne : (left.value : ZMod modulus.value) ≠ 0 := by
    rw [Ne, ZMod.natCast_eq_zero_iff]
    exact Nat.not_dvd_of_pos_of_lt (Nat.pos_of_ne_zero hzero) hleft
  have hpower := Powers.power_binary (left.value : ZMod modulus.value)
    (show modulus.value - 2 < 2 ^ 256 by have := modulus.value_lt; omega)
  rw [Powers.power, Powers.binary] at hpower
  rw [value_one, Nat.cast_one, hexponent, hpower] at hloop
  refine ⟨_, if_neg (by rw [isZero_iff]; exact hzero), hloop.1, ?_⟩
  rw [hloop.2]
  calc (left.value : ZMod modulus.value) * left.value ^ (modulus.value - 2)
      = left.value ^ (modulus.value - 1) := by
        rw [← pow_succ']
        congr 1
        omega
    _ = 1 := ZMod.pow_card_sub_one_eq_one hne

end Modular

end SecureDeltaOta.EcdsaP256
