import SecureDeltaOta.Crypto.EcdsaPoints

/-!
# Signature verification is exact

`EcdsaP256_VerifyDigest` accepts exactly the signatures of the ECDSA scheme: the
key is a point of the curve, the signature two numbers below the group order,
and the combination of the generator and the key has the first of them as its
abscissa.
-/

namespace SecureDeltaOta.EcdsaP256

open U256 JacobianCurve

/-! ## The scheme -/

/-- The key encodes the point: two reduced coordinates that satisfy the equation. -/
def EncodesKey (publicKey : List UInt8) (Q : Curve.Point) : Prop :=
  bigEndian (publicKey.take 32) < fieldPrime ∧ bigEndian (publicKey.drop 32) < fieldPrime ∧
    ∃ hcurve : OnCurve coefficient (bigEndian (publicKey.take 32) : ZMod fieldPrime)
        (bigEndian (publicKey.drop 32) : ZMod fieldPrime),
      Q = curvePoint _ _ hcurve

/-- The signature `(r, s)` of the message representative `z` under the key `Q`; `w` is the inverse
of `s` modulo the group order. -/
def Verifies (Q : Curve.Point) (z r s : Nat) : Prop :=
  (1 ≤ r ∧ r < groupOrder) ∧ (1 ≤ s ∧ s < groupOrder) ∧
    ∃ w < groupOrder, s * w % groupOrder = 1 ∧
      ∃ x y h, (z * w % groupOrder) • generatorPoint + (r * w % groupOrder) • Q = .some x y h ∧
        x.val % groupOrder = r

/-! ## The steps of the code -/

theorem pointIsOnCurve_iff {q : AffinePoint} : pointIsOnCurve q = true ↔
    q.x.value < fieldPrime ∧ q.y.value < fieldPrime ∧
      (q.y.value : ZMod fieldPrime) ^ 2 =
        (q.x.value : ZMod fieldPrime) ^ 3 - 3 * (q.x.value : ZMod fieldPrime) + coefficient := by
  unfold pointIsOnCurve
  by_cases hrange : q.x.value < fieldPrime ∧ q.y.value < fieldPrime
  swap
  · rw [if_pos (by rw [ne_eq, ne_eq, compare_lt_iff, compare_lt_iff, p_value]; tauto)]
    exact ⟨fun h => absurd h Bool.false_ne_true, fun h => absurd ⟨h.1, h.2.1⟩ hrange⟩
  rw [if_neg (by rw [ne_eq, ne_eq, compare_lt_iff, compare_lt_iff, p_value]; tauto)]
  have hx := Holds.ofReduced hrange.1
  have hy := Holds.ofReduced hrange.2
  by_cases hzero : (isZero q.x && isZero q.y) = true
  · -- the origin is not on the curve
    rw [if_pos hzero]
    rw [Bool.and_eq_true, hx.isZero_iff, hy.isZero_iff] at hzero
    refine ⟨fun h => absurd h Bool.false_ne_true, fun h => absurd h.2.2 ?_⟩
    rw [hzero.1, hzero.2]
    intro horigin
    exact coefficient_ne_zero (by linear_combination -horigin)
  rw [if_neg hzero]
  have hleft := hy.square
  have hright := (((hx.square.mul hx).sub hx.triple).add b_holds)
  dsimp only
  rw [decide_eq_true_eq, compare_eq_iff, ← hleft.val_eq, ← hright.val_eq,
    (ZMod.val_injective fieldPrime).eq_iff]
  constructor
  · intro h
    exact ⟨hrange.1, hrange.2, by linear_combination h⟩
  · intro h
    linear_combination h.2.2

theorem value_reduceOrder {v : U256} (h : v.value < 2 * groupOrder) :
    (reduceOrder v).value = v.value % groupOrder := by
  unfold reduceOrder
  split
  · next hge =>
      rw [ne_eq, compare_lt_iff, n_value] at hge
      rw [value_subRaw (by rw [n_value]; omega), n_value, Nat.mod_eq_sub_mod (by omega),
        Nat.mod_eq_of_lt (by omega)]
  · next hlt =>
      rw [not_not, compare_lt_iff, n_value] at hlt
      rw [Nat.mod_eq_of_lt hlt]

theorem groupOrder_lt : groupOrder < 2 ^ 256 := by
  norm_num [groupOrder]

theorem groupOrder_bounds : 2 ^ 256 ≤ 2 * groupOrder ∧ fieldPrime ≤ 2 * groupOrder := by
  norm_num [groupOrder, fieldPrime]

/-- The inverse modulo the group order. -/
theorem modInverse_order {s : U256} (hpositive : s.value ≠ 0) (hlt : s.value < groupOrder) :
    ∃ w, modInverse s n = some w ∧ w.value < groupOrder ∧ s.value * w.value % groupOrder = 1 := by
  have hprime : n.value.Prime := by
    rw [n_value]
    exact groupOrder_prime
  obtain ⟨w, hw, hwlt, hproduct⟩ := modInverse_spec hprime (by rw [n_value]; exact hlt) hpositive
  rw [n_value] at hwlt hproduct
  refine ⟨w, hw, hwlt, ?_⟩
  have hone : ((s.value * w.value : Nat) : ZMod groupOrder) = ((1 : Nat) : ZMod groupOrder) := by
    rw [Nat.cast_mul, Nat.cast_one, hproduct]
  rw [ZMod.natCast_eq_natCast_iff, Nat.ModEq, Nat.mod_eq_of_lt groupOrder_prime.one_lt] at hone
  exact hone

/-- The inverse is unique below the group order. -/
theorem inverse_unique {s v w : Nat} (hv : v < groupOrder) (hw : w < groupOrder)
    (hsv : s * v % groupOrder = 1) (hsw : s * w % groupOrder = 1) : v = w := by
  have hproduct : (s : ZMod groupOrder) * (v : ZMod groupOrder) =
      (s : ZMod groupOrder) * (w : ZMod groupOrder) := by
    rw [← Nat.cast_mul, ← Nat.cast_mul, ZMod.natCast_eq_natCast_iff]
    exact hsv.trans hsw.symm
  have hne : (s : ZMod groupOrder) ≠ 0 := by
    intro hzero
    rw [ZMod.natCast_eq_zero_iff] at hzero
    rw [Nat.mod_eq_zero_of_dvd (Dvd.dvd.mul_right hzero v)] at hsv
    cases hsv
  have hcancel := mul_left_cancel₀ hne hproduct
  rw [ZMod.natCast_eq_natCast_iff, Nat.ModEq, Nat.mod_eq_of_lt hv, Nat.mod_eq_of_lt hw] at hcancel
  exact hcancel

/-! ## Verification -/

/-- The last part of the verification, for a key on the curve and numbers in range. -/
theorem verify_combination {qx qy : U256} (hx : qx.value < fieldPrime)
    (hy : qy.value < fieldPrime)
    (hcurve : (qy.value : ZMod fieldPrime) ^ 2 =
      (qx.value : ZMod fieldPrime) ^ 3 - 3 * (qx.value : ZMod fieldPrime) + coefficient)
    {u₁ u₂ r : U256} :
    (∃ v, pointAffineX (pointLinearCombination u₁ u₂ ⟨qx, qy⟩) = some v ∧
        compare (reduceOrder v) r = .eq) ↔
      ∃ x y h, u₁.value • generatorPoint + u₂.value • curvePoint _ _ hcurve = .some x y h ∧
        x.val % groupOrder = r.value := by
  obtain ⟨-, hrepresents⟩ := pointLinearCombination_represents u₁ u₂ (q := ⟨qx, qy⟩) hx hy hcurve
  generalize u₁.value • generatorPoint + u₂.value • curvePoint _ _ hcurve = P at hrepresents ⊢
  cases P with
  | zero =>
      rw [pointAffineX_zero hrepresents]
      constructor
      · rintro ⟨v, hv, -⟩
        cases hv
      · rintro ⟨x, y, h, hP, -⟩
        cases hP
  | some x y h =>
      obtain ⟨v, hv, hholds⟩ := pointAffineX_some hrepresents
      have hreduced : (reduceOrder v).value = x.val % groupOrder := by
        rw [value_reduceOrder (hholds.reduced.trans_le groupOrder_bounds.2), hholds.val_eq]
      rw [hv]
      constructor
      · rintro ⟨v', hv', hequal⟩
        cases hv'
        rw [compare_eq_iff, hreduced] at hequal
        exact ⟨x, y, h, rfl, hequal⟩
      · rintro ⟨x', y', h', hP, hequal⟩
        cases hP
        refine ⟨v, rfl, ?_⟩
        rw [compare_eq_iff, hreduced, hequal]

/-- What the code computes once its arguments are parsed. -/
theorem verifyDigest_valid_iff {publicKey digest signature : List UInt8} :
    verifyDigest publicKey digest signature = .valid ↔
      let q : AffinePoint := ⟨fromBigEndian publicKey, fromBigEndian (publicKey.drop 32)⟩
      let r := fromBigEndian signature
      let s := fromBigEndian (signature.drop 32)
      pointIsOnCurve q = true ∧ r.value ≠ 0 ∧ s.value ≠ 0 ∧ r.value < groupOrder ∧
        s.value < groupOrder ∧ ∃ w, modInverse s n = some w ∧
          ∃ v, pointAffineX (pointLinearCombination
            (modMul (reduceOrder (fromBigEndian digest)) w n) (modMul r w n) q) = some v ∧
            compare (reduceOrder v) r = .eq := by
  unfold verifyDigest
  dsimp only
  generalize (⟨fromBigEndian publicKey, fromBigEndian (publicKey.drop 32)⟩ : AffinePoint) = q
  generalize fromBigEndian signature = r
  generalize fromBigEndian (signature.drop 32) = s
  have hrefused : (isZero r || isZero s || compare r n ≠ .lt || compare s n ≠ .lt) = true ↔
      ¬ (r.value ≠ 0 ∧ s.value ≠ 0 ∧ r.value < groupOrder ∧ s.value < groupOrder) := by
    simp only [Bool.or_eq_true, decide_eq_true_eq, isZero_iff, ne_eq, compare_lt_iff, n_value]
    tauto
  by_cases hcurve : pointIsOnCurve q = true
  swap
  · rw [if_pos (by simpa using hcurve)]
    exact ⟨(nomatch ·), fun h => absurd h.1 hcurve⟩
  rw [if_neg (by simpa using hcurve)]
  by_cases hbounds : r.value ≠ 0 ∧ s.value ≠ 0 ∧ r.value < groupOrder ∧ s.value < groupOrder
  swap
  · rw [if_pos (hrefused.2 hbounds)]
    exact ⟨(nomatch ·), fun h => absurd ⟨h.2.1, h.2.2.1, h.2.2.2.1, h.2.2.2.2.1⟩ hbounds⟩
  rw [if_neg (fun hbits => hrefused.1 hbits hbounds)]
  obtain ⟨w, hw, -⟩ := modInverse_order hbounds.2.1 hbounds.2.2.2
  simp only [hw, Option.some.injEq, exists_eq_left', hcurve, true_and]
  cases pointAffineX (pointLinearCombination
      (modMul (reduceOrder (fromBigEndian digest)) w n) (modMul r w n) q) with
  | none => simp
  | some v => simp [hbounds]

/-- The scalar of the generator does not depend on whether the representative is reduced first. -/
theorem value_modMul_reduceOrder (z w : U256) :
    (modMul (reduceOrder z) w n).value = z.value * w.value % groupOrder := by
  have hreduced : (reduceOrder z).value = z.value % groupOrder :=
    value_reduceOrder (z.value_lt.trans_le groupOrder_bounds.1)
  have hlt : (reduceOrder z).value < n.value := by
    rw [hreduced, n_value]
    exact Nat.mod_lt _ groupOrder_prime.pos
  rw [value_modMul hlt, hreduced, n_value, Nat.mod_mul_mod]

/-! ## Signatures that come with their inverses -/

/--
A signature checked by evaluation: the inverse of `s` and the inverse of the denominator are given
with it.
-/
def checkWith (publicKey digest signature : List UInt8) (w : Nat) (i : ZMod fieldPrime) : Bool :=
  let x : ZMod fieldPrime := bigEndian (publicKey.take 32)
  let y : ZMod fieldPrime := bigEndian (publicKey.drop 32)
  let r := bigEndian (signature.take 32)
  let s := bigEndian (signature.drop 32)
  let t := combine generatorPair (x, y)
    (scalarBits (bigEndian digest * w % groupOrder) (r * w % groupOrder))
  decide (bigEndian (publicKey.take 32) < fieldPrime ∧
    bigEndian (publicKey.drop 32) < fieldPrime ∧ OnCurve coefficient x y) &&
  decide ((1 ≤ r ∧ r < groupOrder) ∧ (1 ≤ s ∧ s < groupOrder) ∧ w < groupOrder ∧
    s * w % groupOrder = 1) &&
  decide (t.z * i = 1 ∧ (t.x * (i * i)).val % groupOrder = r)

theorem verifies_of_checkWith {publicKey digest signature : List UInt8} {w : Nat}
    {i : ZMod fieldPrime} (h : checkWith publicKey digest signature w i = true) :
    ∃ Q, EncodesKey publicKey Q ∧ Verifies Q (bigEndian digest) (bigEndian (signature.take 32))
      (bigEndian (signature.drop 32)) := by
  unfold checkWith at h
  dsimp only at h
  rw [Bool.and_eq_true, Bool.and_eq_true, decide_eq_true_eq, decide_eq_true_eq,
    decide_eq_true_eq] at h
  obtain ⟨⟨⟨hx, hy, hcurve⟩, hr, hs, hw, hinverse⟩, hdenominator, habscissa⟩ := h
  have hscalar (v : Nat) : v % groupOrder < 2 ^ 256 :=
    (Nat.mod_lt _ groupOrder_prime.pos).trans groupOrder_lt
  have hrepresents := represents_scalarBits hcurve
    (hscalar (bigEndian digest * w)) (hscalar (bigEndian (signature.take 32) * w))
  refine ⟨curvePoint _ _ hcurve, ⟨hx, hy, hcurve, rfl⟩, hr, hs, w, hw, hinverse, ?_⟩
  obtain ⟨x, y, hxy, hpoint, habs⟩ := hrepresents.abscissa hdenominator
  exact ⟨x, y, hxy, hpoint, by rw [habs, habscissa]⟩

theorem value_fromBigEndian_tail {bytes : List UInt8} (h : bytes.length = 64) :
    (fromBigEndian (bytes.drop 32)).value = bigEndian (bytes.drop 32) := by
  rw [value_fromBigEndian (by rw [List.length_drop]; omega),
    List.take_of_length_le (by rw [List.length_drop]; omega)]

theorem value_fromBigEndian_word {bytes : List UInt8} (h : bytes.length = 32) :
    (fromBigEndian bytes).value = bigEndian bytes := by
  rw [value_fromBigEndian (by omega), List.take_of_length_le (by omega)]

section Exact

variable {publicKey digest signature : List UInt8}

theorem verifies_of_valid (hkey : publicKey.length = 64) (hdigest : digest.length = 32)
    (hsignature : signature.length = 64)
    (h : verifyDigest publicKey digest signature = .valid) :
    ∃ Q, EncodesKey publicKey Q ∧ Verifies Q (bigEndian digest) (bigEndian (signature.take 32))
      (bigEndian (signature.drop 32)) := by
  rw [verifyDigest_valid_iff] at h
  dsimp only at h
  rw [pointIsOnCurve_iff] at h
  unfold EncodesKey Verifies
  rw [← value_fromBigEndian (by omega : 32 ≤ publicKey.length), ← value_fromBigEndian_tail hkey,
    ← value_fromBigEndian (by omega : 32 ≤ signature.length),
    ← value_fromBigEndian_tail hsignature, ← value_fromBigEndian_word hdigest]
  obtain ⟨⟨hxlt, hylt, hcurve⟩, hrpos, hspos, hrlt, hslt, w, hw, hcombination⟩ := h
  obtain ⟨w', hw', hwlt, hinverse⟩ := modInverse_order hspos hslt
  cases hw.symm.trans hw'
  rw [verify_combination hxlt hylt hcurve, value_modMul_reduceOrder,
    value_modMul (by rw [n_value]; exact hrlt), n_value] at hcombination
  exact ⟨_, ⟨hxlt, hylt, hcurve, rfl⟩, ⟨Nat.one_le_iff_ne_zero.2 hrpos, hrlt⟩,
    ⟨Nat.one_le_iff_ne_zero.2 hspos, hslt⟩, w.value, hwlt, hinverse, hcombination⟩

theorem valid_of_verifies (hkey : publicKey.length = 64) (hdigest : digest.length = 32)
    (hsignature : signature.length = 64)
    (h : ∃ Q, EncodesKey publicKey Q ∧ Verifies Q (bigEndian digest)
      (bigEndian (signature.take 32)) (bigEndian (signature.drop 32))) :
    verifyDigest publicKey digest signature = .valid := by
  unfold EncodesKey Verifies at h
  rw [← value_fromBigEndian (by omega : 32 ≤ publicKey.length), ← value_fromBigEndian_tail hkey,
    ← value_fromBigEndian (by omega : 32 ≤ signature.length),
    ← value_fromBigEndian_tail hsignature, ← value_fromBigEndian_word hdigest] at h
  rw [verifyDigest_valid_iff]
  dsimp only
  rw [pointIsOnCurve_iff]
  obtain ⟨Q, ⟨hxlt, hylt, hcurve, hQ⟩, hrrange, hsrange, v, hv, hsv, hcombination⟩ := h
  obtain ⟨w, hw, hwlt, hinverse⟩ := modInverse_order (by omega) hsrange.2
  rw [inverse_unique hv hwlt hsv hinverse, hQ] at hcombination
  refine ⟨⟨hxlt, hylt, hcurve⟩, by omega, by omega, hrrange.2, hsrange.2, w, hw, ?_⟩
  rw [verify_combination hxlt hylt hcurve, value_modMul_reduceOrder,
    value_modMul (by rw [n_value]; exact hrrange.2), n_value]
  exact hcombination

end Exact

/--
Verification is exact: `EcdsaP256_VerifyDigest` answers valid if and only if the key encodes a
point of the curve and the signature verifies under it, for the digest read big-endian.
-/
theorem verifyDigest_exact (publicKey digest signature : List UInt8)
    (hkey : publicKey.length = 64) (hdigest : digest.length = 32)
    (hsignature : signature.length = 64) :
    verifyDigest publicKey digest signature = .valid ↔
      ∃ Q, EncodesKey publicKey Q ∧
        Verifies Q (bigEndian digest) (bigEndian (signature.take 32))
          (bigEndian (signature.drop 32)) :=
  ⟨verifies_of_valid hkey hdigest hsignature, valid_of_verifies hkey hdigest hsignature⟩

/-- The coordinates of the generator, as a public key. -/
def generatorKey : List UInt8 := [
  107, 23, 209, 242, 225, 44, 66, 71, 248, 188, 230, 229, 99, 164, 64, 242, 119, 3, 125, 129, 45,
  235, 51, 160, 244, 161, 57, 69, 216, 152, 194, 150, 79, 227, 66, 226, 254, 26, 127, 155, 142,
  231, 235, 74, 124, 15, 158, 22, 43, 206, 51, 87, 107, 49, 94, 206, 203, 182, 64, 104, 55, 191,
  81, 245]

/-- With the generator as the key and the digest zero, the abscissa of the generator twice is a
signature. -/
theorem verifyDigest_exact_generator :
    verifyDigest generatorKey (List.replicate 32 0)
      (generatorKey.take 32 ++ generatorKey.take 32) = .valid := by
  refine (verifyDigest_exact _ _ _ (by decide) (by decide) (by decide)).2
    (verifies_of_checkWith (i := 1) (w :=
      33721569520402456289367529045694162334902731715375022578928925136990816427411) ?_)
  decide +kernel

end SecureDeltaOta.EcdsaP256
