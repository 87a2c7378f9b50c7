import SecureDeltaOta.Crypto.U256Arithmetic
import SecureDeltaOta.Standard.JacobianCurve

/-!
# The field and the curve P-256

The moduli of the signature scheme are prime. A reduced 256-bit integer holds an
element of the field, and a Jacobian point of the code holds a triple; the
operations of the code are those of the field and of the curve.
-/

namespace SecureDeltaOta.EcdsaP256

open U256 JacobianCurve

/-! ## The primes -/

@[irreducible] def fieldPrime : Nat := 0xFFFFFFFF00000001000000000000000000000000FFFFFFFFFFFFFFFFFFFFFFFF

@[irreducible] def groupOrder : Nat := 0xFFFFFFFF00000000FFFFFFFFFFFFFFFFBCE6FAADA7179E84F3B9CAC2FC632551

theorem p_value : p.value = fieldPrime := by decide +kernel

theorem n_value : n.value = groupOrder := by decide +kernel

/-- The primes that trial division finds. -/
def smallPrimes : List Nat :=
  [2, 3, 5, 7, 11, 17, 23, 29, 41, 43, 53, 71, 107, 127, 131, 173, 197, 257, 311, 373, 641, 1297,
    1531, 2411, 3023, 3407, 3677, 3769, 16879, 17449, 18169, 38189, 65537, 78283, 126241, 155317,
    490463, 704251, 3969899, 6700417, 9350987]

theorem prime_of_mem_smallPrimes : ∀ q ∈ smallPrimes, q.Prime := by
  simp only [smallPrimes, List.forall_mem_cons]
  norm_num

def certificates : List Primality.Certificate :=
  [⟨204061199, 11, [2, 11, 23, 107, 3769]⟩,
    ⟨34282281433, 17, [2, 2, 2, 3, 7, 204061199]⟩,
    ⟨66417393611, 6, [2, 5, 53, 173, 197, 3677]⟩,
    ⟨11290956913871, 13, [2, 5, 17, 66417393611]⟩,
    ⟨46076956964474543, 5, [2, 23, 18169, 78283, 704251]⟩,
    ⟨774023187263532362759620327192479577272145303, 3,
      [2, 3, 3, 2411, 34282281433, 11290956913871, 46076956964474543]⟩,
    ⟨835945042244614951780389953367877943453916927241, 11,
      [2, 2, 2, 3, 3, 3, 5, 774023187263532362759620327192479577272145303]⟩,
    ⟨fieldPrime, 6, [2, 3, 5, 5, 17, 257, 641, 1531, 65537, 490463, 6700417,
      835945042244614951780389953367877943453916927241]⟩,
    ⟨187019741, 2, [2, 2, 5, 9350987]⟩,
    ⟨311245691, 2, [2, 5, 7, 17, 29, 29, 311]⟩,
    ⟨622491383, 5, [2, 311245691]⟩,
    ⟨1002328039319, 19, [2, 126241, 3969899]⟩,
    ⟨191039911, 3, [2, 3, 5, 41, 155317]⟩,
    ⟨208150935158385979, 2, [2, 3, 11, 43, 127, 3023, 191039911]⟩,
    ⟨2624747550333869278416773953, 7, [2, 2, 2, 2, 2, 2, 3, 3, 1297, 16879, 208150935158385979]⟩,
    ⟨groupOrder, 7, [2, 2, 2, 2, 3, 71, 131, 373, 3407, 17449, 38189, 187019741, 622491383,
      1002328039319, 2624747550333869278416773953]⟩]

theorem certificates_check : Primality.check smallPrimes certificates = true := by
  decide +kernel

theorem fieldPrime_prime : fieldPrime.Prime :=
  Primality.prime_of_check prime_of_mem_smallPrimes certificates_check _
    (show certificates[7] ∈ certificates from List.getElem_mem _)

theorem groupOrder_prime : groupOrder.Prime :=
  Primality.prime_of_check prime_of_mem_smallPrimes certificates_check _
    (show certificates[15] ∈ certificates from List.getElem_mem _)

instance : Fact fieldPrime.Prime := ⟨fieldPrime_prime⟩

instance : Fact groupOrder.Prime := ⟨groupOrder_prime⟩

/-! ## Elements of the field -/

/-- The integer is reduced and stands for the element. -/
structure Holds (v : U256) (x : ZMod fieldPrime) : Prop where
  reduced : v.value < fieldPrime
  cast : (v.value : ZMod fieldPrime) = x

section Field

variable {v w : U256} {x y : ZMod fieldPrime}

theorem holds_of_value {k : Nat} (h : v.value = k % fieldPrime) : Holds v (k : ZMod fieldPrime) where
  reduced := by
    rw [h]
    exact Nat.mod_lt _ fieldPrime_prime.pos
  cast := by rw [h, ZMod.natCast_mod]

theorem Holds.ofReduced (h : v.value < fieldPrime) : Holds v (v.value : ZMod fieldPrime) := ⟨h, rfl⟩

theorem Holds.val_eq (h : Holds v x) : x.val = v.value := by
  rw [← h.cast, ZMod.val_natCast_of_lt h.reduced]

theorem Holds.isZero_iff (h : Holds v x) : isZero v = true ↔ x = 0 := by
  rw [U256.isZero_iff, ← h.val_eq, ZMod.val_eq_zero]

theorem Holds.below (h : Holds v x) : v.value < p.value := by
  rw [p_value]
  exact h.reduced

theorem Holds.add (hv : Holds v x) (hw : Holds w y) : Holds (modAdd v w p) (x + y) := by
  have hvalue := value_modAdd hv.below hw.below
  rw [p_value] at hvalue
  have hsum := holds_of_value hvalue
  rwa [Nat.cast_add, hv.cast, hw.cast] at hsum

theorem Holds.sub (hv : Holds v x) (hw : Holds w y) : Holds (modSub v w p) (x - y) := by
  have hvalue := value_modSub hv.below hw.below
  rw [p_value] at hvalue
  have hdifference := holds_of_value hvalue
  rwa [Nat.cast_add, Nat.cast_sub hw.reduced.le, ZMod.natCast_self, hv.cast, hw.cast, zero_sub,
    ← sub_eq_add_neg] at hdifference

theorem Holds.mul (hv : Holds v x) (hw : Holds w y) : Holds (modMul v w p) (x * y) := by
  have hvalue := value_modMul hv.below w
  rw [p_value] at hvalue
  have hproduct := holds_of_value hvalue
  rwa [Nat.cast_mul, hv.cast, hw.cast] at hproduct

theorem Holds.square (hv : Holds v x) : Holds (modSquare v p) (x * x) := hv.mul hv

theorem Holds.double (hv : Holds v x) : Holds (modDouble v p) (2 * x) := by
  rw [two_mul]
  exact hv.add hv

theorem Holds.triple (hv : Holds v x) : Holds (modTriple v p) (3 * x) := by
  have h := hv.double.add hv
  rwa [show 2 * x + x = 3 * x by ring] at h

theorem Holds.times4 (hv : Holds v x) : Holds (modTimes4 v p) (4 * x) := by
  have h := hv.double.double
  rwa [show 2 * (2 * x) = 4 * x by ring] at h

theorem Holds.times8 (hv : Holds v x) : Holds (modTimes8 v p) (8 * x) := by
  have h := hv.times4.double
  rwa [show 2 * (4 * x) = 8 * x by ring] at h

theorem Holds.inverse (hv : Holds v x) (hx : x ≠ 0) :
    ∃ inverse, modInverse v p = some inverse ∧ Holds inverse x⁻¹ := by
  have hprime : p.value.Prime := by
    rw [p_value]
    exact fieldPrime_prime
  have hne : v.value ≠ 0 := by
    rw [← hv.val_eq]
    exact fun hzero => hx ((ZMod.val_eq_zero x).1 hzero)
  obtain ⟨inverse, hinverse, hreduced, hproduct⟩ := modInverse_spec hprime hv.below hne
  rw [p_value] at hreduced hproduct
  rw [hv.cast] at hproduct
  exact ⟨inverse, hinverse, hreduced, eq_inv_of_mul_eq_one_right hproduct⟩

theorem holds_zero : Holds clear 0 where
  reduced := by
    rw [value_clear]
    exact fieldPrime_prime.pos
  cast := by rw [value_clear, Nat.cast_zero]

theorem holds_one : Holds one 1 where
  reduced := by
    rw [value_one]
    exact fieldPrime_prime.one_lt
  cast := by rw [value_one, Nat.cast_one]

end Field

/-! ## Points -/

/-- The coordinates are reduced and stand for the triple. -/
structure PointHolds (point : JacobianPoint) (t : Triple (ZMod fieldPrime)) : Prop where
  x : Holds point.x t.x
  y : Holds point.y t.y
  z : Holds point.z t.z

/-- The coordinates are reduced and stand for the pair. -/
structure AffineHolds (affine : AffinePoint) (q : ZMod fieldPrime × ZMod fieldPrime) : Prop where
  x : Holds affine.x q.1
  y : Holds affine.y q.2

section Points

variable {point : JacobianPoint} {affine : AffinePoint} {t : Triple (ZMod fieldPrime)}
  {q : ZMod fieldPrime × ZMod fieldPrime}

theorem pointHolds_mk {x y z : U256} {a b c : ZMod fieldPrime} (hx : Holds x a) (hy : Holds y b)
    (hz : Holds z c) : PointHolds ⟨x, y, z⟩ ⟨a, b, c⟩ :=
  ⟨hx, hy, hz⟩

theorem pointInfinity_holds : PointHolds pointInfinity infinity :=
  ⟨holds_zero, holds_zero, holds_zero⟩

theorem PointHolds.isInfinity_iff (h : PointHolds point t) :
    pointIsInfinity point = true ↔ t.z = 0 :=
  h.z.isZero_iff

theorem PointHolds.double (h : PointHolds point t) : PointHolds (pointDouble point) (double t) := by
  unfold pointDouble JacobianCurve.double
  by_cases hzero : t.z = 0 ∨ t.y = 0
  · rw [if_pos hzero, if_pos (by rw [Bool.or_eq_true, h.isInfinity_iff, h.y.isZero_iff]; exact hzero)]
    exact pointInfinity_holds
  · rw [if_neg hzero, if_neg (by rw [Bool.or_eq_true, h.isInfinity_iff, h.y.isZero_iff]; exact hzero)]
    have hdelta := h.z.square
    have hgamma := h.y.square
    have hbeta := h.x.mul hgamma
    have halpha := ((h.x.sub hdelta).mul (h.x.add hdelta)).triple
    have hx₃ := halpha.square.sub hbeta.times8
    have hy₃ := (halpha.mul (hbeta.times4.sub hx₃)).sub hgamma.square.times8
    have hz₃ := ((h.y.add h.z).square.sub hgamma).sub hdelta
    dsimp only
    exact pointHolds_mk hx₃ hy₃ hz₃

theorem PointHolds.addAffine (h : PointHolds point t) (hq : AffineHolds affine q) :
    PointHolds (pointAddAffine point affine) (addAffine t q.1 q.2) := by
  unfold pointAddAffine JacobianCurve.addAffine
  by_cases hinfinity : t.z = 0
  · rw [if_pos hinfinity, if_pos (h.isInfinity_iff.2 hinfinity)]
    exact ⟨hq.x, hq.y, holds_one⟩
  · rw [if_neg hinfinity, if_neg (fun hz => hinfinity (h.isInfinity_iff.1 hz))]
    have hzz := h.z.square
    have hh := (hq.x.mul hzz).sub h.x
    have hr := (hq.y.mul (h.z.mul hzz)).sub h.y
    dsimp only
    by_cases hzero : q.1 * (t.z * t.z) - t.x = 0
    · rw [if_pos hzero, if_pos (hh.isZero_iff.2 hzero)]
      by_cases hsame : q.2 * (t.z * (t.z * t.z)) - t.y = 0
      · rw [if_pos hsame, if_pos (hr.isZero_iff.2 hsame)]
        exact h.double
      · rw [if_neg hsame, if_neg (fun hbit => hsame (hr.isZero_iff.1 hbit))]
        exact pointInfinity_holds
    · rw [if_neg hzero, if_neg (fun hbit => hzero (hh.isZero_iff.1 hbit))]
      have hhh := hh.square
      have hi := hhh.times4
      have hj := hh.mul hi
      have hv := h.x.mul hi
      have hx₃ := (hr.double.square.sub hj).sub hv.double
      have hy₃ := (hr.double.mul (hv.sub hx₃)).sub (h.y.mul hj).double
      have hz₃ := ((h.z.add hh).square.sub hzz).sub hhh
      exact pointHolds_mk hx₃ hy₃ hz₃

end Points

end SecureDeltaOta.EcdsaP256
