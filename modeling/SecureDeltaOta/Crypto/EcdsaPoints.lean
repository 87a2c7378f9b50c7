import SecureDeltaOta.Crypto.P256Field

/-!
# The point formulas implement the curve group

A Jacobian point of the code represents a point of the curve. Doubling, the
addition of an affine point, the linear combination and the affine abscissa are
those of the group, for infinity, equal, opposite and two-torsion points too.
-/

namespace SecureDeltaOta.EcdsaP256

open U256 JacobianCurve

/-! ## The curve -/

/-- The coefficient `b` as an element of the field. -/
def coefficient : ZMod fieldPrime := (b.value : ZMod fieldPrime)

abbrev Curve : WeierstrassCurve.Affine (ZMod fieldPrime) := curve coefficient

theorem constants_check : b.value < fieldPrime ∧ (2 : ZMod fieldPrime) ≠ 0 ∧ Curve.Δ ≠ 0 ∧
    coefficient ≠ 0 := by
  decide +kernel

theorem b_holds : Holds b coefficient := Holds.ofReduced constants_check.1

theorem two_ne_zero_field : (2 : ZMod fieldPrime) ≠ 0 := constants_check.2.1

theorem discriminant_ne_zero : Curve.Δ ≠ 0 := constants_check.2.2.1

theorem coefficient_ne_zero : coefficient ≠ 0 := constants_check.2.2.2

theorem nonsingular_of_equation {x y : ZMod fieldPrime}
    (h : OnCurve coefficient x y) : Curve.Nonsingular x y :=
  (WeierstrassCurve.Affine.equation_iff_nonsingular_of_Δ_ne_zero discriminant_ne_zero).1
    ((equation_iff coefficient x y).2 h)

/-- The point with the given coordinates. -/
def curvePoint (x y : ZMod fieldPrime) (h : OnCurve coefficient x y) : Curve.Point :=
  .some x y (nonsingular_of_equation h)

def generatorPair : ZMod fieldPrime × ZMod fieldPrime :=
  ((generator.x.value : ZMod fieldPrime), (generator.y.value : ZMod fieldPrime))

theorem generator_holds : AffineHolds generator generatorPair :=
  ⟨Holds.ofReduced (by decide +kernel), Holds.ofReduced (by decide +kernel)⟩

theorem generator_equation :
    OnCurve coefficient generatorPair.1 generatorPair.2 := by
  decide +kernel

/-- The generator of the group. -/
def generatorPoint : Curve.Point := curvePoint generatorPair.1 generatorPair.2 generator_equation

/-! ## Representation -/

/-- The coordinates are below the prime. -/
structure JacobianPoint.Reduced (point : JacobianPoint) : Prop where
  x : point.x.value < fieldPrime
  y : point.y.value < fieldPrime
  z : point.z.value < fieldPrime

/-- The coordinates as elements of the field. -/
def JacobianPoint.triple (point : JacobianPoint) : Triple (ZMod fieldPrime) where
  x := point.x.value
  y := point.y.value
  z := point.z.value

/-- The Jacobian point has `z = 0`, for infinity, or is reduced and stands for
`(x / z², y / z³)`. -/
def JacobianPoint.Represents (point : JacobianPoint) : Curve.Point → Prop
  | .zero => point.z.value = 0
  | .some x y _ => point.Reduced ∧ (point.z.value : ZMod fieldPrime) ≠ 0 ∧
      (point.x.value : ZMod fieldPrime) = x * (point.z.value : ZMod fieldPrime) ^ 2 ∧
      (point.y.value : ZMod fieldPrime) = y * (point.z.value : ZMod fieldPrime) ^ 3

section Formulas

variable {point : JacobianPoint} {P : Curve.Point} {t : Triple (ZMod fieldPrime)}

theorem PointHolds.reduced (h : PointHolds point t) : point.Reduced :=
  ⟨h.x.reduced, h.y.reduced, h.z.reduced⟩

theorem JacobianPoint.Reduced.holds (h : point.Reduced) : PointHolds point point.triple :=
  ⟨Holds.ofReduced h.x, Holds.ofReduced h.y, Holds.ofReduced h.z⟩

/-- A reduced point of the code represents what its triple stands for. -/
theorem PointHolds.represents (h : PointHolds point t) (ht : JacobianCurve.Represents t P) :
    point.Represents P := by
  cases P with
  | zero =>
      have hz : t.z = 0 := ht
      exact U256.isZero_iff.1 (h.z.isZero_iff.2 hz)
  | some x y hxy =>
      obtain ⟨hz, hx, hy⟩ := ht
      refine ⟨h.reduced, ?_, ?_, ?_⟩
      · rw [h.z.cast]
        exact hz
      · rw [h.x.cast, h.z.cast]
        exact hx
      · rw [h.y.cast, h.z.cast]
        exact hy

/-- A representation is at infinity, whatever its other coordinates, or it is reduced. -/
theorem JacobianPoint.Represents.cases (h : point.Represents P) :
    (P = 0 ∧ pointIsInfinity point = true) ∨
      (PointHolds point point.triple ∧ JacobianCurve.Represents point.triple P) := by
  cases P with
  | zero => exact .inl ⟨rfl, U256.isZero_iff.2 h⟩
  | some x y hxy =>
      obtain ⟨hreduced, hz, hx, hy⟩ := h
      exact .inr ⟨hreduced.holds, hz, hx, hy⟩

theorem pointInfinity_represents : pointInfinity.Represents 0 := value_clear

theorem pointInfinity_reduced : pointInfinity.Reduced := pointInfinity_holds.reduced

theorem pointDouble_represents (h : point.Represents P) :
    (pointDouble point).Reduced ∧ (pointDouble point).Represents (P + P) := by
  rcases h.cases with ⟨rfl, hinfinity⟩ | ⟨hholds, ht⟩
  · rw [pointDouble, hinfinity, Bool.true_or, if_pos rfl, add_zero]
    exact ⟨pointInfinity_reduced, pointInfinity_represents⟩
  · exact ⟨hholds.double.reduced,
      hholds.double.represents (represents_double two_ne_zero_field ht)⟩

theorem pointAddAffine_represents (h : point.Represents P) {affine : AffinePoint}
    (hx : affine.x.value < fieldPrime) (hy : affine.y.value < fieldPrime)
    (hcurve : (affine.y.value : ZMod fieldPrime) ^ 2 =
      (affine.x.value : ZMod fieldPrime) ^ 3 - 3 * (affine.x.value : ZMod fieldPrime) +
        coefficient) :
    (pointAddAffine point affine).Reduced ∧
      (pointAddAffine point affine).Represents (P + curvePoint _ _ hcurve) := by
  have hq : AffineHolds affine ((affine.x.value : ZMod fieldPrime), (affine.y.value : ZMod fieldPrime)) :=
    ⟨Holds.ofReduced hx, Holds.ofReduced hy⟩
  rcases h.cases with ⟨rfl, hinfinity⟩ | ⟨hholds, ht⟩
  · have hset : pointAddAffine point affine = ⟨affine.x, affine.y, one⟩ := by
      rw [pointAddAffine, if_pos hinfinity]
      rfl
    have hheld : PointHolds (pointAddAffine point affine)
        ⟨(affine.x.value : ZMod fieldPrime), (affine.y.value : ZMod fieldPrime), 1⟩ := by
      rw [hset]
      exact pointHolds_mk hq.x hq.y holds_one
    refine ⟨hheld.reduced, hheld.represents ?_⟩
    rw [zero_add]
    exact ⟨one_ne_zero, by simp, by simp⟩
  · have hadded := hholds.addAffine hq
    exact ⟨hadded.reduced, hadded.represents
      (represents_addAffine two_ne_zero_field ht (nonsingular_of_equation hcurve))⟩

end Formulas

/-! ## Linear combinations -/

section Combination

variable {scalarG scalarQ : U256} {q : AffinePoint} {pair : ZMod fieldPrime × ZMod fieldPrime}
  {point : JacobianPoint} {t : Triple (ZMod fieldPrime)}

theorem pointLinearStep_holds (hq : AffineHolds q pair) (h : PointHolds point t) (bit : Nat) :
    PointHolds (pointLinearStep scalarG scalarQ q point bit)
      (combineStep generatorPair pair t
        (scalarG.value.testBit bit, scalarQ.value.testBit bit)) := by
  have hdoubled : PointHolds (if pointIsInfinity point then point else pointDouble point)
      (if t.z = 0 then t else double t) := by
    by_cases hz : t.z = 0
    · rw [if_pos hz, if_pos (h.isInfinity_iff.2 hz)]
      exact h
    · rw [if_neg hz, if_neg (fun hinfinity => hz (h.isInfinity_iff.1 hinfinity))]
      exact h.double
  have haddIf {point : JacobianPoint} {t : Triple (ZMod fieldPrime)} (h : PointHolds point t)
      {affine : AffinePoint} {pair : ZMod fieldPrime × ZMod fieldPrime}
      (hpair : AffineHolds affine pair) (c : Bool) :
      PointHolds (if c then pointAddAffine point affine else point)
        (if c then addAffine t pair.1 pair.2 else t) := by
    cases c with
    | false => exact h
    | true => exact h.addAffine hpair
  unfold pointLinearStep combineStep
  dsimp only
  rw [getBit_eq, getBit_eq]
  exact haddIf (haddIf hdoubled generator_holds _) hq _

/-- The bits of two scalars, the most significant ones first. -/
def scalarBits (u₁ u₂ : Nat) : List (Bool × Bool) :=
  (List.range 256).reverse.map fun bit => (u₁.testBit bit, u₂.testBit bit)

theorem value_scalarBits_fst {u₁ : Nat} (h : u₁ < 2 ^ 256) (u₂ : Nat) :
    Powers.value ((scalarBits u₁ u₂).map Prod.fst) = u₁ := by
  rw [scalarBits, List.map_map]
  exact Powers.value_binary h

theorem value_scalarBits_snd {u₂ : Nat} (h : u₂ < 2 ^ 256) (u₁ : Nat) :
    Powers.value ((scalarBits u₁ u₂).map Prod.snd) = u₂ := by
  rw [scalarBits, List.map_map]
  exact Powers.value_binary h

/-- The linear combination of the generator and a point of the curve. -/
theorem represents_scalarBits {x y : ZMod fieldPrime}
    (hcurve : OnCurve coefficient x y) {u₁ u₂ : Nat} (h₁ : u₁ < 2 ^ 256)
    (h₂ : u₂ < 2 ^ 256) :
    JacobianCurve.Represents (combine generatorPair (x, y) (scalarBits u₁ u₂))
      (u₁ • generatorPoint + u₂ • curvePoint x y hcurve) := by
  have hnonsingular : Curve.Nonsingular (x, y).1 (x, y).2 := nonsingular_of_equation hcurve
  have hcombined := represents_combine two_ne_zero_field
    (nonsingular_of_equation generator_equation) hnonsingular (scalarBits u₁ u₂)
  rwa [value_scalarBits_fst h₁, value_scalarBits_snd h₂] at hcombined

theorem pointLinearCombination_holds (scalarG scalarQ : U256) (hq : AffineHolds q pair) :
    PointHolds (pointLinearCombination scalarG scalarQ q)
      (combine generatorPair pair (scalarBits scalarG.value scalarQ.value)) := by
  have hloop (bits : List Nat) {point : JacobianPoint} {t : Triple (ZMod fieldPrime)}
      (h : PointHolds point t) :
      PointHolds (bits.foldl (pointLinearStep scalarG scalarQ q) point)
        ((bits.map fun bit => (scalarG.value.testBit bit, scalarQ.value.testBit bit)).foldl
          (combineStep generatorPair pair) t) := by
    induction bits generalizing point t with
    | nil => exact h
    | cons bit bits ih =>
        rw [List.foldl_cons, List.map_cons, List.foldl_cons]
        exact ih (pointLinearStep_holds hq h bit)
  exact hloop (List.range 256).reverse pointInfinity_holds

theorem pointLinearCombination_represents (scalarG scalarQ : U256)
    (hx : q.x.value < fieldPrime) (hy : q.y.value < fieldPrime)
    (hcurve : (q.y.value : ZMod fieldPrime) ^ 2 =
      (q.x.value : ZMod fieldPrime) ^ 3 - 3 * (q.x.value : ZMod fieldPrime) + coefficient) :
    (pointLinearCombination scalarG scalarQ q).Reduced ∧
      (pointLinearCombination scalarG scalarQ q).Represents
        (scalarG.value • generatorPoint + scalarQ.value • curvePoint _ _ hcurve) := by
  have hq : AffineHolds q ((q.x.value : ZMod fieldPrime), (q.y.value : ZMod fieldPrime)) :=
    ⟨Holds.ofReduced hx, Holds.ofReduced hy⟩
  have hholds := pointLinearCombination_holds scalarG scalarQ hq
  exact ⟨hholds.reduced, hholds.represents
    (represents_scalarBits hcurve scalarG.value_lt scalarQ.value_lt)⟩

end Combination

theorem pointAffineX_zero {point : JacobianPoint} (h : point.Represents 0) :
    pointAffineX point = none :=
  if_pos (U256.isZero_iff.2 h)

theorem pointAffineX_some {point : JacobianPoint} {x y : ZMod fieldPrime}
    {hxy : Curve.Nonsingular x y} (h : point.Represents (.some x y hxy)) :
    ∃ v, pointAffineX point = some v ∧ Holds v x := by
  obtain ⟨hreduced, hz, hx, -⟩ := h
  have hholds := hreduced.holds
  obtain ⟨inverse, hinverse, hinv⟩ := hholds.z.inverse hz
  have hfinite : ¬ pointIsInfinity point = true := fun hinfinity =>
    hz (hholds.isInfinity_iff.1 hinfinity)
  have habscissa := hholds.x.mul hinv.square
  refine ⟨_, by rw [pointAffineX, if_neg hfinite, hinverse]; rfl, habscissa.reduced, ?_⟩
  have hcancel : (point.z.value : ZMod fieldPrime) * (point.z.value : ZMod fieldPrime)⁻¹ = 1 :=
    mul_inv_cancel₀ hz
  rw [habscissa.cast]
  change (point.x.value : ZMod fieldPrime) *
    ((point.z.value : ZMod fieldPrime)⁻¹ * (point.z.value : ZMod fieldPrime)⁻¹) = x
  rw [hx]
  linear_combination x * (point.z.value * (point.z.value : ZMod fieldPrime)⁻¹ + 1) * hcancel

/--
The formulas implement the curve group: for representations of any two points, doubling and the
addition of an affine point give reduced representations of the double and of the sum, the linear
combination one of `u₁ G + u₂ Q`, and the affine abscissa is that of every finite point.
-/
theorem points_implement_group :
    (∀ (point : JacobianPoint) (P : Curve.Point), point.Represents P →
      (pointDouble point).Reduced ∧ (pointDouble point).Represents (P + P)) ∧
    (∀ (point : JacobianPoint) (P : Curve.Point) (affine : AffinePoint)
      (hcurve : (affine.y.value : ZMod fieldPrime) ^ 2 =
        (affine.x.value : ZMod fieldPrime) ^ 3 - 3 * (affine.x.value : ZMod fieldPrime) +
          coefficient),
      affine.x.value < fieldPrime → affine.y.value < fieldPrime → point.Represents P →
      (pointAddAffine point affine).Reduced ∧
        (pointAddAffine point affine).Represents (P + curvePoint _ _ hcurve)) ∧
    (∀ (scalarG scalarQ : U256) (q : AffinePoint)
      (hcurve : (q.y.value : ZMod fieldPrime) ^ 2 =
        (q.x.value : ZMod fieldPrime) ^ 3 - 3 * (q.x.value : ZMod fieldPrime) + coefficient),
      q.x.value < fieldPrime → q.y.value < fieldPrime →
      (pointLinearCombination scalarG scalarQ q).Reduced ∧
        (pointLinearCombination scalarG scalarQ q).Represents
          (scalarG.value • generatorPoint + scalarQ.value • curvePoint _ _ hcurve)) ∧
    (∀ (point : JacobianPoint) (x y : ZMod fieldPrime) (h : Curve.Nonsingular x y),
      point.Represents (.some x y h) →
      ∃ v, pointAffineX point = some v ∧ v.value < fieldPrime ∧ (v.value : ZMod fieldPrime) = x) := by
  refine ⟨fun point P h => pointDouble_represents h, ?_, ?_, ?_⟩
  · intro point P affine hcurve hx hy h
    exact pointAddAffine_represents h hx hy hcurve
  · intro scalarG scalarQ q hcurve hx hy
    exact pointLinearCombination_represents scalarG scalarQ hx hy hcurve
  · intro point x y hxy h
    obtain ⟨v, hv, hholds⟩ := pointAffineX_some h
    exact ⟨v, hv, hholds.reduced, hholds.cast⟩

/-- The generator is doubled. -/
theorem points_implement_group_generator :
    (pointDouble (pointSetAffine generator)).Represents (generatorPoint + generatorPoint) := by
  have hgenerator : (pointSetAffine generator).Represents generatorPoint :=
    ⟨⟨generator_holds.x.reduced, generator_holds.y.reduced, holds_one.reduced⟩,
      by decide +kernel, by decide +kernel, by decide +kernel⟩
  exact (points_implement_group.1 _ _ hgenerator).2

end SecureDeltaOta.EcdsaP256
