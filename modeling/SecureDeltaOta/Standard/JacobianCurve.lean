import Mathlib.AlgebraicGeometry.EllipticCurve.Affine.Point
import Mathlib.Tactic.FieldSimp
import Mathlib.Tactic.LinearCombination
import SecureDeltaOta.Standard.Primality

/-!
# Curves `y² = x³ - 3x + b` in Jacobian coordinates

A triple stands for the point `(x / z², y / z³)`, and for the point at infinity
if `z` is zero. Doubling and the addition of an affine point are given without
division; they are the group law, in the exceptional cases too. A linear
combination of two points is taken by doubling and adding over the bits of both
scalars at once.
-/

namespace JacobianCurve

variable {F : Type*} [Field F]

/-- The curve with coefficients `-3` and `b`. -/
def curve (b : F) : WeierstrassCurve.Affine F where
  a₁ := 0
  a₂ := 0
  a₃ := 0
  a₄ := -3
  a₆ := b

/-- The coordinates satisfy the equation of the curve. -/
abbrev OnCurve (b x y : F) : Prop := y ^ 2 = x ^ 3 - 3 * x + b

theorem equation_iff (b x y : F) : (curve b).Equation x y ↔ OnCurve b x y := by
  rw [WeierstrassCurve.Affine.equation_iff]
  simp only [curve, OnCurve]
  ring_nf

theorem negY_eq (b x y : F) : (curve b).negY x y = -y := by
  simp [WeierstrassCurve.Affine.negY, curve]

/-- Jacobian coordinates. -/
structure Triple (F : Type*) where
  x : F
  y : F
  z : F
  deriving DecidableEq

/-- The triple stands for the point. -/
def Represents {b : F} (t : Triple F) : (curve b).Point → Prop
  | .zero => t.z = 0
  | .some x y _ => t.z ≠ 0 ∧ t.x = x * t.z ^ 2 ∧ t.y = y * t.z ^ 3

/-- A triple with an invertible denominator represents a finite point. -/
theorem Represents.abscissa {b : F} {t : Triple F} {P : (curve b).Point} (h : Represents t P)
    {i : F} (hi : t.z * i = 1) : ∃ x y hxy, P = .some x y hxy ∧ x = t.x * (i * i) := by
  cases P with
  | zero => exact absurd h (left_ne_zero_of_mul_eq_one hi)
  | some x y hxy =>
      obtain ⟨-, hx, -⟩ := h
      refine ⟨x, y, hxy, rfl, ?_⟩
      rw [hx]
      linear_combination -x * (1 + t.z * i) * hi

section Law

variable [DecidableEq F]

def infinity : Triple F := ⟨0, 0, 0⟩

def double (t : Triple F) : Triple F :=
  if t.z = 0 ∨ t.y = 0 then infinity
  else
    let delta := t.z * t.z
    let gamma := t.y * t.y
    let beta := t.x * gamma
    let alpha := 3 * ((t.x - delta) * (t.x + delta))
    let x₃ := alpha * alpha - 8 * beta
    let z₃ := (t.y + t.z) * (t.y + t.z) - gamma - delta
    ⟨x₃, alpha * (4 * beta - x₃) - 8 * (gamma * gamma), z₃⟩

/-- The sum with an affine point. -/
def addAffine (t : Triple F) (x y : F) : Triple F :=
  if t.z = 0 then ⟨x, y, 1⟩
  else
    let zz := t.z * t.z
    let h := x * zz - t.x
    let r := y * (t.z * zz) - t.y
    if h = 0 then
      if r = 0 then double t else infinity
    else
      let hh := h * h
      let i := 4 * hh
      let j := h * i
      let v := t.x * i
      let x₃ := 2 * r * (2 * r) - j - 2 * v
      ⟨x₃, 2 * r * (v - x₃) - 2 * (t.y * j), (t.z + h) * (t.z + h) - zz - hh⟩

variable {b : F} {t : Triple F}

omit [DecidableEq F] in
theorem represents_infinity : Represents (infinity : Triple F) (0 : (curve b).Point) := rfl

/-- The sum of two affine points, by the line of slope `m` through them. -/
theorem add_eq_of_slope {x₁ y₁ x₂ y₂ : F} (h₁ : (curve b).Nonsingular x₁ y₁)
    (h₂ : (curve b).Nonsingular x₂ y₂) (hxy : ¬ (x₁ = x₂ ∧ y₁ = (curve b).negY x₂ y₂)) :
    ∃ x₃ y₃ h₃, WeierstrassCurve.Affine.Point.some x₁ y₁ h₁ + .some x₂ y₂ h₂ = .some x₃ y₃ h₃ ∧
      x₃ = (curve b).slope x₁ x₂ y₁ y₂ ^ 2 - x₁ - x₂ ∧
      y₃ = (curve b).slope x₁ x₂ y₁ y₂ * (x₁ - x₃) - y₁ := by
  refine ⟨_, _, _, WeierstrassCurve.Affine.Point.add_some hxy, ?_, ?_⟩
  · simp [WeierstrassCurve.Affine.addX, curve]
  · simp only [WeierstrassCurve.Affine.addY, WeierstrassCurve.Affine.negAddY, negY_eq]
    ring

theorem represents_double (htwo : (2 : F) ≠ 0) {P : (curve b).Point} (h : Represents t P) :
    Represents (double t) (P + P) := by
  cases P with
  | zero =>
      have hz : t.z = 0 := h
      rw [double, if_pos (.inl hz)]
      exact represents_infinity
  | some x y hxy =>
      obtain ⟨hz, hx, hy⟩ := h
      by_cases hzero : y = 0
      · -- the tangent is vertical
        have hneg : y = (curve b).negY x y := by rw [negY_eq, hzero, neg_zero]
        rw [double, if_pos (.inr (by rw [hy, hzero, zero_mul])),
          WeierstrassCurve.Affine.Point.add_self_of_Y_eq hneg]
        exact represents_infinity
      have hdouble : 2 * y ≠ 0 := mul_ne_zero htwo hzero
      have hne : y ≠ (curve b).negY x y := by
        rw [negY_eq]
        intro hneg
        exact hdouble (by linear_combination hneg)
      have hyz : t.y ≠ 0 := by
        rw [hy]
        exact mul_ne_zero hzero (pow_ne_zero 3 hz)
      obtain ⟨x₃, y₃, h₃, hsum, hx₃, hy₃⟩ := add_eq_of_slope hxy hxy
        (fun hboth => hne hboth.2)
      have hslope : (curve b).slope x x y y * (2 * y) = 3 * x ^ 2 - 3 := by
        rw [WeierstrassCurve.Affine.slope_of_Y_ne rfl hne, negY_eq, sub_neg_eq_add, ← two_mul,
          div_mul_cancel₀ _ hdouble]
        simp only [curve]
        ring
      generalize (curve b).slope x x y y = m at hslope hx₃ hy₃
      rw [hsum, double, if_neg (not_or.2 ⟨hz, hyz⟩)]
      have hz₃ : (t.y + t.z) * (t.y + t.z) - t.y * t.y - t.z * t.z = 2 * y * t.z ^ 4 := by
        rw [hy]
        ring
      have halpha : 3 * ((t.x - t.z * t.z) * (t.x + t.z * t.z)) = m * (2 * y) * t.z ^ 4 := by
        rw [hx]
        linear_combination -(t.z ^ 4) * hslope
      dsimp only
      rw [hz₃, halpha]
      have hX : m * (2 * y) * t.z ^ 4 * (m * (2 * y) * t.z ^ 4) - 8 * (t.x * (t.y * t.y)) =
          x₃ * (2 * y * t.z ^ 4) ^ 2 := by
        rw [hx₃, hx, hy]
        ring
      refine ⟨mul_ne_zero hdouble (pow_ne_zero 4 hz), hX, ?_⟩
      dsimp only
      rw [hX, hy₃, hx, hy]
      ring

/-- Two points with one abscissa are equal or opposite. -/
theorem add_eq_zero_of_X_eq {x y₁ y₂ : F} {h₁ : (curve b).Nonsingular x y₁}
    {h₂ : (curve b).Nonsingular x y₂} (hne : y₁ ≠ y₂) :
    WeierstrassCurve.Affine.Point.some x y₁ h₁ + .some x y₂ h₂ = 0 :=
  WeierstrassCurve.Affine.Point.add_of_Y_eq rfl
    ((WeierstrassCurve.Affine.Y_eq_of_X_eq h₁.1 h₂.1 rfl).resolve_left hne)

theorem represents_addAffine (htwo : (2 : F) ≠ 0) {P : (curve b).Point} (h : Represents t P)
    {x₂ y₂ : F} (h₂ : (curve b).Nonsingular x₂ y₂) :
    Represents (addAffine t x₂ y₂) (P + .some x₂ y₂ h₂) := by
  cases P with
  | zero =>
      have hz : t.z = 0 := h
      have hsum : (.zero : (curve b).Point) + .some x₂ y₂ h₂ = .some x₂ y₂ h₂ := zero_add _
      rw [addAffine, if_pos hz, hsum]
      exact ⟨one_ne_zero, by simp, by simp⟩
  | some x y hxy =>
      have hdoubled := represents_double htwo h
      obtain ⟨hz, hx, hy⟩ := h
      have hh : x₂ * (t.z * t.z) - t.x = (x₂ - x) * t.z ^ 2 := by
        rw [hx]
        ring
      have hr : y₂ * (t.z * (t.z * t.z)) - t.y = (y₂ - y) * t.z ^ 3 := by
        rw [hy]
        ring
      rw [addAffine, if_neg hz]
      dsimp only
      rw [hh, hr]
      by_cases hX : x₂ = x
      · subst hX
        rw [if_pos (by rw [sub_self, zero_mul])]
        by_cases hY : y₂ = y
        · subst hY
          rw [if_pos (by rw [sub_self, zero_mul])]
          exact hdoubled
        · rw [if_neg (mul_ne_zero (sub_ne_zero.2 hY) (pow_ne_zero 3 hz)),
            add_eq_zero_of_X_eq (Ne.symm hY)]
          exact represents_infinity
      · have hdifference : x₂ - x ≠ 0 := sub_ne_zero.2 hX
        rw [if_neg (mul_ne_zero hdifference (pow_ne_zero 2 hz))]
        obtain ⟨x₃, y₃, h₃, hsum, hx₃, hy₃⟩ := add_eq_of_slope hxy h₂
          (fun hboth => hX hboth.1.symm)
        have hslope : (curve b).slope x x₂ y y₂ * (x₂ - x) = y₂ - y := by
          rw [WeierstrassCurve.Affine.slope_of_X_ne (Ne.symm hX), ← neg_sub y₂ y, ← neg_sub x₂ x,
            neg_div_neg_eq, div_mul_cancel₀ _ hdifference]
        generalize (curve b).slope x x₂ y y₂ = m at hslope hx₃ hy₃
        rw [hsum, ← hslope]
        have hz₃ : (t.z + (x₂ - x) * t.z ^ 2) * (t.z + (x₂ - x) * t.z ^ 2) - t.z * t.z -
            (x₂ - x) * t.z ^ 2 * ((x₂ - x) * t.z ^ 2) = 2 * (x₂ - x) * t.z ^ 3 := by
          ring
        rw [hz₃]
        refine ⟨mul_ne_zero (mul_ne_zero htwo hdifference) (pow_ne_zero 3 hz), ?_, ?_⟩
        · dsimp only
          rw [hx₃, hx]
          ring
        · dsimp only
          rw [hy₃, hx₃, hx, hy]
          ring

/-! ## Linear combinations -/

/-- One bit of each scalar: the sum so far is doubled, and the points are added. -/
def combineStep (g q : F × F) (t : Triple F) (bits : Bool × Bool) : Triple F :=
  let t := if t.z = 0 then t else double t
  let t := if bits.1 then addAffine t g.1 g.2 else t
  if bits.2 then addAffine t q.1 q.2 else t

/-- The linear combination of two points; the scalars are given by their bits, the most
significant ones first. -/
def combine (g q : F × F) (bits : List (Bool × Bool)) : Triple F :=
  bits.foldl (combineStep g q) infinity

theorem represents_addIf (htwo : (2 : F) ≠ 0) {P : (curve b).Point} (h : Represents t P)
    {x y : F} (hxy : (curve b).Nonsingular x y) (bit : Bool) :
    Represents (if bit then addAffine t x y else t) (P + bit.toNat • .some x y hxy) := by
  cases bit with
  | false => simpa using h
  | true => simpa using represents_addAffine htwo h hxy

theorem represents_combineStep (htwo : (2 : F) ≠ 0) {P : (curve b).Point} (h : Represents t P)
    {g q : F × F} (hg : (curve b).Nonsingular g.1 g.2) (hq : (curve b).Nonsingular q.1 q.2)
    (bits : Bool × Bool) :
    Represents (combineStep g q t bits)
      (P + P + bits.1.toNat • .some g.1 g.2 hg + bits.2.toNat • .some q.1 q.2 hq) := by
  have hdoubled : Represents (if t.z = 0 then t else double t) (P + P) := by
    by_cases hz : t.z = 0
    · rw [if_pos hz]
      cases P with
      | zero => exact hz
      | some x y hxy => exact absurd hz h.1
    · rw [if_neg hz]
      exact represents_double htwo h
  exact represents_addIf htwo (represents_addIf htwo hdoubled hg bits.1) hq bits.2

/-- What is left to do after the scalars `i` and `j` are consumed. -/
theorem represents_foldl (htwo : (2 : F) ≠ 0) {g q : F × F} (hg : (curve b).Nonsingular g.1 g.2)
    (hq : (curve b).Nonsingular q.1 q.2) (bits : List (Bool × Bool)) {i j : Nat}
    (h : Represents t (i • .some g.1 g.2 hg + j • .some q.1 q.2 hq : (curve b).Point)) :
    Represents (bits.foldl (combineStep g q) t)
      ((bits.map Prod.fst).foldl (fun v bit => 2 * v + bit.toNat) i • .some g.1 g.2 hg +
        (bits.map Prod.snd).foldl (fun v bit => 2 * v + bit.toNat) j • .some q.1 q.2 hq :
          (curve b).Point) := by
  induction bits generalizing t i j with
  | nil => exact h
  | cons bit bits ih =>
      have hstep := represents_combineStep htwo h hg hq bit
      have hsum (G Q : (curve b).Point) : i • G + j • Q + (i • G + j • Q) + bit.1.toNat • G +
          bit.2.toNat • Q = (2 * i + bit.1.toNat) • G + (2 * j + bit.2.toNat) • Q := by
        rw [add_nsmul, add_nsmul, two_mul, two_mul, add_nsmul, add_nsmul]
        abel
      rw [hsum] at hstep
      exact ih hstep

theorem represents_combine (htwo : (2 : F) ≠ 0) {g q : F × F}
    (hg : (curve b).Nonsingular g.1 g.2) (hq : (curve b).Nonsingular q.1 q.2)
    (bits : List (Bool × Bool)) :
    Represents (combine g q bits)
      (Powers.value (bits.map Prod.fst) • .some g.1 g.2 hg +
        Powers.value (bits.map Prod.snd) • .some q.1 q.2 hq : (curve b).Point) := by
  refine represents_foldl htwo hg hq bits ?_
  rw [zero_nsmul, zero_nsmul, add_zero]
  exact represents_infinity

end Law

end JacobianCurve
