import Mathlib.Tactic

/-!
# ECDSA over P-256

`ecdsa_p256.c`: 256-bit integers as eight limbs, modular arithmetic by repeated
doubling, points in Jacobian coordinates, and the verification of a signature of
a SHA-256 digest.
-/

namespace SecureDeltaOta.EcdsaP256

/-- A 256-bit integer, least significant limb first. -/
structure U256 where
  limb : List UInt32
  limb_length : limb.length = 8
  deriving DecidableEq

namespace U256

/-- The carry or borrow a comparison yields. -/
def flag (b : Bool) : UInt32 := if b then 1 else 0

def subLimbs : List UInt32 → List UInt32 → UInt32 → List UInt32
  | a :: left, b :: right, borrow =>
      let first := a - b
      let borrow1 := flag (a < b)
      let second := first - borrow
      let borrow2 := flag (first < borrow)
      second :: subLimbs left right (borrow1 ||| borrow2)
  | _, _, _ => []

def addLimbs : List UInt32 → List UInt32 → UInt32 → List UInt32
  | a :: left, b :: right, carry =>
      let first := a + b
      let carry1 := flag (first < a)
      let second := first + carry
      let carry2 := flag (second < first)
      second :: addLimbs left right (carry1 ||| carry2)
  | _, _, _ => []

def subSmallLimbs : List UInt32 → UInt32 → List UInt32
  | current :: rest, borrow =>
      let next := current - borrow
      if current ≥ borrow then next :: rest else next :: subSmallLimbs rest 1
  | [], _ => []

theorem subLimbs_length {left right : List UInt32} (h : left.length = right.length)
    (borrow : UInt32) : (subLimbs left right borrow).length = left.length := by
  induction left generalizing right borrow with
  | nil => simp [subLimbs]
  | cons a left ih =>
      cases right with
      | nil => simp at h
      | cons b right =>
          simp only [List.length_cons, Nat.add_right_cancel_iff] at h
          simp [subLimbs, ih h]

theorem addLimbs_length {left right : List UInt32} (h : left.length = right.length)
    (carry : UInt32) : (addLimbs left right carry).length = left.length := by
  induction left generalizing right carry with
  | nil => simp [addLimbs]
  | cons a left ih =>
      cases right with
      | nil => simp at h
      | cons b right =>
          simp only [List.length_cons, Nat.add_right_cancel_iff] at h
          simp [addLimbs, ih h]

theorem subSmallLimbs_length (value : List UInt32) (small : UInt32) :
    (subSmallLimbs value small).length = value.length := by
  induction value generalizing small with
  | nil => simp [subSmallLimbs]
  | cons current rest ih =>
      unfold subSmallLimbs
      split <;> simp [ih]

/-- Limbs compared from the most significant one on. -/
def compareLimbs : List UInt32 → List UInt32 → Ordering
  | a :: left, b :: right =>
      if a > b then .gt else if a < b then .lt else compareLimbs left right
  | _, _ => .eq

def clear : U256 := ⟨List.replicate 8 0, rfl⟩

/-- The cleared value with its first limb set to one. -/
def one : U256 := ⟨1 :: List.replicate 7 0, rfl⟩

def isZero (value : U256) : Bool :=
  value.limb.foldl (· ||| ·) 0 = 0

def compare (left right : U256) : Ordering :=
  compareLimbs left.limb.reverse right.limb.reverse

def fromBigEndian (bytes : List UInt8) : U256 where
  limb := (List.range 8).map fun i =>
    let offset := 28 - i * 4
    ((bytes.getD offset 0).toUInt32 <<< 24) ||| ((bytes.getD (offset + 1) 0).toUInt32 <<< 16) |||
      ((bytes.getD (offset + 2) 0).toUInt32 <<< 8) ||| (bytes.getD (offset + 3) 0).toUInt32
  limb_length := by simp

def getBit (value : U256) (bit : Nat) : Bool :=
  (value.limb.getD (bit / 32) 0 >>> UInt32.ofNat (bit % 32)) &&& 1 ≠ 0

def subRaw (left right : U256) : U256 where
  limb := subLimbs left.limb right.limb 0
  limb_length := by
    rw [subLimbs_length (left.limb_length.trans right.limb_length.symm), left.limb_length]

def addRaw (left right : U256) : U256 where
  limb := addLimbs left.limb right.limb 0
  limb_length := by
    rw [addLimbs_length (left.limb_length.trans right.limb_length.symm), left.limb_length]

def subSmall (value : U256) (small : UInt32) : U256 where
  limb := subSmallLimbs value.limb small
  limb_length := by rw [subSmallLimbs_length, value.limb_length]

end U256

open U256

/-! ## Constants of the curve -/

def p : U256 where
  limb := [0xFFFFFFFF, 0xFFFFFFFF, 0xFFFFFFFF, 0x00000000,
    0x00000000, 0x00000000, 0x00000001, 0xFFFFFFFF]
  limb_length := rfl

def n : U256 where
  limb := [0xFC632551, 0xF3B9CAC2, 0xA7179E84, 0xBCE6FAAD,
    0xFFFFFFFF, 0xFFFFFFFF, 0x00000000, 0xFFFFFFFF]
  limb_length := rfl

def b : U256 where
  limb := [0x27D2604B, 0x3BCE3C3E, 0xCC53B0F6, 0x651D06B0,
    0x769886BC, 0xB3EBBD55, 0xAA3A93E7, 0x5AC635D8]
  limb_length := rfl

structure AffinePoint where
  x : U256
  y : U256
  deriving DecidableEq

structure JacobianPoint where
  x : U256
  y : U256
  z : U256
  deriving DecidableEq

def generator : AffinePoint where
  x :=
    { limb := [0xD898C296, 0xF4A13945, 0x2DEB33A0, 0x77037D81,
        0x63A440F2, 0xF8BCE6E5, 0xE12C4247, 0x6B17D1F2]
      limb_length := rfl }
  y :=
    { limb := [0x37BF51F5, 0xCBB64068, 0x6B315ECE, 0x2BCE3357,
        0x7C0F9E16, 0x8EE7EB4A, 0xFE1A7F9B, 0x4FE342E2]
      limb_length := rfl }

/-! ## Modular arithmetic -/

def modAdd (left right modulus : U256) : U256 :=
  let threshold := subRaw modulus right
  if compare left threshold ≠ .lt then subRaw left threshold else addRaw left right

def modSub (left right modulus : U256) : U256 :=
  if compare left right ≠ .lt then subRaw left right
  else subRaw modulus (subRaw right left)

/-- One round of the multiplication, on the accumulator and the doubled left operand. -/
def modMulStep (right modulus : U256) (state : U256 × U256) (bit : Nat) : U256 × U256 :=
  (if getBit right bit then modAdd state.1 state.2 modulus else state.1,
    if bit + 1 < 256 then modAdd state.2 state.2 modulus else state.2)

def modMul (left right modulus : U256) : U256 :=
  ((List.range 256).foldl (modMulStep right modulus) (clear, left)).1

def modSquare (value modulus : U256) : U256 := modMul value value modulus

def modDouble (value modulus : U256) : U256 := modAdd value value modulus

def modTriple (value modulus : U256) : U256 := modAdd (modDouble value modulus) value modulus

def modTimes4 (value modulus : U256) : U256 := modDouble (modDouble value modulus) modulus

def modTimes8 (value modulus : U256) : U256 := modDouble (modTimes4 value modulus) modulus

/-- One round of the exponentiation. -/
def modInverseStep (value exponent modulus accumulator : U256) (bit : Nat) : U256 :=
  let squared := modSquare accumulator modulus
  if getBit exponent bit then modMul squared value modulus else squared

def modInverse (value modulus : U256) : Option U256 :=
  if isZero value then none
  else some ((List.range 256).reverse.foldl
    (modInverseStep value (subSmall modulus 2) modulus) one)

/-! ## Points -/

def pointInfinity : JacobianPoint := ⟨clear, clear, clear⟩

def pointIsInfinity (point : JacobianPoint) : Bool := isZero point.z

def pointSetAffine (affine : AffinePoint) : JacobianPoint := ⟨affine.x, affine.y, one⟩

def pointDouble (point : JacobianPoint) : JacobianPoint :=
  if pointIsInfinity point || isZero point.y then pointInfinity
  else
    let delta := modSquare point.z p
    let gamma := modSquare point.y p
    let beta := modMul point.x gamma p
    let alpha := modTriple (modMul (modSub point.x delta p) (modAdd point.x delta p) p) p
    let x3 := modSub (modSquare alpha p) (modTimes8 beta p) p
    let z3 := modSub (modSub (modSquare (modAdd point.y point.z p) p) gamma p) delta p
    let y3 := modSub (modMul alpha (modSub (modTimes4 beta p) x3 p) p)
      (modTimes8 (modSquare gamma p) p) p
    ⟨x3, y3, z3⟩

def pointAddAffine (point : JacobianPoint) (affine : AffinePoint) : JacobianPoint :=
  if pointIsInfinity point then pointSetAffine affine
  else
    let z1z1 := modSquare point.z p
    let u2 := modMul affine.x z1z1 p
    let s2 := modMul affine.y (modMul point.z z1z1 p) p
    let h := modSub u2 point.x p
    let r := modSub s2 point.y p
    if isZero h then
      if isZero r then pointDouble point else pointInfinity
    else
      let hh := modSquare h p
      let i4 := modTimes4 hh p
      let j := modMul h i4 p
      let r := modDouble r p
      let v := modMul point.x i4 p
      let x3 := modSub (modSub (modSquare r p) j p) (modDouble v p) p
      let y3 := modSub (modMul r (modSub v x3 p) p) (modDouble (modMul point.y j p) p) p
      let z3 := modSub (modSub (modSquare (modAdd point.z h p) p) z1z1 p) hh p
      ⟨x3, y3, z3⟩

def pointIsOnCurve (point : AffinePoint) : Bool :=
  if compare point.x p ≠ .lt ∨ compare point.y p ≠ .lt then false
  else if isZero point.x && isZero point.y then false
  else
    let y2 := modSquare point.y p
    let x3 := modMul (modSquare point.x p) point.x p
    let rhs := modAdd (modSub x3 (modTriple point.x p) p) b p
    compare y2 rhs = .eq

def pointAffineX (point : JacobianPoint) : Option U256 :=
  if pointIsInfinity point then none
  else (modInverse point.z p).map fun inverse => modMul point.x (modSquare inverse p) p

/-- One round of the simultaneous double-and-add. -/
def pointLinearStep (scalarG scalarQ : U256) (q : AffinePoint) (point : JacobianPoint)
    (bit : Nat) : JacobianPoint :=
  let point := if pointIsInfinity point then point else pointDouble point
  let point := if getBit scalarG bit then pointAddAffine point generator else point
  if getBit scalarQ bit then pointAddAffine point q else point

def pointLinearCombination (scalarG scalarQ : U256) (q : AffinePoint) : JacobianPoint :=
  (List.range 256).reverse.foldl (pointLinearStep scalarG scalarQ q) pointInfinity

/-! ## Verification -/

inductive Status where
  | valid
  | invalidPublicKey
  | invalidSignature
  | mathError
  deriving DecidableEq, Repr

/-- Subtract the group order once if the value is not below it. -/
def reduceOrder (value : U256) : U256 :=
  if compare value n ≠ .lt then subRaw value n else value

/-- `EcdsaP256_VerifyDigest`. -/
def verifyDigest (publicKey digest signature : List UInt8) : Status :=
  let q : AffinePoint := ⟨fromBigEndian publicKey, fromBigEndian (publicKey.drop 32)⟩
  let r := fromBigEndian signature
  let s := fromBigEndian (signature.drop 32)
  let z := fromBigEndian digest
  if !pointIsOnCurve q then .invalidPublicKey
  else if isZero r || isZero s || compare r n ≠ .lt || compare s n ≠ .lt then .invalidSignature
  else
    match modInverse s n with
    | none => .mathError
    | some w =>
        let u1 := modMul (reduceOrder z) w n
        let u2 := modMul r w n
        match pointAffineX (pointLinearCombination u1 u2 q) with
        | none => .invalidSignature
        | some x => if compare (reduceOrder x) r = .eq then .valid else .invalidSignature

end SecureDeltaOta.EcdsaP256
