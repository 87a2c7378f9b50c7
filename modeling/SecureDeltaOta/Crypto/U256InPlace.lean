import SecureDeltaOta.Crypto.P256Field

/-!
# Modular arithmetic on objects

The functions of `ecdsa_p256.c` take pointers, and their callers let the result
be one of the operands.  Here they run on a memory of named objects, limb by
limb, with their locals in a frame of their own; whatever the names are, they
store what the functions on values compute and touch nothing else.
-/

namespace SecureDeltaOta.EcdsaP256

open U256

/-- The 256-bit objects in scope, by name. -/
abbrev Memory (ν : Type) := ν → U256

namespace Memory

variable {ν : Type} [DecidableEq ν]

/-! ## Loops over the limbs -/

def setLimb (σ : Memory ν) (destination : ν) (i : Nat) (v : UInt32) : Memory ν :=
  Function.update σ destination
    { limb := (σ destination).limb.set i v
      limb_length := by rw [List.length_set, (σ destination).limb_length] }

/-- What a loop computes for one limb of either operand: the new limb and the carry. -/
abbrev LimbStep := UInt32 → UInt32 → UInt32 → UInt32 × UInt32

/-- One round of a loop over the limbs: both limbs are read before the destination is written. -/
def limbRound (f : LimbStep) (destination left right : ν) (state : Memory ν × UInt32) (i : Nat) :
    Memory ν × UInt32 :=
  let r := f ((state.1 left).limb.getD i 0) ((state.1 right).limb.getD i 0) state.2
  (setLimb state.1 destination i r.1, r.2)

def limbLoop (f : LimbStep) (destination left right : ν) (σ : Memory ν) : Memory ν :=
  ((List.range 8).foldl (limbRound f destination left right) (σ, 0)).1

/-- The limbs the loop stores, from those of the operands before it. -/
def limbwise (f : LimbStep) : List UInt32 → List UInt32 → UInt32 → List UInt32
  | a :: left, b :: right, carry => (f a b carry).1 :: limbwise f left right (f a b carry).2
  | _, _, _ => []

def subStep : LimbStep := fun a b borrow =>
  (a - b - borrow, flag (a < b) ||| flag (a - b < borrow))

def addStep : LimbStep := fun a b carry =>
  (a + b + carry, flag (a + b < a) ||| flag (a + b + carry < a + b))

def subRaw (destination left right : ν) : Memory ν → Memory ν :=
  limbLoop subStep destination left right

def addRaw (destination left right : ν) : Memory ν → Memory ν :=
  limbLoop addStep destination left right

def copy (destination source : ν) : Memory ν → Memory ν :=
  limbLoop (fun a _ carry => (a, carry)) destination source source

/-- The loop that clears an object ignores what it reads. -/
def clear (value : ν) : Memory ν → Memory ν :=
  limbLoop (fun _ _ carry => (0, carry)) value value value

theorem limbwise_sub (left right : List UInt32) (borrow : UInt32) :
    limbwise subStep left right borrow = subLimbs left right borrow := by
  induction left generalizing right borrow with
  | nil => cases right <;> rfl
  | cons a left ih =>
      cases right with
      | nil => rfl
      | cons b right => simp only [limbwise, subLimbs, ih, subStep]

theorem limbwise_add (left right : List UInt32) (carry : UInt32) :
    limbwise addStep left right carry = addLimbs left right carry := by
  induction left generalizing right carry with
  | nil => cases right <;> rfl
  | cons a left ih =>
      cases right with
      | nil => rfl
      | cons b right => simp only [limbwise, addLimbs, ih, addStep]

theorem limbwise_copy (source : List UInt32) (carry : UInt32) :
    limbwise (fun a _ carry => (a, carry)) source source carry = source := by
  induction source with
  | nil => rfl
  | cons a source ih => simp only [limbwise, ih]

theorem limbwise_clear (left : List UInt32) (carry : UInt32) :
    limbwise (fun _ _ carry => (0, carry)) left left carry = List.replicate left.length 0 := by
  induction left with
  | nil => rfl
  | cons a left ih => simp only [limbwise, ih, List.length_cons, List.replicate_succ]

/--
From round `i` on: the limbs before `i` are those already computed, the others still those the
operands had at the start, even in an operand that is the destination.
-/
theorem limbLoop_from (f : LimbStep) (destination left right : ν) (σ : Memory ν) {c i : Nat}
    (hcount : i + c = 8) (computed : List UInt32) (hcomputed : computed.length = i)
    {u w : U256} (hu : u.limb = computed ++ (σ destination).limb.drop i) {carry : UInt32}
    (hw : w.limb = computed ++ limbwise f ((σ left).limb.drop i) ((σ right).limb.drop i) carry) :
    ((List.range' i c).foldl (limbRound f destination left right)
      (Function.update σ destination u, carry)).1 = Function.update σ destination w := by
  induction c generalizing i computed u carry with
  | zero =>
      have hi : i = 8 := by omega
      have hdrop (v : U256) : v.limb.drop i = [] :=
        List.drop_eq_nil_of_le (by rw [v.limb_length]; omega)
      rw [hdrop, List.append_nil] at hu
      rw [hdrop, limbwise, List.append_nil, ← hu] at hw
      have huw : u = w := by
        cases u
        cases w
        simp only [U256.mk.injEq]
        exact hw.symm
      rw [List.range'_zero, List.foldl_nil, huw]
      · intro a left b right h
        cases h
  | succ c ih =>
      have hlimb (v : U256) : v.limb.drop i = v.limb.getD i 0 :: v.limb.drop (i + 1) := by
        have hi : i < v.limb.length := by rw [v.limb_length]; omega
        rw [List.drop_eq_getElem_cons hi, List.getD_eq_getElem _ _ hi]
      -- the destination keeps its limb `i` until this round writes it
      have hread (name : ν) :
          (Function.update σ destination u name).limb.getD i 0 = (σ name).limb.getD i 0 := by
        by_cases hname : name = destination
        · subst hname
          rw [Function.update_self, hu, hlimb (σ name), ← hcomputed, List.getD_append_right _ _ _ _
            le_rfl]
          simp
        · rw [Function.update_of_ne hname]
      rw [hlimb (σ left), hlimb (σ right), limbwise] at hw
      rw [List.range'_succ, List.foldl_cons]
      simp only [limbRound, setLimb, hread, Function.update_self, Function.update_idem]
      refine ih (by omega) (computed ++ [_]) (by simp [hcomputed]) ?_
        (by rw [hw, List.append_assoc, List.singleton_append])
      dsimp only
      rw [hu, hlimb (σ destination), List.set_append_right _ _ (by omega), hcomputed, Nat.sub_self,
        List.set_cons_zero, List.append_assoc, List.singleton_append]

theorem limbLoop_eq (f : LimbStep) (destination left right : ν) (σ : Memory ν) {w : U256}
    (hw : w.limb = limbwise f (σ left).limb (σ right).limb 0) :
    limbLoop f destination left right σ = Function.update σ destination w := by
  have hloop := limbLoop_from f destination left right σ (i := 0) (c := 8) rfl
    [] rfl (u := σ destination) rfl (w := w) hw
  rwa [Function.update_eq_self, ← List.range_eq_range'] at hloop

theorem subRaw_eq (destination left right : ν) (σ : Memory ν) :
    subRaw destination left right σ =
      Function.update σ destination (U256.subRaw (σ left) (σ right)) :=
  limbLoop_eq _ _ _ _ _ (limbwise_sub _ _ _).symm

theorem addRaw_eq (destination left right : ν) (σ : Memory ν) :
    addRaw destination left right σ =
      Function.update σ destination (U256.addRaw (σ left) (σ right)) :=
  limbLoop_eq _ _ _ _ _ (limbwise_add _ _ _).symm

theorem copy_eq (destination source : ν) (σ : Memory ν) :
    copy destination source σ = Function.update σ destination (σ source) :=
  limbLoop_eq _ _ _ _ _ (limbwise_copy _ _).symm

theorem clear_eq (value : ν) (σ : Memory ν) :
    clear value σ = Function.update σ value U256.clear :=
  limbLoop_eq _ _ _ _ _ (by rw [limbwise_clear, (σ value).limb_length]; rfl)

/-! ## Frames -/

section Frames

variable {lam : Type} [DecidableEq lam]

/-- The memory a function sees: its locals, and the objects of its caller. -/
def enter (locals : lam → U256) (σ : Memory ν) : Memory (lam ⊕ ν) := Sum.elim locals σ

/-- What is left of it when the function returns. -/
def leave (τ : Memory (lam ⊕ ν)) : Memory ν := fun name => τ (.inr name)

omit [DecidableEq ν] [DecidableEq lam] in
@[simp] theorem enter_inr (locals : lam → U256) (σ : Memory ν) (name : ν) :
    enter locals σ (.inr name) = σ name := rfl

omit [DecidableEq ν] [DecidableEq lam] in
@[simp] theorem leave_enter (locals : lam → U256) (σ : Memory ν) :
    leave (enter locals σ) = σ := rfl

omit [DecidableEq ν] [DecidableEq lam] in
theorem leave_eq {τ : Memory (lam ⊕ ν)} {σ : Memory ν} (h : ∀ name, τ (.inr name) = σ name) :
    leave τ = σ := funext h

@[simp] theorem leave_update_inl (τ : Memory (lam ⊕ ν)) (name : lam) (v : U256) :
    leave (Function.update τ (.inl name) v) = leave τ := by
  funext other
  simp [leave]

@[simp] theorem leave_update_inr (τ : Memory (lam ⊕ ν)) (name : ν) (v : U256) :
    leave (Function.update τ (.inr name) v) = Function.update (leave τ) name v := by
  funext other
  by_cases h : other = name
  · subst h
    simp [leave]
  · simp [leave, h]

end Frames

/-! ## The functions of the source

`stale` is what a local holds before it is assigned. -/

def modAdd (stale : U256) (result left right modulus : ν) (σ : Memory ν) : Memory ν :=
  let threshold : Unit ⊕ ν := .inl ()
  let τ := subRaw threshold (.inr modulus) (.inr right) (enter (fun _ : Unit => stale) σ)
  if compare (τ (.inr left)) (τ threshold) ≠ .lt then
    leave (subRaw (.inr result) (.inr left) threshold τ)
  else leave (addRaw (.inr result) (.inr left) (.inr right) τ)

def modSub (stale : U256) (result left right modulus : ν) (σ : Memory ν) : Memory ν :=
  if compare (σ left) (σ right) ≠ .lt then subRaw result left right σ
  else
    let difference : Unit ⊕ ν := .inl ()
    let τ := subRaw difference (.inr right) (.inr left) (enter (fun _ : Unit => stale) σ)
    leave (subRaw (.inr result) (.inr modulus) difference τ)

/-- The locals of `ModMul`. -/
inductive MulLocal where
  | accumulator
  | doubled
  | next
  deriving DecidableEq

def modMulRound (stale : U256) (right modulus : ν) (τ : Memory (MulLocal ⊕ ν)) (bit : Nat) :
    Memory (MulLocal ⊕ ν) :=
  let accumulator : MulLocal ⊕ ν := .inl .accumulator
  let doubled : MulLocal ⊕ ν := .inl .doubled
  let next : MulLocal ⊕ ν := .inl .next
  let τ := if getBit (τ (.inr right)) bit then
      copy accumulator next (modAdd stale next accumulator doubled (.inr modulus) τ)
    else τ
  if bit + 1 < 256 then
    copy doubled next (modAdd stale next doubled doubled (.inr modulus) τ)
  else τ

def modMul (stale : U256) (result left right modulus : ν) (σ : Memory ν) : Memory ν :=
  let τ := clear (.inl MulLocal.accumulator) (enter (fun _ => stale) σ)
  let τ := copy (.inl .doubled) (.inr left) τ
  let τ := (List.range 256).foldl (modMulRound stale right modulus) τ
  leave (copy (.inr result) (.inl .accumulator) τ)

/-- The locals of `ModInverse`. -/
inductive InverseLocal where
  | exponent
  | accumulator
  | squared
  | multiplied
  deriving DecidableEq

def modInverseRound (stale : U256) (value modulus : ν) (τ : Memory (InverseLocal ⊕ ν))
    (bit : Nat) : Memory (InverseLocal ⊕ ν) :=
  let accumulator : InverseLocal ⊕ ν := .inl .accumulator
  let squared : InverseLocal ⊕ ν := .inl .squared
  let multiplied : InverseLocal ⊕ ν := .inl .multiplied
  -- `ModSquare` passes its operand twice
  let τ := copy accumulator squared
    (modMul stale squared accumulator accumulator (.inr modulus) τ)
  if getBit (τ (.inl .exponent)) bit then
    copy accumulator multiplied
      (modMul stale multiplied accumulator (.inr value) (.inr modulus) τ)
  else τ

/-- The returned flag says whether there is an inverse. -/
def modInverse (stale : U256) (result value modulus : ν) (σ : Memory ν) : Bool × Memory ν :=
  if isZero (σ value) then (false, σ)
  else
    let exponent : InverseLocal ⊕ ν := .inl .exponent
    let τ := copy exponent (.inr modulus) (enter (fun _ => stale) σ)
    let τ := Function.update τ exponent (subSmall (τ exponent) 2)
    let τ := setLimb (clear (.inl .accumulator) τ) (.inl .accumulator) 0 1
    let τ := (List.range 256).reverse.foldl (modInverseRound stale value modulus) τ
    (true, leave (copy (.inr result) (.inl .accumulator) τ))

/-! ## They store what the functions on values compute -/

theorem modAdd_eq (stale : U256) (result left right modulus : ν) (σ : Memory ν) :
    modAdd stale result left right modulus σ =
      Function.update σ result (EcdsaP256.modAdd (σ left) (σ right) (σ modulus)) := by
  unfold modAdd EcdsaP256.modAdd
  simp only [subRaw_eq, addRaw_eq, Function.update_self, enter_inr, ne_eq, reduceCtorEq,
    not_false_eq_true, Function.update_of_ne, leave_update_inr, leave_update_inl, leave_enter]
  split <;> rfl

theorem modSub_eq (stale : U256) (result left right modulus : ν) (σ : Memory ν) :
    modSub stale result left right modulus σ =
      Function.update σ result (EcdsaP256.modSub (σ left) (σ right) (σ modulus)) := by
  unfold modSub EcdsaP256.modSub
  simp only [subRaw_eq, Function.update_self, enter_inr, ne_eq, reduceCtorEq,
    not_false_eq_true, Function.update_of_ne, leave_update_inr, leave_update_inl, leave_enter]
  split <;> rfl

/-- What the rounds of the multiplication keep: the two locals are the loop's state on values,
and the caller's objects are unchanged. -/
structure MulFrame (σ : Memory ν) (state : U256 × U256) (τ : Memory (MulLocal ⊕ ν)) : Prop where
  accumulator : τ (.inl .accumulator) = state.1
  doubled : τ (.inl .doubled) = state.2
  caller : ∀ name, τ (.inr name) = σ name

theorem modMulRound_keeps (stale : U256) (right modulus : ν) {σ : Memory ν} {state : U256 × U256}
    {τ : Memory (MulLocal ⊕ ν)} (h : MulFrame σ state τ) (bit : Nat) :
    MulFrame σ (modMulStep (σ right) (σ modulus) state bit)
      (modMulRound stale right modulus τ bit) := by
  obtain ⟨haccumulator, hdoubled, hcaller⟩ := h
  unfold modMulRound modMulStep
  simp only [modAdd_eq, copy_eq, hcaller]
  by_cases hbit : getBit (σ right) bit = true <;> by_cases hlast : bit + 1 < 256 <;>
    simp only [hbit, hlast, if_true, if_false, Bool.false_eq_true] <;>
    constructor <;> simp [haccumulator, hdoubled, hcaller]

theorem modMulRounds_keep (stale : U256) (right modulus : ν) {σ : Memory ν} (bits : List Nat)
    {state : U256 × U256} {τ : Memory (MulLocal ⊕ ν)} (h : MulFrame σ state τ) :
    MulFrame σ (bits.foldl (modMulStep (σ right) (σ modulus)) state)
      (bits.foldl (modMulRound stale right modulus) τ) := by
  induction bits generalizing state τ with
  | nil => exact h
  | cons bit bits ih => exact ih (modMulRound_keeps stale right modulus h bit)

theorem modMul_eq (stale : U256) (result left right modulus : ν) (σ : Memory ν) :
    modMul stale result left right modulus σ =
      Function.update σ result (EcdsaP256.modMul (σ left) (σ right) (σ modulus)) := by
  have hstart : MulFrame σ (U256.clear, σ left)
      (copy (.inl .doubled) (.inr left)
        (clear (.inl MulLocal.accumulator) (enter (fun _ => stale) σ))) := by
    rw [copy_eq, clear_eq]
    constructor <;> simp
  have hfinal := modMulRounds_keep stale right modulus (List.range 256) hstart
  unfold modMul EcdsaP256.modMul
  dsimp only
  rw [copy_eq, leave_update_inr, hfinal.accumulator, leave_eq hfinal.caller]

/-- What the rounds of the exponentiation keep. -/
structure InverseFrame (σ : Memory ν) (exponent accumulator : U256)
    (τ : Memory (InverseLocal ⊕ ν)) : Prop where
  exponent : τ (.inl .exponent) = exponent
  accumulator : τ (.inl .accumulator) = accumulator
  caller : ∀ name, τ (.inr name) = σ name

theorem modInverseRound_keeps (stale : U256) (value modulus : ν) {σ : Memory ν}
    {exponent accumulator : U256} {τ : Memory (InverseLocal ⊕ ν)}
    (h : InverseFrame σ exponent accumulator τ) (bit : Nat) :
    InverseFrame σ exponent
      (modInverseStep (σ value) exponent (σ modulus) accumulator bit)
      (modInverseRound stale value modulus τ bit) := by
  obtain ⟨hexponent, haccumulator, hcaller⟩ := h
  unfold modInverseRound modInverseStep modSquare
  simp only [modMul_eq, copy_eq, hcaller, haccumulator, Function.update_self, ne_eq, reduceCtorEq,
    Sum.inl.injEq, not_false_eq_true, Function.update_of_ne, hexponent]
  by_cases hbit : getBit exponent bit = true <;>
    simp only [hbit, if_true, if_false, Bool.false_eq_true] <;>
    constructor <;> simp [hexponent, hcaller]

theorem modInverseRounds_keep (stale : U256) (value modulus : ν) {σ : Memory ν}
    {exponent accumulator : U256} (bits : List Nat) {τ : Memory (InverseLocal ⊕ ν)}
    (h : InverseFrame σ exponent accumulator τ) :
    InverseFrame σ exponent
      (bits.foldl (modInverseStep (σ value) exponent (σ modulus)) accumulator)
      (bits.foldl (modInverseRound stale value modulus) τ) := by
  induction bits generalizing accumulator τ with
  | nil => exact h
  | cons bit bits ih => exact ih (modInverseRound_keeps stale value modulus h bit)

theorem setLimb_clear (σ : Memory ν) (name : ν) (h : σ name = U256.clear) :
    setLimb σ name 0 1 = Function.update σ name U256.one := by
  unfold setLimb
  congr 1
  simp only [U256.one, U256.mk.injEq, h]
  rfl

theorem modInverse_eq (stale : U256) (result value modulus : ν) (σ : Memory ν) :
    modInverse stale result value modulus σ =
      (EcdsaP256.modInverse (σ value) (σ modulus)).elim (false, σ)
        fun inverse => (true, Function.update σ result inverse) := by
  have hstart : InverseFrame σ (subSmall (σ modulus) 2) U256.one
      (setLimb (clear (.inl .accumulator) (Function.update
        (copy (.inl InverseLocal.exponent) (.inr modulus) (enter (fun _ => stale) σ))
        (.inl .exponent) (subSmall (copy (.inl InverseLocal.exponent) (.inr modulus)
          (enter (fun _ => stale) σ) (.inl .exponent)) 2)))
        (.inl .accumulator) 0 1) := by
    rw [clear_eq, setLimb_clear _ _ (Function.update_self ..), copy_eq]
    constructor <;> simp
  have hfinal := modInverseRounds_keep stale value modulus (List.range 256).reverse hstart
  unfold modInverse EcdsaP256.modInverse
  by_cases hzero : isZero (σ value) = true
  · simp only [hzero, if_true, Option.elim_none]
  · simp only [hzero, if_false, Bool.false_eq_true, Option.elim_some]
    rw [copy_eq, leave_update_inr, hfinal.accumulator, leave_eq hfinal.caller]

end Memory

/--
Modular arithmetic is exact for either constant of the curve, whatever objects the arguments
name: the result object receives the reduced value and no other object changes.
-/
theorem modular_arithmetic_exact {ν : Type} [DecidableEq ν] (stale : U256) (σ : Memory ν)
    (result left right modulus : ν) (hmodulus : σ modulus = p ∨ σ modulus = n)
    (hleft : (σ left).value < (σ modulus).value) :
    ((σ right).value < (σ modulus).value →
      (∃ v, Memory.modAdd stale result left right modulus σ = Function.update σ result v ∧
        v.value = ((σ left).value + (σ right).value) % (σ modulus).value) ∧
      ∃ v, Memory.modSub stale result left right modulus σ = Function.update σ result v ∧
        (v.value : Int) = ((σ left).value - (σ right).value) % (σ modulus).value) ∧
    (∃ v, Memory.modMul stale result left right modulus σ = Function.update σ result v ∧
      v.value = (σ left).value * (σ right).value % (σ modulus).value) ∧
    ((σ left).value ≠ 0 →
      ∃ v, Memory.modInverse stale result left modulus σ = (true, Function.update σ result v) ∧
        v.value < (σ modulus).value ∧ (σ left).value * v.value % (σ modulus).value = 1) := by
  have hprime : (σ modulus).value.Prime := by
    cases hmodulus with
    | inl h => rw [h, p_value]; exact fieldPrime_prime
    | inr h => rw [h, n_value]; exact groupOrder_prime
  refine ⟨fun hright => ⟨⟨_, Memory.modAdd_eq .., value_modAdd hleft hright⟩,
    _, Memory.modSub_eq .., ?_⟩, ⟨_, Memory.modMul_eq .., value_modMul hleft _⟩, fun hne => ?_⟩
  · rw [value_modSub hleft hright]
    push_cast [hright.le]
    rw [← Int.add_sub_assoc, add_sub_right_comm, Int.add_emod_right]
  · obtain ⟨v, hv, hlt, hproduct⟩ := modInverse_spec hprime hleft hne
    refine ⟨v, by rw [Memory.modInverse_eq, hv, Option.elim_some], hlt, ?_⟩
    rw [← Nat.cast_mul, ← Nat.cast_one, ZMod.natCast_eq_natCast_iff, Nat.ModEq,
      Nat.mod_eq_of_lt hprime.one_lt] at hproduct
    exact hproduct

/-- With every operand the result object itself: two times two modulo the field prime. -/
theorem modular_arithmetic_exact_in_place :
    ∃ v, Memory.modMul clear false false false true
        (fun name => if name then p else addRaw one one) =
      Function.update (fun name => if name then p else addRaw one one) false v ∧
      v.value = 4 := by
  obtain ⟨-, ⟨v, hstored, hvalue⟩, -⟩ := modular_arithmetic_exact clear
    (fun name => if name then p else addRaw one one) false false false true (.inl rfl)
    (by decide +kernel)
  refine ⟨v, hstored, hvalue.trans ?_⟩
  decide +kernel

end SecureDeltaOta.EcdsaP256
