import Mathlib.Data.List.Dedup
import Mathlib.Data.List.Prime
import Mathlib.NumberTheory.LucasPrimality
import Mathlib.Tactic.Ring

/-!
# Powers by squaring, and primes with a certificate

A number is prime if a base has the order of the multiplicative group. The
certificate of a prime is such a base and the prime factors of its predecessor,
which come before it in a list; the powers are taken by squaring, so that the
kernel can evaluate the check for primes of some hundred bits.
-/

namespace Powers

/-! ## Binary numbers -/

/-- The number with the given bits, the most significant one first. -/
def value (bits : List Bool) : Nat :=
  bits.foldl (fun v bit => 2 * v + bit.toNat) 0

/-- The bits of a number below `2 ^ width`, the most significant one first. -/
def binary (width n : Nat) : List Bool :=
  (List.range width).reverse.map n.testBit

theorem binary_succ (width n : Nat) : binary (width + 1) n = n.testBit width :: binary width n := by
  rw [binary, List.range_succ, List.reverse_append]
  rfl

theorem foldl_binary (width n v : Nat) :
    (binary width n).foldl (fun v bit => 2 * v + bit.toNat) v =
      2 ^ width * v + n % 2 ^ width := by
  induction width generalizing v with
  | zero => simp [binary, Nat.mod_one]
  | succ width ih =>
      rw [binary_succ, List.foldl_cons, ih, Nat.toNat_testBit, Nat.mod_pow_succ]
      ring

theorem value_binary {width n : Nat} (h : n < 2 ^ width) : value (binary width n) = n := by
  rw [value, foldl_binary, Nat.mod_eq_of_lt h, Nat.mul_zero, Nat.zero_add]

/-! ## Powers -/

section

variable {M : Type*} [Monoid M]

/-- One bit of the exponent is consumed. -/
def powerStep (x accumulator : M) (bit : Bool) : M :=
  if bit then accumulator * accumulator * x else accumulator * accumulator

/-- The power of `x` with the given bits of the exponent. -/
def power (x : M) (bits : List Bool) : M :=
  bits.foldl (powerStep x) 1

theorem powerStep_pow (x : M) (k : Nat) (bit : Bool) :
    powerStep x (x ^ k) bit = x ^ (2 * k + bit.toNat) := by
  cases bit with
  | false => simp [powerStep, two_mul, pow_add]
  | true => simp [powerStep, two_mul, pow_add]

theorem foldl_powerStep (x : M) (bits : List Bool) (k : Nat) :
    bits.foldl (powerStep x) (x ^ k) =
      x ^ bits.foldl (fun v bit => 2 * v + bit.toNat) k := by
  induction bits generalizing k with
  | nil => rfl
  | cons bit bits ih => rw [List.foldl_cons, List.foldl_cons, powerStep_pow, ih]

theorem power_eq (x : M) (bits : List Bool) : power x bits = x ^ value bits := by
  have h := foldl_powerStep x bits 0
  rw [pow_zero] at h
  exact h

theorem power_binary (x : M) {width n : Nat} (h : n < 2 ^ width) :
    power x (binary width n) = x ^ n := by
  rw [power_eq, value_binary h]

end

end Powers

namespace Primality

open Powers

/-- A prime, a base of full order, and the prime factors of the predecessor of the prime. -/
structure Certificate where
  prime : Nat
  base : Nat
  factors : List Nat

/-- The power of the base, for exponents below the prime. -/
def Certificate.power (c : Certificate) (n : Nat) : ZMod c.prime :=
  Powers.power (c.base : ZMod c.prime) (binary (c.prime.log2 + 1) n)

/-- The base has full order, if the factors are prime. -/
def Certificate.hasFullOrder (c : Certificate) : Bool :=
  c.prime - 1 < 2 ^ (c.prime.log2 + 1) && c.factors.prod = c.prime - 1 &&
    c.power (c.prime - 1) = 1 && c.factors.dedup.all fun q => c.power ((c.prime - 1) / q) ≠ 1

/-- Every certificate of the list rests on known primes and on those before it. -/
def check : List Nat → List Certificate → Bool
  | _, [] => true
  | known, c :: cs =>
      c.factors.all (fun q => q ∈ known) && c.hasFullOrder && check (c.prime :: known) cs

theorem Certificate.prime_of_hasFullOrder {c : Certificate} (hfactors : ∀ q ∈ c.factors, q.Prime)
    (h : c.hasFullOrder = true) : c.prime.Prime := by
  simp only [Certificate.hasFullOrder, Bool.and_eq_true, decide_eq_true_eq, List.all_eq_true,
    List.mem_dedup] at h
  obtain ⟨⟨⟨hwidth, hproduct⟩, hone⟩, hproper⟩ := h
  rw [Certificate.power, power_binary _ hwidth] at hone
  refine lucas_primality c.prime c.base hone fun q hq hdvd => ?_
  -- a prime that divides the product is one of the factors
  rw [← hproduct] at hdvd
  obtain ⟨q', hmem, hdvd'⟩ := (Prime.dvd_prod_iff hq.prime).1 hdvd
  obtain rfl : q = q' := (Nat.prime_dvd_prime_iff_eq hq (hfactors q' hmem)).1 hdvd'
  have hne := hproper q hmem
  rwa [Certificate.power, power_binary _ ((Nat.div_le_self _ _).trans_lt hwidth)] at hne

theorem prime_of_check {known : List Nat} {cs : List Certificate}
    (hknown : ∀ q ∈ known, q.Prime) (h : check known cs = true) :
    ∀ c ∈ cs, c.prime.Prime := by
  induction cs generalizing known with
  | nil => exact fun c hc => absurd hc List.not_mem_nil
  | cons c cs ih =>
      simp only [check, Bool.and_eq_true, List.all_eq_true, decide_eq_true_eq] at h
      obtain ⟨⟨hfactors, horder⟩, hrest⟩ := h
      have hprime := c.prime_of_hasFullOrder (fun q hq => hknown q (hfactors q hq)) horder
      have hmore : ∀ q ∈ c.prime :: known, q.Prime := by
        intro q hq
        rcases List.mem_cons.1 hq with rfl | hq
        · exact hprime
        · exact hknown q hq
      intro d hd
      rcases List.mem_cons.1 hd with rfl | hd
      · exact hprime
      · exact ih hmore hrest d hd

end Primality
