import Mathlib.Data.Nat.Nth
import Mathlib.Data.Nat.Prime.Nth
import Mathlib.Tactic.Ring

/-!
# SHA-256 as the standard defines it

FIPS 180-4 on bit strings: padding (5.1.1), parsing (5.2.1), the functions on
words (4.1.2), the constants as the leading fractional bits of roots of primes
(4.2.2, 5.3.3), and the computation of the hash value (6.2.2).
-/

namespace Fips180

abbrev Bits := List Bool

abbrev Word := BitVec 32

/-! ## Numbers and bit strings -/

/-- A number as a bit string of the given length, most significant bit first. -/
def binary (width n : Nat) : Bits :=
  (List.range width).map fun i => n.testBit (width - 1 - i)

/-- The number a bit string stands for. -/
def number (bits : Bits) : Nat :=
  bits.foldl (fun n bit => 2 * n + bit.toNat) 0

def word (bits : Bits) : Word := BitVec.ofNat 32 (number bits)

@[simp] theorem binary_length (width n : Nat) : (binary width n).length = width := by
  simp [binary]

theorem binary_add (m n k : Nat) : binary (m + n) k = binary m (k / 2 ^ n) ++ binary n k := by
  apply List.ext_getElem
  · simp
  · intro i hi hi'
    simp only [binary_length] at hi
    rw [List.getElem_append]
    split
    · next hlow =>
      simp only [binary_length] at hlow
      simp only [binary, List.getElem_map, List.getElem_range, Nat.testBit_div_two_pow]
      congr 1
      omega
    · next hhigh =>
      simp only [binary_length] at hhigh ⊢
      simp only [binary, List.getElem_map, List.getElem_range]
      congr 1
      omega

theorem binary_mod (width n : Nat) : binary width (n % 2 ^ width) = binary width n := by
  unfold binary
  refine List.map_congr_left fun i hi => ?_
  have hi := List.mem_range.1 hi
  rw [Nat.testBit_mod_two_pow, decide_eq_true (by omega), Bool.true_and]

theorem foldl_number (bits : Bits) (n : Nat) :
    bits.foldl (fun n bit => 2 * n + bit.toNat) n = n * 2 ^ bits.length + number bits := by
  unfold number
  induction bits generalizing n with
  | nil => simp
  | cons bit bits ih =>
      rw [List.foldl_cons, List.foldl_cons, ih, ih (2 * 0 + bit.toNat), List.length_cons, pow_succ]
      ring

theorem number_append (xs ys : Bits) : number (xs ++ ys) = number xs * 2 ^ ys.length + number ys := by
  rw [number, List.foldl_append, foldl_number]
  rfl

theorem number_binary (width n : Nat) : number (binary width n) = n % 2 ^ width := by
  induction width generalizing n with
  | zero => simp [binary, number, Nat.mod_one]
  | succ width ih =>
      rw [binary_add, number_append, ih, binary_length, Nat.pow_one]
      have hbit : number (binary 1 n) = n % 2 := by
        rcases Nat.mod_two_eq_zero_or_one n with h | h <;> simp [binary, number, h]
      rw [hbit, pow_succ, Nat.mul_comm (2 ^ width) 2, Nat.mod_mul]
      ring

/-! ## Functions on words -/

def rotr (n : Nat) (x : Word) : Word := (x >>> n) ||| (x <<< (32 - n))

def shr (n : Nat) (x : Word) : Word := x >>> n

def ch (x y z : Word) : Word := (x &&& y) ^^^ (~~~x &&& z)

def maj (x y z : Word) : Word := (x &&& y) ^^^ (x &&& z) ^^^ (y &&& z)

def bigSigma0 (x : Word) : Word := rotr 2 x ^^^ rotr 13 x ^^^ rotr 22 x

def bigSigma1 (x : Word) : Word := rotr 6 x ^^^ rotr 11 x ^^^ rotr 25 x

def smallSigma0 (x : Word) : Word := rotr 7 x ^^^ rotr 18 x ^^^ shr 3 x

def smallSigma1 (x : Word) : Word := rotr 17 x ^^^ rotr 19 x ^^^ shr 10 x

/-! ## Constants -/

/-- The first 32 bits of the fractional part of the `e`-th root of `p`. -/
def rootBits (e p : Nat) : Word :=
  BitVec.ofNat 32 (Nat.findGreatest (fun r => r ^ e ≤ p * 2 ^ (32 * e)) (p * 2 ^ 32))

/-- A root lies between a number and the next one. -/
theorem rootBits_eq {e p r : Nat} (hlow : r ^ e ≤ p * 2 ^ (32 * e))
    (hhigh : p * 2 ^ (32 * e) < (r + 1) ^ e) (hbound : r ≤ p * 2 ^ 32) :
    rootBits e p = BitVec.ofNat 32 r := by
  unfold rootBits
  congr 1
  refine Nat.le_antisymm ?_ (Nat.le_findGreatest hbound hlow)
  by_contra hgt
  have hspec : (Nat.findGreatest (fun r => r ^ e ≤ p * 2 ^ (32 * e)) (p * 2 ^ 32)) ^ e ≤
      p * 2 ^ (32 * e) := Nat.findGreatest_spec (P := fun r => r ^ e ≤ p * 2 ^ (32 * e)) hbound hlow
  have hmono := Nat.pow_le_pow_left (Nat.lt_of_not_le hgt) e
  exact absurd (hmono.trans hspec) (not_le.2 hhigh)

/-- `K` of round `t`. -/
noncomputable def constant (t : Nat) : Word := rootBits 3 (Nat.nth Nat.Prime t)

/-- Word `i` of the initial hash value. -/
noncomputable def initialWord (i : Nat) : Word := rootBits 2 (Nat.nth Nat.Prime i)

/-- The first 64 primes. -/
def primes : List Nat :=
  [2, 3, 5, 7, 11, 13, 17, 19, 23, 29, 31, 37, 41, 43, 47, 53, 59, 61, 67, 71, 73, 79, 83, 89, 97,
   101, 103, 107, 109, 113, 127, 131, 137, 139, 149, 151, 157, 163, 167, 173, 179, 181, 191, 193,
   197, 199, 211, 223, 227, 229, 233, 239, 241, 251, 257, 263, 269, 271, 277, 281, 283, 293, 307,
   311]

/-- Trial division by the numbers below 18. -/
def trial (n : Nat) : Bool :=
  Nat.ble 2 n && (List.range 18).all fun m => Nat.ble m 1 || Nat.blt n (m * m) || (n % m != 0)

/-- It decides the primes below 324. -/
theorem prime_iff_trial {n : Nat} (h : n < 324) : n.Prime ↔ trial n = true := by
  have htrial : trial n = true ↔ 2 ≤ n ∧ ∀ m < 18, 2 ≤ m → m * m ≤ n → n % m ≠ 0 := by
    simp only [trial, Bool.and_eq_true, Nat.ble_eq, List.all_eq_true, List.mem_range,
      Bool.or_eq_true, Nat.blt_eq, bne_iff_ne]
    refine and_congr_right fun _ => forall₂_congr fun m _ => ⟨fun h hm hle => ?_, fun h => ?_⟩
    · rcases h with (h | h) | h
      · omega
      · omega
      · exact h
    · by_cases hm : 2 ≤ m
      · by_cases hle : m * m ≤ n
        · exact .inr (h hm hle)
        · exact .inl (.inr (by omega))
      · exact .inl (.inl (by omega))
  rw [htrial, Nat.prime_def_le_sqrt]
  refine and_congr_right fun _ => ⟨fun hn m _ hm hle hmod => ?_, fun hn m hm hle hdvd => ?_⟩
  · exact hn m hm (Nat.le_sqrt.2 hle) (Nat.dvd_of_mod_eq_zero hmod)
  · have hsq := Nat.le_sqrt.1 hle
    have hlt : m < 18 := by
      by_contra hge
      have hbig := Nat.mul_le_mul (not_lt.1 hge) (not_lt.1 hge)
      omega
    exact hn m hlt hm hsq (Nat.mod_eq_zero_of_dvd hdvd)

/-- Between two entries of the table there is no prime. -/
theorem count_prime {t : Nat} (ht : t < 64) : Nat.count Nat.Prime (primes.getD t 0) = t := by
  induction t with
  | zero => decide +kernel
  | succ t ih =>
      have hgap : ∀ t < 63, primes.getD t 0 ≤ primes.getD (t + 1) 0 ∧ primes.getD (t + 1) 0 < 312 ∧
          ((List.range (primes.getD (t + 1) 0 - primes.getD t 0)).filter
            fun k => trial (primes.getD t 0 + k)) = [0] := by decide +kernel
      obtain ⟨hle, hlt, hfilter⟩ := hgap t (by omega)
      obtain ⟨gap, hsum⟩ := Nat.exists_eq_add_of_le hle
      rw [hsum, Nat.add_sub_cancel_left] at hfilter
      rw [hsum, Nat.count_add, ih (by omega), Nat.add_left_cancel_iff, Nat.count,
        List.countP_eq_length_filter]
      refine (congrArg List.length (?_ : _ = [0])).trans rfl
      rw [← hfilter]
      refine List.filter_congr fun k hk => ?_
      have hk := List.mem_range.1 hk
      rw [Bool.eq_iff_iff, decide_eq_true_iff]
      exact prime_iff_trial (by omega)

theorem nth_prime {t : Nat} (ht : t < 64) : Nat.nth Nat.Prime t = primes.getD t 0 := by
  have hprime : ∀ t < 64, primes.getD t 0 < 312 ∧ trial (primes.getD t 0) = true := by
    decide +kernel
  obtain ⟨hlt, htrial⟩ := hprime t ht
  rw [← Nat.nth_count ((prime_iff_trial (by omega)).2 htrial), count_prime ht]

/-! ## The hash computation -/

/-- The least `k` with `l + 1 + k ≡ 448 (mod 512)`. -/
def zeros (l : Nat) : Nat := (448 + 512 - (l + 1) % 512) % 512

theorem zeros_solves (l : Nat) : (l + 1 + zeros l) % 512 = 448 := by
  unfold zeros
  omega

theorem zeros_least {l k : Nat} (h : (l + 1 + k) % 512 = 448) : zeros l ≤ k := by
  unfold zeros
  omega

def pad (message : Bits) : Bits :=
  message ++ true :: List.replicate (zeros message.length) false ++ binary 64 message.length

/-- Block `i` of a padded message. -/
def block (padded : Bits) (i : Nat) : Bits := (padded.drop (512 * i)).take 512

/-- Word `t` of a block. -/
def blockWord (bits : Bits) (t : Nat) : Word := word ((bits.drop (32 * t)).take 32)

/-- The message schedule. -/
def schedule (M : Nat → Word) (t : Nat) : Word :=
  if t < 16 then M t
  else smallSigma1 (schedule M (t - 2)) + schedule M (t - 7) + smallSigma0 (schedule M (t - 15)) +
    schedule M (t - 16)

/-- The working variables, and the words of a hash value. -/
structure Work where
  a : Word
  b : Word
  c : Word
  d : Word
  e : Word
  f : Word
  g : Word
  h : Word

def step (v : Work) (k w : Word) : Work :=
  let t₁ := v.h + bigSigma1 v.e + ch v.e v.f v.g + k + w
  let t₂ := bigSigma0 v.a + maj v.a v.b v.c
  ⟨t₁ + t₂, v.a, v.b, v.c, v.d + t₁, v.e, v.f, v.g⟩

/-- The working variables after some rounds. -/
noncomputable def rounds (H : Work) (M : Nat → Word) : Nat → Work
  | 0 => H
  | t + 1 => step (rounds H M t) (constant t) (schedule M t)

def Work.add (v w : Work) : Work :=
  ⟨v.a + w.a, v.b + w.b, v.c + w.c, v.d + w.d, v.e + w.e, v.f + w.f, v.g + w.g, v.h + w.h⟩

noncomputable def compress (H : Work) (bits : Bits) : Work :=
  (rounds H (blockWord bits) 64).add H

noncomputable def initialValue : Work :=
  ⟨initialWord 0, initialWord 1, initialWord 2, initialWord 3, initialWord 4, initialWord 5,
    initialWord 6, initialWord 7⟩

/-- The hash value after all blocks. -/
noncomputable def hashValue (message : Bits) : Work :=
  (List.range ((pad message).length / 512)).foldl
    (fun H i => compress H (block (pad message) i)) initialValue

def Work.bits (v : Work) : Bits :=
  [v.a, v.b, v.c, v.d, v.e, v.f, v.g, v.h].flatMap fun w => binary 32 w.toNat

/-- The message digest. -/
noncomputable def sha256 (message : Bits) : Bits := (hashValue message).bits

theorem schedule_lt (M : Nat → Word) {t : Nat} (h : t < 16) : schedule M t = M t := by
  rw [schedule, if_pos h]

theorem schedule_ge (M : Nat → Word) {t : Nat} (h : 16 ≤ t) :
    schedule M t = smallSigma1 (schedule M (t - 2)) + schedule M (t - 7) +
      smallSigma0 (schedule M (t - 15)) + schedule M (t - 16) := by
  rw [schedule, if_neg (by omega)]

end Fips180
