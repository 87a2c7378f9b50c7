import Mathlib.Tactic

/-!
# Linear feedback shift registers

A register of `w` bits takes a message one bit at a time: the bit is added to the
lowest place and the register is shifted down, with feedback. The shift is linear
and loses nothing. So two messages of one length leave the same register only if
their difference leaves zero, and a difference within `w` consecutive bits never
does.
-/

namespace ShiftRegister

variable {w : Nat}

/-- The shifts of such registers. -/
structure Feedback (step : BitVec w → BitVec w) : Prop where
  xor : ∀ a b, step (a ^^^ b) = step a ^^^ step b
  /-- There is no feedback when the bit that leaves the register is clear. -/
  shift : ∀ c : BitVec w, c.getLsbD 0 = false → step c = c >>> 1
  nonzero : ∀ c, step c = 0#w → c = 0#w

def lowest (bit : Bool) : BitVec w := (BitVec.ofBool bit).setWidth w

def feed (step : BitVec w → BitVec w) (c : BitVec w) (bits : List Bool) : BitVec w :=
  bits.foldl (fun c bit => step (c ^^^ lowest bit)) c

/-- The register with the given bits in its lowest places, the first one lowest. -/
def ofBits : List Bool → BitVec w
  | [] => 0#w
  | bit :: bits => lowest bit ^^^ (ofBits bits <<< 1)

theorem feed_append (step : BitVec w → BitVec w) (c : BitVec w) (xs ys : List Bool) :
    feed step c (xs ++ ys) = feed step (feed step c xs) ys :=
  List.foldl_append

theorem lowest_false : (lowest false : BitVec w) = 0#w := by
  ext i hi
  simp [lowest]

theorem lowest_xor (a b : Bool) : (lowest (a ^^ b) : BitVec w) = lowest a ^^^ lowest b := by
  cases a <;> cases b <;> simp [lowest]

theorem getLsbD_lowest (bit : Bool) {i : Nat} (h : i < w) :
    (lowest bit : BitVec w).getLsbD i = (bit && decide (i = 0)) := by
  cases i with
  | zero => simp [lowest, h]
  | succ i => simp [lowest]

theorem getLsbD_ofBits {bits : List Bool} (h : bits.length ≤ w) (i : Nat) :
    (ofBits bits : BitVec w).getLsbD i = bits.getD i false := by
  induction bits generalizing i with
  | nil => simp [ofBits]
  | cons bit bits ih =>
      rw [List.length_cons] at h
      rw [ofBits, BitVec.getLsbD_xor, BitVec.getLsbD_shiftLeft]
      cases i with
      | zero => simp [getLsbD_lowest bit (show 0 < w by omega)]
      | succ i =>
          by_cases hi : i + 1 < w
          · rw [getLsbD_lowest bit hi, Nat.add_sub_cancel, ih (by omega) i]
            simp [hi]
          · simp [lowest, hi, show bits.length ≤ i by omega]

section Register

variable {step : BitVec w → BitVec w}

theorem Feedback.zero (h : Feedback step) : step 0#w = 0#w := by
  have hsum := h.xor 0#w 0#w
  simpa using hsum

theorem Feedback.iterate_nonzero (h : Feedback step) (n : Nat) {c : BitVec w} (hc : c ≠ 0#w) :
    step^[n] c ≠ 0#w := by
  induction n generalizing c with
  | zero => exact hc
  | succ n ih =>
      rw [Function.iterate_succ_apply]
      exact ih (fun hzero => hc (h.nonzero c hzero))

/-- As long as no bit of the message has left the register, it can be added all at once. -/
theorem Feedback.feed_eq (h : Feedback step) {bits : List Bool} (hlength : bits.length ≤ w)
    (c : BitVec w) : feed step c bits = step^[bits.length] (c ^^^ ofBits bits) := by
  induction bits generalizing c with
  | nil => simp [feed, ofBits]
  | cons bit bits ih =>
      rw [List.length_cons] at hlength
      have hshift : step (ofBits bits <<< 1) = ofBits bits := by
        rw [h.shift _ (by simp)]
        ext i hi
        simp only [BitVec.getElem_ushiftRight, BitVec.getLsbD_shiftLeft]
        by_cases hlast : 1 + i < w
        · simp [hlast, BitVec.getLsbD_eq_getElem hi]
        · have hclear := getLsbD_ofBits (w := w) (show bits.length ≤ w by omega) i
          rw [List.getD_eq_getElem?_getD, List.getElem?_eq_none (show bits.length ≤ i by omega)]
            at hclear
          simp [hlast, ← BitVec.getLsbD_eq_getElem hi, hclear]
      have hstep : feed step c (bit :: bits) = feed step (step (c ^^^ lowest bit)) bits := rfl
      rw [hstep, ih (by omega), ofBits, List.length_cons, Function.iterate_succ_apply,
        ← BitVec.xor_assoc, h.xor (c ^^^ lowest bit), hshift]

theorem feed_zeros (step : BitVec w → BitVec w) (c : BitVec w) (n : Nat) :
    feed step c (List.replicate n false) = step^[n] c := by
  induction n generalizing c with
  | zero => rfl
  | succ n ih =>
      rw [List.replicate_succ, Function.iterate_succ_apply, ← ih]
      simp only [feed, List.foldl_cons, lowest_false, BitVec.xor_zero]

/-- The register is linear in its contents and in the message. -/
theorem Feedback.feed_xor (h : Feedback step) {xs ys : List Bool} (hlength : xs.length = ys.length)
    (a b : BitVec w) :
    feed step (a ^^^ b) (List.zipWith (· ^^ ·) xs ys) = feed step a xs ^^^ feed step b ys := by
  induction xs generalizing ys a b with
  | nil =>
      cases ys with
      | nil => rfl
      | cons y ys => cases hlength
  | cons x xs ih =>
      cases ys with
      | nil => cases hlength
      | cons y ys =>
          simp only [List.length_cons, Nat.add_right_cancel_iff] at hlength
          have hregister : a ^^^ b ^^^ lowest (x ^^ y) = (a ^^^ lowest x) ^^^ (b ^^^ lowest y) := by
            rw [lowest_xor]
            ac_rfl
          have hrest := ih hlength (step (a ^^^ lowest x)) (step (b ^^^ lowest y))
          rw [← h.xor, ← hregister] at hrest
          exact hrest

/-- A stretch of clear bits. -/
theorem eq_replicate_of_clear (bits : List Bool) (h : ∀ i, bits.getD i false = false) :
    bits = List.replicate bits.length false := by
  refine List.eq_replicate_iff.2 ⟨rfl, fun bit hbit => ?_⟩
  obtain ⟨i, hi, rfl⟩ := List.getElem_of_mem hbit
  have hclear := h i
  rwa [List.getD_eq_getElem?_getD, List.getElem?_eq_getElem hi] at hclear

/-- A burst leaves a nonzero register. -/
theorem Feedback.feed_burst (h : Feedback step) {bits : List Bool} (hset : true ∈ bits) {s : Nat}
    (hburst : ∀ i, bits.getD i false = true → s ≤ i ∧ i < s + w) : feed step 0#w bits ≠ 0#w := by
  have hclear (i : Nat) (hi : ¬ (s ≤ i ∧ i < s + w)) : bits.getD i false = false := by
    by_contra hbit
    exact hi (hburst i (Bool.eq_true_of_not_eq_false hbit))
  have hbefore := eq_replicate_of_clear (bits.take s) fun i => by
    by_cases hi : i < s
    · have hbit := hclear i (by omega)
      simpa [List.getD_eq_getElem?_getD, List.getElem?_take, hi] using hbit
    · simp [hi]
  have hafter := eq_replicate_of_clear ((bits.drop s).drop w) fun i => by
    have hbit := hclear (s + (w + i)) (by omega)
    simpa [List.getD_eq_getElem?_getD, List.getElem?_drop, Nat.add_assoc] using hbit
  have hsplit : bits = bits.take s ++ ((bits.drop s).take w ++ (bits.drop s).drop w) := by
    rw [List.take_append_drop, List.take_append_drop]
  -- the set bit is neither before nor after the window
  have hwindow : true ∈ (bits.drop s).take w := by
    rw [hsplit, List.mem_append, List.mem_append, hbefore, hafter] at hset
    simpa using hset
  have hne : (ofBits ((bits.drop s).take w) : BitVec w) ≠ 0#w := by
    intro hzero
    obtain ⟨i, hi, hbit⟩ := List.getElem_of_mem hwindow
    have hget := getLsbD_ofBits (w := w) (List.length_take_le w (bits.drop s)) i
    rw [hzero, List.getD_eq_getElem?_getD, List.getElem?_eq_getElem hi, hbit] at hget
    simp at hget
  have hzeros (n : Nat) : step^[n] 0#w = 0#w := Function.iterate_fixed h.zero n
  rw [hsplit, feed_append, feed_append, hbefore, hafter, feed_zeros, feed_zeros, hzeros,
    h.feed_eq (List.length_take_le w _), BitVec.zero_xor]
  exact h.iterate_nonzero _ (h.iterate_nonzero _ hne)

end Register

end ShiftRegister
