import Mathlib.Tactic

/-!
# Integers and sequences in DER

An element is a tag, the length of its content and the content. The basic rules
leave a choice: a length may be longer than it has to be, an integer may have
leading bytes that say nothing. The distinguished rules take the shortest form,
and then a value has exactly one encoding.
-/

namespace Der

/-! ## Numbers as bytes -/

/-- The number that bytes stand for, the most significant byte first. -/
def ofBytes (bytes : List UInt8) : Nat :=
  bytes.foldl (fun v byte => 256 * v + byte.toNat) 0

theorem foldl_ofBytes (bytes : List UInt8) (v : Nat) :
    bytes.foldl (fun v byte => 256 * v + byte.toNat) v =
      256 ^ bytes.length * v + ofBytes bytes := by
  induction bytes generalizing v with
  | nil => simp [ofBytes]
  | cons b bs ih =>
      have hcons : ofBytes (b :: bs) =
          bs.foldl (fun v byte => 256 * v + byte.toNat) (256 * 0 + b.toNat) := rfl
      rw [List.foldl_cons, ih, hcons, ih, List.length_cons, pow_succ]
      ring

theorem ofBytes_cons (b : UInt8) (bs : List UInt8) :
    ofBytes (b :: bs) = 256 ^ bs.length * b.toNat + ofBytes bs := by
  have hcons : ofBytes (b :: bs) =
      bs.foldl (fun v byte => 256 * v + byte.toNat) (256 * 0 + b.toNat) := rfl
  rw [hcons, foldl_ofBytes, Nat.mul_zero, Nat.zero_add]

theorem ofBytes_lt (bytes : List UInt8) : ofBytes bytes < 256 ^ bytes.length := by
  induction bytes with
  | nil => simp [ofBytes]
  | cons b bs ih =>
      have hb : b.toNat < 256 := b.toNat_lt
      rw [ofBytes_cons, List.length_cons, pow_succ]
      calc 256 ^ bs.length * b.toNat + ofBytes bs < 256 ^ bs.length * b.toNat + 256 ^ bs.length :=
            Nat.add_lt_add_left ih _
        _ = 256 ^ bs.length * (b.toNat + 1) := by ring
        _ ≤ 256 ^ bs.length * 256 := Nat.mul_le_mul_left _ (by omega)

theorem ofBytes_inj {xs ys : List UInt8} (hlength : xs.length = ys.length)
    (h : ofBytes xs = ofBytes ys) : xs = ys := by
  induction xs generalizing ys with
  | nil =>
      cases ys with
      | nil => rfl
      | cons y ys => cases hlength
  | cons x xs ih =>
      cases ys with
      | nil => cases hlength
      | cons y ys =>
          simp only [List.length_cons, Nat.add_right_cancel_iff] at hlength
          rw [ofBytes_cons, ofBytes_cons, ← hlength] at h
          have hx := ofBytes_lt xs
          have hy := ofBytes_lt ys
          rw [← hlength] at hy
          have hpos : 0 < 256 ^ xs.length := by positivity
          have hhead : x.toNat = y.toNat := by
            have hdiv := congrArg (· / 256 ^ xs.length) h
            simpa only [Nat.mul_add_div hpos, Nat.div_eq_of_lt hx, Nat.div_eq_of_lt hy,
              Nat.add_zero] using hdiv
          rw [hhead, Nat.add_left_cancel_iff] at h
          rw [UInt8.toNat_inj.1 hhead, ih hlength h]

theorem ofBytes_append (xs ys : List UInt8) :
    ofBytes (xs ++ ys) = 256 ^ ys.length * ofBytes xs + ofBytes ys := by
  rw [ofBytes, List.foldl_append, foldl_ofBytes]
  rfl

theorem ofBytes_replicate_zero (count : Nat) : ofBytes (List.replicate count 0) = 0 := by
  induction count with
  | zero => rfl
  | succ count ih => rw [List.replicate_succ, ofBytes_cons, ih]; rfl

/-- The bytes without their leading zeros, but at least one byte. -/
def stripZeros : List UInt8 → List UInt8
  | [] => []
  | [b] => [b]
  | b :: c :: rest => if b = 0 then stripZeros (c :: rest) else b :: c :: rest

/-- There is no leading zero, except for the number zero. -/
def Stripped (bytes : List UInt8) : Prop :=
  bytes ≠ [] ∧ (bytes.length = 1 ∨ bytes.headD 0 ≠ 0)

theorem ofBytes_stripZeros (bytes : List UInt8) : ofBytes (stripZeros bytes) = ofBytes bytes := by
  fun_induction stripZeros bytes with
  | case1 => rfl
  | case2 b => rfl
  | case3 c rest ih => rw [ih, ofBytes_cons 0]; simp
  | case4 b c rest hb => rfl

theorem stripped_stripZeros {bytes : List UInt8} (h : bytes ≠ []) : Stripped (stripZeros bytes) := by
  fun_induction stripZeros bytes with
  | case1 => exact absurd rfl h
  | case2 b => exact ⟨List.cons_ne_nil _ _, .inl rfl⟩
  | case3 c rest ih => exact ih (List.cons_ne_nil _ _)
  | case4 b c rest hb => exact ⟨List.cons_ne_nil _ _, .inr hb⟩

theorem stripZeros_length_le (bytes : List UInt8) : (stripZeros bytes).length ≤ bytes.length := by
  fun_induction stripZeros bytes with
  | case1 => exact le_rfl
  | case2 b => exact le_rfl
  | case3 c rest ih => exact ih.trans (Nat.le_succ _)
  | case4 b c rest hb => exact le_rfl

theorem Stripped.pow_le {bytes : List UInt8} (h : Stripped bytes) (hlong : 2 ≤ bytes.length) :
    256 ^ (bytes.length - 1) ≤ ofBytes bytes := by
  cases bytes with
  | nil => exact absurd rfl h.1
  | cons b bs =>
      rw [List.length_cons] at hlong
      have hb : b.toNat ≠ 0 := by
        intro hzero
        rcases h.2 with hone | hne
        · rw [List.length_cons] at hone
          omega
        · exact hne (UInt8.toNat_inj.1 hzero)
      rw [ofBytes_cons, List.length_cons, Nat.add_sub_cancel]
      calc 256 ^ bs.length = 256 ^ bs.length * 1 := (Nat.mul_one _).symm
        _ ≤ 256 ^ bs.length * b.toNat := Nat.mul_le_mul_left _ (by omega)
        _ ≤ 256 ^ bs.length * b.toNat + ofBytes bs := Nat.le_add_right _ _

theorem Stripped.length_le {xs ys : List UInt8} (hx : Stripped xs) (hy : ys ≠ [])
    (h : ofBytes xs ≤ ofBytes ys) : xs.length ≤ ys.length := by
  by_contra hlonger
  have hpos := List.length_pos_iff.2 hy
  have hlower := hx.pow_le (by omega)
  have hupper := ofBytes_lt ys
  have hpow : 256 ^ ys.length ≤ 256 ^ (xs.length - 1) :=
    Nat.pow_le_pow_right (by omega) (by omega)
  omega

/-- A number has one form without leading zeros. -/
theorem Stripped.unique {xs ys : List UInt8} (hx : Stripped xs) (hy : Stripped ys)
    (h : ofBytes xs = ofBytes ys) : xs = ys :=
  ofBytes_inj (le_antisymm (hx.length_le hy.1 h.le) (hy.length_le hx.1 h.ge)) h

/-! ## Integers -/

/-- The number in two's complement that the content of an INTEGER stands for. -/
def integer (content : List UInt8) : Int :=
  if (content.headD 0).toNat < 128 then ofBytes content
  else ofBytes content - 256 ^ content.length

/-- The first nine bits are not all the same. -/
def MinimalContent : List UInt8 → Prop
  | [] => False
  | [_] => True
  | b :: c :: _ => ¬ (b = 0 ∧ c.toNat < 128) ∧ ¬ (b = 0xFF ∧ 128 ≤ c.toNat)

/-- A zero byte before bytes that would stand for a negative number. -/
def pad (bytes : List UInt8) : List UInt8 :=
  if (bytes.headD 0).toNat < 128 then bytes else 0 :: bytes

/-- The content of the INTEGER for the number the bytes stand for. -/
def contentOf (bytes : List UInt8) : List UInt8 := pad (stripZeros bytes)

theorem head_lt_of_nonneg {content : List UInt8} (h : 0 ≤ integer content) :
    (content.headD 0).toNat < 128 := by
  by_contra hhigh
  have hlt := ofBytes_lt content
  rw [integer, if_neg hhigh] at h
  have hcast : ((ofBytes content : Nat) : Int) < ((256 ^ content.length : Nat) : Int) :=
    Int.ofNat_lt.2 hlt
  push_cast at hcast
  omega

theorem integer_of_nonneg {content : List UInt8} (h : 0 ≤ integer content) :
    integer content = ofBytes content := by
  rw [integer, if_pos (head_lt_of_nonneg h)]

theorem integer_contentOf (bytes : List UInt8) : integer (contentOf bytes) = ofBytes bytes := by
  unfold contentOf pad
  by_cases hlow : ((stripZeros bytes).headD 0).toNat < 128
  · rw [if_pos hlow, integer, if_pos hlow, ofBytes_stripZeros]
  · rw [if_neg hlow, integer, if_pos (by simp), ofBytes_cons, ofBytes_stripZeros]
    simp

theorem contentOf_ne_nil {bytes : List UInt8} (h : bytes ≠ []) : contentOf bytes ≠ [] := by
  unfold contentOf pad
  split
  · exact (stripped_stripZeros h).1
  · exact List.cons_ne_nil _ _

theorem minimalContent_contentOf {bytes : List UInt8} (h : bytes ≠ []) :
    MinimalContent (contentOf bytes) := by
  obtain ⟨hne, hstripped⟩ := stripped_stripZeros h
  unfold contentOf pad
  cases hbytes : stripZeros bytes with
  | nil => exact absurd hbytes hne
  | cons b bs =>
      rw [hbytes] at hstripped
      by_cases hlow : (List.headD (b :: bs) 0).toNat < 128
      · rw [if_pos hlow]
        cases bs with
        | nil => exact trivial
        | cons c cs =>
            have hb : b ≠ 0 := by simpa using hstripped
            have hfull : b ≠ 0xFF := by
              intro hequal
              rw [hequal, List.headD_cons] at hlow
              exact absurd hlow (by decide)
            exact ⟨fun hzero => hb hzero.1, fun hones => hfull hones.1⟩
      · rw [if_neg hlow]
        exact ⟨fun hzero => hlow hzero.2, fun hfull => absurd hfull.1 (by decide)⟩

theorem MinimalContent.ne_nil {content : List UInt8} (h : MinimalContent content) :
    content ≠ [] := by
  intro hnil
  rw [hnil] at h
  exact h

/-- The shortest form of a number is the one without leading zeros, padded. -/
theorem MinimalContent.eq_contentOf {content : List UInt8} (h : MinimalContent content)
    (hnonneg : 0 ≤ integer content) : content = contentOf content := by
  have hlow := head_lt_of_nonneg hnonneg
  unfold contentOf pad
  cases content with
  | nil => exact absurd rfl h.ne_nil
  | cons b bs =>
      cases bs with
      | nil => rw [stripZeros, if_pos hlow]
      | cons c rest =>
          rw [stripZeros]
          by_cases hb : b = 0
          · have hc : ¬ c.toNat < 128 := fun hc => h.1 ⟨hb, hc⟩
            have hne : c ≠ 0 := by
              intro hzero
              rw [hzero] at hc
              exact hc (by decide)
            have hstrip : stripZeros (c :: rest) = c :: rest := by
              cases rest with
              | nil => rfl
              | cons d rest => rw [stripZeros, if_neg hne]
            rw [if_pos hb, hstrip, if_neg (by simpa using hc), hb]
          · rw [if_neg hb, if_pos hlow]

theorem stripZeros_congr {xs ys : List UInt8} (hx : xs ≠ []) (hy : ys ≠ [])
    (h : ofBytes xs = ofBytes ys) : stripZeros xs = stripZeros ys :=
  (stripped_stripZeros hx).unique (stripped_stripZeros hy)
    (by rw [ofBytes_stripZeros, ofBytes_stripZeros, h])

/-- A number has one shortest form. -/
theorem MinimalContent.eq_of_integer {content bytes : List UInt8} (h : MinimalContent content)
    (hbytes : bytes ≠ []) (hvalue : integer content = ofBytes bytes) :
    content = contentOf bytes := by
  have hnonneg : 0 ≤ integer content := by
    rw [hvalue]
    exact Int.natCast_nonneg _
  have hnumber : ofBytes content = ofBytes bytes := by
    rw [integer_of_nonneg hnonneg] at hvalue
    exact Int.ofNat_inj.1 hvalue
  rw [h.eq_contentOf hnonneg, contentOf, stripZeros_congr h.ne_nil hbytes hnumber, contentOf]

/-! ## Lengths -/

/-- The octets of a length, in the short form or in the long one. -/
inductive LengthOctets : Nat → List UInt8 → Prop where
  | short {n : Nat} (h : n < 128) : LengthOctets n [UInt8.ofNat n]
  | long {octets : List UInt8} (hpos : 1 ≤ octets.length) (hle : octets.length ≤ 126) :
      LengthOctets (ofBytes octets) (UInt8.ofNat (128 + octets.length) :: octets)

/-- The shortest form of a length. -/
inductive MinimalLength : Nat → List UInt8 → Prop where
  | short {n : Nat} (h : n < 128) : MinimalLength n [UInt8.ofNat n]
  | long {octets : List UInt8} (hle : octets.length ≤ 126) (hlead : octets.headD 0 ≠ 0)
      (h : 128 ≤ ofBytes octets) :
      MinimalLength (ofBytes octets) (UInt8.ofNat (128 + octets.length) :: octets)

theorem toNat_ofNat_of_lt {n : Nat} (h : n < 256) : (UInt8.ofNat n).toNat = n := by
  rw [UInt8.toNat_ofNat']
  exact Nat.mod_eq_of_lt h

theorem MinimalLength.octets {n : Nat} {octets : List UInt8} (h : MinimalLength n octets) :
    LengthOctets n octets := by
  cases h with
  | short h => exact .short h
  | @long octets hle hlead h =>
      refine .long ?_ hle
      cases octets with
      | nil => exact absurd h (by decide)
      | cons b bs => exact Nat.le_add_left _ _

/-- The octets of a length tell where they end. -/
theorem LengthOctets.eq_of_append {n m : Nat} {xs ys us vs : List UInt8} (hx : LengthOctets n xs)
    (hy : LengthOctets m ys) (h : xs ++ us = ys ++ vs) : n = m ∧ us = vs := by
  cases hx with
  | short hn =>
      cases hy with
      | short hm =>
          obtain ⟨hhead, htail⟩ := List.cons.inj h
          have hvalue := congrArg UInt8.toNat hhead
          rw [toNat_ofNat_of_lt (by omega), toNat_ofNat_of_lt (by omega)] at hvalue
          exact ⟨hvalue, htail⟩
      | long hpos hle =>
          have hvalue := congrArg UInt8.toNat (List.cons.inj h).1
          rw [toNat_ofNat_of_lt (by omega), toNat_ofNat_of_lt (by omega)] at hvalue
          omega
  | @long octets hpos hle =>
      cases hy with
      | short hm =>
          have hvalue := congrArg UInt8.toNat (List.cons.inj h).1
          rw [toNat_ofNat_of_lt (by omega), toNat_ofNat_of_lt (by omega)] at hvalue
          omega
      | @long octets' hpos' hle' =>
          obtain ⟨hhead, htail⟩ := List.cons.inj h
          have hvalue := congrArg UInt8.toNat hhead
          rw [toNat_ofNat_of_lt (by omega), toNat_ofNat_of_lt (by omega)] at hvalue
          obtain ⟨hoctets, hrest⟩ := List.append_inj htail (by omega)
          exact ⟨by rw [hoctets], hrest⟩

/-- A length has one shortest form. -/
theorem MinimalLength.unique {n : Nat} {xs ys : List UInt8} (hx : MinimalLength n xs)
    (hy : MinimalLength n ys) : xs = ys := by
  have hstripped {octets : List UInt8} (hlead : octets.headD 0 ≠ 0) : Stripped octets := by
    refine ⟨fun hnil => ?_, .inr hlead⟩
    rw [hnil] at hlead
    exact hlead rfl
  generalize hm : n = m at hy
  cases hx with
  | short hn =>
      cases hy with
      | short hm' => rw [hm]
      | long hle hlead h => omega
  | @long octets hle hlead h =>
      cases hy with
      | short hm' => omega
      | @long octets' hle' hlead' h' =>
          rw [(hstripped hlead).unique (hstripped hlead') hm]

/-! ## Elements -/

/-- An element with a length in the given form. -/
def Element (form : Nat → List UInt8 → Prop) (tag : UInt8) (content bytes : List UInt8) : Prop :=
  ∃ octets, form content.length octets ∧ bytes = tag :: (octets ++ content)

/-- An element tells where it ends. -/
theorem element_eq_of_append {tag : UInt8} {xs ys us vs content content' : List UInt8}
    (hx : Element LengthOctets tag content xs) (hy : Element LengthOctets tag content' ys)
    (h : xs ++ us = ys ++ vs) : content = content' ∧ us = vs := by
  obtain ⟨octets, hoctets, rfl⟩ := hx
  obtain ⟨octets', hoctets', rfl⟩ := hy
  simp only [List.cons_append, List.cons.injEq, true_and, List.append_assoc] at h
  obtain ⟨hlength, hrest⟩ := hoctets.eq_of_append hoctets' h
  exact List.append_inj hrest hlength

theorem element_inj {tag : UInt8} {bytes content content' : List UInt8}
    (h : Element LengthOctets tag content bytes) (h' : Element LengthOctets tag content' bytes) :
    content = content' := by
  have hsame : bytes ++ [] = bytes ++ [] := rfl
  exact (element_eq_of_append h h' hsame).1

theorem element_unique {tag : UInt8} {xs ys content : List UInt8}
    (hx : Element MinimalLength tag content xs) (hy : Element MinimalLength tag content ys) :
    xs = ys := by
  obtain ⟨octets, hoctets, rfl⟩ := hx
  obtain ⟨octets', hoctets', rfl⟩ := hy
  rw [hoctets.unique hoctets']

theorem element_of_minimal {tag : UInt8} {content bytes : List UInt8}
    (h : Element MinimalLength tag content bytes) : Element LengthOctets tag content bytes := by
  obtain ⟨octets, hoctets, rfl⟩ := h
  exact ⟨octets, hoctets.octets, rfl⟩

/-! ## A sequence of two integers -/

/-- An encoding of two integers by the basic rules. -/
def EncodesPair (r s : Int) (bytes : List UInt8) : Prop :=
  ∃ first second firstContent secondContent,
    firstContent ≠ [] ∧ integer firstContent = r ∧ Element LengthOctets 0x02 firstContent first ∧
    secondContent ≠ [] ∧ integer secondContent = s ∧
    Element LengthOctets 0x02 secondContent second ∧
    Element LengthOctets 0x30 (first ++ second) bytes

/-- The encoding of two integers by the distinguished rules. -/
def MinimalPair (r s : Int) (bytes : List UInt8) : Prop :=
  ∃ first second firstContent secondContent,
    MinimalContent firstContent ∧ integer firstContent = r ∧
    Element MinimalLength 0x02 firstContent first ∧
    MinimalContent secondContent ∧ integer secondContent = s ∧
    Element MinimalLength 0x02 secondContent second ∧
    Element MinimalLength 0x30 (first ++ second) bytes

theorem MinimalPair.encodes {r s : Int} {bytes : List UInt8} (h : MinimalPair r s bytes) :
    EncodesPair r s bytes := by
  obtain ⟨first, second, c, c', hc, hr, hfirst, hc', hs, hsecond, hbytes⟩ := h
  exact ⟨first, second, c, c', hc.ne_nil, hr, element_of_minimal hfirst, hc'.ne_nil, hs,
    element_of_minimal hsecond, element_of_minimal hbytes⟩

/-- The bytes determine the integers. -/
theorem EncodesPair.inj {r s r' s' : Int} {bytes : List UInt8} (h : EncodesPair r s bytes)
    (h' : EncodesPair r' s' bytes) : r = r' ∧ s = s' := by
  obtain ⟨first, second, c, d, -, hr, hfirst, -, hs, hsecond, hbytes⟩ := h
  obtain ⟨first', second', c', d', -, hr', hfirst', -, hs', hsecond', hbytes'⟩ := h'
  obtain ⟨hc, hrest⟩ := element_eq_of_append hfirst hfirst' (element_inj hbytes hbytes')
  rw [hrest] at hsecond
  rw [← hr, ← hr', ← hs, ← hs', hc, element_inj hsecond hsecond']
  exact ⟨rfl, rfl⟩

/-- Two numbers have one encoding by the distinguished rules. -/
theorem MinimalPair.unique {xs ys bytes bytes' : List UInt8} (hx : xs ≠ []) (hy : ys ≠ [])
    (h : MinimalPair (ofBytes xs) (ofBytes ys) bytes)
    (h' : MinimalPair (ofBytes xs) (ofBytes ys) bytes') : bytes = bytes' := by
  obtain ⟨first, second, c, d, hc, hr, hfirst, hd, hs, hsecond, hbytes⟩ := h
  obtain ⟨first', second', c', d', hc', hr', hfirst', hd', hs', hsecond', hbytes'⟩ := h'
  rw [hc.eq_of_integer hx hr] at hfirst
  rw [hc'.eq_of_integer hx hr'] at hfirst'
  rw [hd.eq_of_integer hy hs] at hsecond
  rw [hd'.eq_of_integer hy hs'] at hsecond'
  rw [element_unique hfirst hfirst', element_unique hsecond hsecond'] at hbytes
  exact element_unique hbytes hbytes'

end Der
