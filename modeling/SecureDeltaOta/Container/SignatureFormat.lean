import SecureDeltaOta.Standard.Der

/-!
# Signatures in DER and as two scalars

The signer of the tools writes its signatures in DER, the containers hold two
32-byte scalars. `secure_container.py` converts between the two; its decoder also
accepts lengths and integers that are longer than they have to be.
-/

namespace SecureDeltaOta.ContainerTool

open Der

/-! ## The conversions -/

/-- The `ValueError`s of the conversions. -/
inductive SignatureError where
  | truncatedLength
  | invalidLength
  | notSequence
  | sequenceLength
  | missingInteger
  | integerLength
  | negative
  | exceedsScalar
  | trailing
  | rawLength
  | unexpectedLength
  deriving DecidableEq, Repr

def SignatureError.message : SignatureError → String
  | .truncatedLength => "truncated DER length"
  | .invalidLength => "invalid DER length"
  | .notSequence => "ECDSA signature is not a DER SEQUENCE"
  | .sequenceLength => "ECDSA DER sequence length mismatch"
  | .missingInteger => "ECDSA DER missing INTEGER"
  | .integerLength => "invalid ECDSA INTEGER length"
  | .negative => "negative ECDSA INTEGER"
  | .exceedsScalar => "ECDSA INTEGER exceeds P-256 scalar size"
  | .trailing => "trailing ECDSA DER data"
  | .rawLength => "raw ECDSA signature must be 64 bytes"
  | .unexpectedLength => "unexpected P-256 DER length"

/-- `der_read_length`: the length and the offset behind it. -/
def derReadLength (data : List UInt8) (offset : Nat) : Except SignatureError (Nat × Nat) :=
  if offset ≥ data.length then .error .truncatedLength
  else
    let first := data.getD offset 0
    if first &&& 0x80 = 0 then .ok (first.toNat, offset + 1)
    else
      let count := (first &&& 0x7F).toNat
      if count = 0 ∨ count > 4 ∨ offset + 1 + count > data.length then .error .invalidLength
      else .ok (ofBytes ((data.drop (offset + 1)).take count), offset + 1 + count)

/-- `rjust(32, b"\x00")`. -/
def rjust (bytes : List UInt8) : List UInt8 := List.replicate (32 - bytes.length) 0 ++ bytes

/-- The body of the loop of `der_to_raw_ecdsa`: a scalar and the offset behind it. -/
def derReadInteger (signature : List UInt8) (sequenceEnd offset : Nat) :
    Except SignatureError (List UInt8 × Nat) :=
  if offset ≥ sequenceEnd ∨ signature.getD offset 0 ≠ 0x02 then .error .missingInteger
  else do
    let length ← derReadLength signature (offset + 1)
    if length.1 = 0 ∨ length.2 + length.1 > sequenceEnd then .error .integerLength
    else if ((signature.drop length.2).take length.1).headD 0 &&& 0x80 ≠ 0 then .error .negative
    else if (stripZeros ((signature.drop length.2).take length.1)).length > 32 then
      .error .exceedsScalar
    else
      .ok (rjust (stripZeros ((signature.drop length.2).take length.1)), length.2 + length.1)

def derToRawEcdsa (signature : List UInt8) : Except SignatureError (List UInt8) :=
  if signature = [] ∨ signature.getD 0 0 ≠ 0x30 then .error .notSequence
  else do
    let sequence ← derReadLength signature 1
    if sequence.2 + sequence.1 ≠ signature.length then .error .sequenceLength
    else do
      let first ← derReadInteger signature (sequence.2 + sequence.1) sequence.2
      let second ← derReadInteger signature (sequence.2 + sequence.1) first.2
      if second.2 ≠ sequence.2 + sequence.1 then .error .trailing
      else .ok (first.1 ++ second.1)

/-- `value.lstrip(b"\x00") or b"\x00"`. -/
def lstrip (value : List UInt8) : List UInt8 :=
  if value.dropWhile (· = 0) = [] then [0] else value.dropWhile (· = 0)

/-- The INTEGER for one half of a raw signature. -/
def derInteger (value : List UInt8) : List UInt8 :=
  let value := lstrip value
  let value := if value.headD 0 &&& 0x80 ≠ 0 then 0 :: value else value
  0x02 :: UInt8.ofNat value.length :: value

def rawToDerEcdsa (signature : List UInt8) : Except SignatureError (List UInt8) :=
  if signature.length ≠ 64 then .error .rawLength
  else
    let body := derInteger (signature.take 32) ++ derInteger (signature.drop 32)
    if body.length ≥ 128 then .error .unexpectedLength
    else .ok (0x30 :: UInt8.ofNat body.length :: body)

/-! ## Bytes -/

theorem high_bit (b : UInt8) : b &&& 0x80 = 0 ↔ b.toNat < 128 := by
  have hall : ∀ v : BitVec 8, v &&& 0x80 = 0 ↔ v.toNat < 128 := by decide +kernel
  rw [← UInt8.toBitVec_inj]
  exact hall b.toBitVec

theorem low_bits {b : UInt8} (h : 128 ≤ b.toNat) : b.toNat = 128 + (b &&& 0x7F).toNat := by
  have hall : ∀ v : BitVec 8, 128 ≤ v.toNat → v.toNat = 128 + (v &&& 0x7F).toNat := by
    decide +kernel
  exact hall b.toBitVec h

/-! ## What the decoder accepts -/

/-- What is at an offset before the end. -/
theorem drop_eq_getD_cons {data : List UInt8} {offset : Nat} (h : offset < data.length) :
    data.drop offset = data.getD offset 0 :: data.drop (offset + 1) := by
  rw [List.drop_eq_getElem_cons h, List.getD_eq_getElem?_getD, List.getElem?_eq_getElem h]
  rfl

theorem derReadLength_ok {data : List UInt8} {offset : Nat} {r : Nat × Nat}
    (h : derReadLength data offset = .ok r) :
    ∃ octets, LengthOctets r.1 octets ∧ data.drop offset = octets ++ data.drop r.2 := by
  unfold derReadLength at h
  split at h
  · cases h
  · next hlt =>
      rw [not_le] at hlt
      have hfirst := drop_eq_getD_cons hlt
      dsimp only at h
      split at h
      · next hshort =>
          rw [high_bit] at hshort
          cases h
          refine ⟨[data.getD offset 0], ?_, hfirst⟩
          have hoctet := LengthOctets.short hshort
          rwa [UInt8.ofNat_toNat] at hoctet
      · next hlong =>
          rw [high_bit, not_lt] at hlong
          split at h
          · cases h
          · next hcount =>
              rw [not_or, not_or, not_lt, not_lt] at hcount
              cases h
              have hvalue := low_bits hlong
              generalize hn : (data.getD offset 0 &&& 0x7F).toNat = n at hcount hvalue
              have hlength : ((data.drop (offset + 1)).take n).length = n := by
                rw [List.length_take, List.length_drop]
                omega
              have hoctets : LengthOctets (ofBytes ((data.drop (offset + 1)).take n))
                  (UInt8.ofNat (128 + ((data.drop (offset + 1)).take n).length) ::
                    (data.drop (offset + 1)).take n) :=
                .long (by omega) (by omega)
              refine ⟨_, hoctets, ?_⟩
              have hrest : data.drop (offset + 1 + n) = (data.drop (offset + 1)).drop n := by
                rw [List.drop_drop]
              dsimp only
              rw [hlength, ← hvalue, UInt8.ofNat_toNat, hfirst, List.cons_append, hrest,
                List.take_append_drop]

theorem bind_ok {α β : Type} {x : Except SignatureError α} {f : α → Except SignatureError β}
    {b : β} (h : (x >>= f) = .ok b) : ∃ a, x = .ok a ∧ f a = .ok b := by
  cases x with
  | error e => cases h
  | ok a => exact ⟨a, rfl, h⟩

theorem ok_bind {α β : Type} (a : α) (f : α → Except SignatureError β) :
    (Except.ok a >>= f) = f a := rfl

theorem rjust_length {bytes : List UInt8} (h : bytes.length ≤ 32) : (rjust bytes).length = 32 := by
  rw [rjust, List.length_append, List.length_replicate]
  omega

theorem ofBytes_rjust (bytes : List UInt8) : ofBytes (rjust bytes) = ofBytes bytes := by
  rw [rjust, ofBytes_append, ofBytes_replicate_zero, Nat.mul_zero, Nat.zero_add]

/-- A scalar that was read is the value of an INTEGER at the offset. -/
theorem derReadInteger_ok {signature : List UInt8} {offset : Nat} {r : List UInt8 × Nat}
    (h : derReadInteger signature signature.length offset = .ok r) :
    ∃ element content, Element LengthOctets 0x02 content element ∧ content ≠ [] ∧
      integer content = ofBytes r.1 ∧ r.1.length = 32 ∧ r.2 ≤ signature.length ∧
      signature.drop offset = element ++ signature.drop r.2 := by
  unfold derReadInteger at h
  split at h
  · cases h
  next htag =>
  rw [not_or, not_le, not_not] at htag
  obtain ⟨length, hlength, h⟩ := bind_ok h
  obtain ⟨octets, hoctets, hdrop⟩ := derReadLength_ok hlength
  split at h
  · cases h
  next hrange =>
  rw [not_or, not_lt] at hrange
  generalize hcontent : (signature.drop length.2).take length.1 = content at h
  split at h
  · cases h
  next hsign =>
  split at h
  · cases h
  next hsize =>
  cases h
  rw [not_not, high_bit] at hsign
  rw [not_lt] at hsize
  have hcount : content.length = length.1 := by
    rw [← hcontent, List.length_take, List.length_drop]
    omega
  refine ⟨0x02 :: (octets ++ content), content, ⟨octets, by rw [hcount]; exact hoctets, rfl⟩,
    ?_, ?_, rjust_length hsize, hrange.2, ?_⟩
  · intro hnil
    rw [hnil, List.length_nil] at hcount
    exact hrange.1 hcount.symm
  · rw [integer, if_pos hsign]
    dsimp only
    rw [ofBytes_rjust, ofBytes_stripZeros]
  · have hrest : signature.drop (length.2 + length.1) = (signature.drop length.2).drop length.1 := by
      rw [List.drop_drop]
    dsimp only
    rw [drop_eq_getD_cons htag.1, htag.2, hdrop, hrest, ← hcontent, List.cons_append,
      List.append_assoc, List.take_append_drop]

/-- What is accepted encodes the two scalars. -/
theorem derToRawEcdsa_ok {signature raw : List UInt8} (h : derToRawEcdsa signature = .ok raw) :
    raw.length = 64 ∧
      EncodesPair (ofBytes (raw.take 32)) (ofBytes (raw.drop 32)) signature := by
  unfold derToRawEcdsa at h
  split at h
  · cases h
  next htag =>
  rw [not_or, not_not] at htag
  have hpos := List.length_pos_iff.2 htag.1
  obtain ⟨sequence, hsequence, h⟩ := bind_ok h
  obtain ⟨octets, hoctets, hdrop⟩ := derReadLength_ok hsequence
  split at h
  · cases h
  next hend =>
  rw [not_not] at hend
  obtain ⟨first, hfirst, h⟩ := bind_ok h
  obtain ⟨second, hsecond, h⟩ := bind_ok h
  rw [hend] at hfirst hsecond h
  split at h
  · cases h
  next htrailing =>
  rw [not_not] at htrailing
  cases h
  obtain ⟨element, content, helement, hne, hvalue, hsize, hle, hat⟩ := derReadInteger_ok hfirst
  obtain ⟨element', content', helement', hne', hvalue', hsize', -, hat'⟩ :=
    derReadInteger_ok hsecond
  have hhalves : (first.1 ++ second.1).take 32 = first.1 ∧
      (first.1 ++ second.1).drop 32 = second.1 := by
    rw [← hsize]
    exact ⟨List.take_left, List.drop_left⟩
  have hbody : signature.drop sequence.2 = element ++ element' := by
    rw [hat, hat', htrailing, List.drop_length, List.append_nil]
  refine ⟨by rw [List.length_append, hsize, hsize'], element, element', content, content', hne,
    by rw [hhalves.1, hvalue], helement, hne', by rw [hhalves.2, hvalue'], helement', octets, ?_, ?_⟩
  · have hlength := congrArg List.length hbody
    rw [List.length_drop] at hlength
    rwa [show (element ++ element').length = sequence.1 by omega]
  · have hwhole : signature = signature.getD 0 0 :: signature.drop 1 := drop_eq_getD_cons hpos
    rw [htag.2, hdrop, hbody] at hwhole
    exact hwhole

/-! ## What the encoder writes -/

theorem lstrip_eq {value : List UInt8} (h : value ≠ []) : lstrip value = stripZeros value := by
  fun_induction stripZeros value with
  | case1 => exact absurd rfl h
  | case2 b =>
      by_cases hb : b = 0
      · simp [lstrip, hb]
      · simp [lstrip, hb]
  | case3 c rest ih =>
      rw [← ih (List.cons_ne_nil _ _), lstrip, lstrip, List.dropWhile_cons_of_pos (by simp)]
  | case4 b c rest hb => rw [lstrip, List.dropWhile_cons_of_neg (by simpa using hb), if_neg
      (List.cons_ne_nil _ _)]

theorem derInteger_eq {value : List UInt8} (h : value ≠ []) :
    derInteger value = 0x02 :: UInt8.ofNat (contentOf value).length :: contentOf value := by
  have hpad : (if (stripZeros value).headD 0 &&& 0x80 ≠ 0 then 0 :: stripZeros value
      else stripZeros value) = contentOf value := by
    unfold contentOf pad
    by_cases hlow : ((stripZeros value).headD 0).toNat < 128
    · rw [if_pos hlow, if_neg (not_not.2 ((high_bit _).2 hlow))]
    · rw [if_neg hlow, if_pos (fun hzero => hlow ((high_bit _).1 hzero))]
  unfold derInteger
  dsimp only
  rw [lstrip_eq h, hpad]

theorem contentOf_length_le (value : List UInt8) : (contentOf value).length ≤ value.length + 1 := by
  have hstrip := stripZeros_length_le value
  unfold contentOf pad
  split
  · omega
  · rw [List.length_cons]
    omega

theorem ofBytes_contentOf (value : List UInt8) : ofBytes (contentOf value) = ofBytes value := by
  unfold contentOf pad
  split
  · exact ofBytes_stripZeros value
  · rw [ofBytes_cons, ofBytes_stripZeros]
    simp

section Scalar

variable {value : List UInt8} (h : value.length = 32)

include h

theorem scalar_ne_nil : value ≠ [] := by
  intro hnil
  rw [hnil] at h
  cases h

theorem derInteger_length : (derInteger value).length ≤ 35 := by
  have hcontent := contentOf_length_le value
  rw [derInteger_eq (scalar_ne_nil h), List.length_cons, List.length_cons]
  omega

theorem derInteger_element :
    Element MinimalLength 0x02 (contentOf value) (derInteger value) := by
  have hcontent := contentOf_length_le value
  exact ⟨_, .short (by omega), derInteger_eq (scalar_ne_nil h)⟩

/-- Stripping the padded content and filling it up gives the scalar back. -/
theorem rjust_contentOf : (stripZeros (contentOf value)).length ≤ 32 ∧
    rjust (stripZeros (contentOf value)) = value := by
  have hne := scalar_ne_nil h
  have hvalue : ofBytes (stripZeros (contentOf value)) = ofBytes value := by
    rw [ofBytes_stripZeros, ofBytes_contentOf]
  have hlength : (stripZeros (contentOf value)).length ≤ 32 := by
    rw [← h]
    exact (stripped_stripZeros (contentOf_ne_nil hne)).length_le hne hvalue.le
  refine ⟨hlength, ofBytes_inj ?_ ?_⟩
  · rw [rjust_length hlength, h]
  · rw [ofBytes_rjust, hvalue]

end Scalar

/-! ## There and back -/

theorem derReadLength_short {data rest : List UInt8} {offset n : Nat} (hn : n < 128)
    (h : data.drop offset = UInt8.ofNat n :: rest) :
    derReadLength data offset = .ok (n, offset + 1) := by
  have hlt : offset < data.length := by
    by_contra hout
    rw [List.drop_eq_nil_of_le (not_lt.1 hout)] at h
    cases h
  rw [drop_eq_getD_cons hlt] at h
  have hvalue : (UInt8.ofNat n).toNat = n := toNat_ofNat_of_lt (by omega)
  unfold derReadLength
  dsimp only
  rw [if_neg (not_le.2 hlt), (List.cons.inj h).1, if_pos ((high_bit _).2 (by omega)), hvalue]

theorem derReadInteger_derInteger {signature value rest : List UInt8} {offset : Nat}
    (hvalue : value.length = 32) (h : signature.drop offset = derInteger value ++ rest) :
    derReadInteger signature signature.length offset =
      .ok (value, offset + (derInteger value).length) := by
  have hcontent := contentOf_length_le value
  rw [derInteger_eq (scalar_ne_nil hvalue)] at h ⊢
  have hlt : offset < signature.length := by
    by_contra hout
    rw [List.drop_eq_nil_of_le (not_lt.1 hout)] at h
    cases h
  rw [drop_eq_getD_cons hlt] at h
  obtain ⟨htag, hlength⟩ := List.cons.inj h
  have hread := derReadLength_short (show (contentOf value).length < 128 by omega) hlength
  have hdrop : signature.drop (offset + 1 + 1) = contentOf value ++ rest := by
    rw [← List.drop_drop, hlength]
    rfl
  have htake : (signature.drop (offset + 1 + 1)).take (contentOf value).length =
      contentOf value := by
    rw [hdrop, List.take_left]
  have hroom := congrArg List.length hdrop
  rw [List.length_drop, List.length_append] at hroom
  have hpos := List.length_pos_iff.2 (contentOf_ne_nil (scalar_ne_nil hvalue))
  have hsign : 0 ≤ integer (contentOf value) := by
    rw [integer_contentOf]
    exact Int.natCast_nonneg _
  obtain ⟨hsize, hfill⟩ := rjust_contentOf hvalue
  unfold derReadInteger
  rw [if_neg (by rw [not_or, not_le, not_not]; exact ⟨hlt, htag⟩), hread]
  rw [ok_bind]
  dsimp only
  rw [htake, if_neg (by omega), if_neg (not_not.2 ((high_bit _).2 (head_lt_of_nonneg hsign))),
    if_neg (not_lt.2 hsize), hfill, List.length_cons, List.length_cons]
  congr 2
  omega

/-- A sequence of two scalars is read back. -/
theorem derToRawEcdsa_pair {first second : List UInt8} (hfirst : first.length = 32)
    (hsecond : second.length = 32) :
    derToRawEcdsa (0x30 :: UInt8.ofNat (derInteger first ++ derInteger second).length ::
      (derInteger first ++ derInteger second)) = .ok (first ++ second) := by
  generalize hder : 0x30 :: UInt8.ofNat (derInteger first ++ derInteger second).length ::
    (derInteger first ++ derInteger second) = der
  have hlength : der.length = 1 + 1 + (derInteger first ++ derInteger second).length := by
    rw [← hder, List.length_cons, List.length_cons]
    omega
  have hread : derReadLength der 1 =
      .ok ((derInteger first ++ derInteger second).length, 1 + 1) := by
    have hsize := derInteger_length hfirst
    have hsize' := derInteger_length hsecond
    refine derReadLength_short (by rw [List.length_append]; omega) (by rw [← hder]; rfl)
  have hone : derReadInteger der der.length (1 + 1) =
      .ok (first, 1 + 1 + (derInteger first).length) :=
    derReadInteger_derInteger hfirst (by rw [← hder]; rfl)
  have htwo : derReadInteger der der.length (1 + 1 + (derInteger first).length) =
      .ok (second, 1 + 1 + (derInteger first).length + (derInteger second).length) := by
    have hat : der.drop (1 + 1 + (derInteger first).length) = derInteger second ++ [] := by
      rw [← List.drop_drop, ← hder, List.append_nil]
      exact List.drop_left
    exact derReadInteger_derInteger hsecond hat
  have htag : ¬ (der = [] ∨ der.getD 0 0 ≠ 0x30) := by
    rw [← hder]
    simp
  unfold derToRawEcdsa
  rw [if_neg htag, hread, ok_bind]
  dsimp only
  rw [← hlength, if_neg (not_not.2 rfl), hone, ok_bind]
  dsimp only
  rw [htwo, ok_bind, if_neg (by rw [not_not, hlength, List.length_append]; dsimp only; omega)]

/-- The encoder succeeds on every raw signature, with the shortest form of its two scalars. -/
theorem rawToDerEcdsa_eq {raw : List UInt8} (h : raw.length = 64) :
    ∃ der, rawToDerEcdsa raw = .ok der ∧ derToRawEcdsa der = .ok raw ∧
      MinimalPair (ofBytes (raw.take 32)) (ofBytes (raw.drop 32)) der := by
  have htake : (raw.take 32).length = 32 := by rw [List.length_take]; omega
  have hdrop : (raw.drop 32).length = 32 := by rw [List.length_drop]; omega
  have hfirst := derInteger_length htake
  have hsecond := derInteger_length hdrop
  have hbody : (derInteger (raw.take 32) ++ derInteger (raw.drop 32)).length < 128 := by
    rw [List.length_append]
    omega
  refine ⟨_, by rw [rawToDerEcdsa, if_neg (not_not.2 h), if_neg (not_le.2 hbody)], ?_, ?_⟩
  · rw [derToRawEcdsa_pair htake hdrop, List.take_append_drop]
  · exact ⟨_, _, _, _, minimalContent_contentOf (scalar_ne_nil htake), integer_contentOf _,
      derInteger_element htake, minimalContent_contentOf (scalar_ne_nil hdrop),
      integer_contentOf _, derInteger_element hdrop, _, .short hbody, rfl⟩

/--
The conversions lose nothing. A raw signature survives the way to DER and back. Whatever the
decoder accepts encodes the two halves of the raw signature it returns, and the encoder turns that
into the one shortest encoding of them, which is the accepted one if that is already shortest.
-/
theorem signature_conversion_exact :
    (∀ raw : List UInt8, raw.length = 64 →
      ∃ der, rawToDerEcdsa raw = .ok der ∧ derToRawEcdsa der = .ok raw) ∧
    ∀ der raw : List UInt8, derToRawEcdsa der = .ok raw →
      raw.length = 64 ∧
      EncodesPair (ofBytes (raw.take 32)) (ofBytes (raw.drop 32)) der ∧
      (∀ r s, EncodesPair r s der → r = ofBytes (raw.take 32) ∧ s = ofBytes (raw.drop 32)) ∧
      ∃ minimal, rawToDerEcdsa raw = .ok minimal ∧
        MinimalPair (ofBytes (raw.take 32)) (ofBytes (raw.drop 32)) minimal ∧
        (∀ other, MinimalPair (ofBytes (raw.take 32)) (ofBytes (raw.drop 32)) other →
          other = minimal) ∧
        ∀ r s, MinimalPair r s der → minimal = der := by
  constructor
  · intro raw h
    obtain ⟨der, hder, hback, -⟩ := rawToDerEcdsa_eq h
    exact ⟨der, hder, hback⟩
  · intro der raw h
    obtain ⟨hlength, hpair⟩ := derToRawEcdsa_ok h
    obtain ⟨minimal, hminimal, -, hshortest⟩ := rawToDerEcdsa_eq hlength
    have htake : (raw.take 32).length = 32 := by rw [List.length_take]; omega
    have hdrop : (raw.drop 32).length = 32 := by rw [List.length_drop]; omega
    have hunique (other : List UInt8)
        (hother : MinimalPair (ofBytes (raw.take 32)) (ofBytes (raw.drop 32)) other) :
        other = minimal :=
      hother.unique (scalar_ne_nil htake) (scalar_ne_nil hdrop) hshortest
    refine ⟨hlength, hpair, fun r s hrs => hrs.inj hpair, minimal, hminimal, hshortest, hunique,
      fun r s hder => ?_⟩
    obtain ⟨rfl, rfl⟩ := hder.encodes.inj hpair
    exact (hunique der hder).symm

/-- One and one, with a long length and a redundant zero. -/
theorem signature_conversion_exact_loose :
    ∃ raw, derToRawEcdsa [0x30, 0x81, 7, 2, 1, 1, 2, 2, 0, 1] = .ok raw ∧ raw.length = 64 ∧
      rawToDerEcdsa raw = .ok [0x30, 6, 2, 1, 1, 2, 1, 1] := by
  have hread : derToRawEcdsa [0x30, 0x81, 7, 2, 1, 1, 2, 2, 0, 1] =
      .ok (List.replicate 31 0 ++ [1] ++ (List.replicate 31 0 ++ [1])) := by decide +kernel
  exact ⟨_, hread, (signature_conversion_exact.2 _ _ hread).1, by decide +kernel⟩

end SecureDeltaOta.ContainerTool
