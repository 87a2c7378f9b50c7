import Mathlib.Data.List.GetD
import Mathlib.Tactic

/-!
# Byte memories and little-endian words

A memory is a function from addresses to bytes. Programs read windows of it and
overwrite ranges of it; records are laid out as consecutive little-endian
32-bit words.
-/

namespace SecureDeltaOta.Memory

/-! ## Windows and overlays -/

/-- The `len` bytes from `start` on. -/
def window (mem : Nat → UInt8) : Nat → Nat → List UInt8
  | _, 0 => []
  | start, len + 1 => mem start :: window mem (start + 1) len

/-- The memory after the range `[start, start + len)` was replaced. -/
def overlay (mem : Nat → UInt8) (start len : Nat) (bytes : Nat → UInt8) : Nat → UInt8 :=
  fun a => if start ≤ a ∧ a < start + len then bytes a else mem a

@[simp] theorem window_length (mem : Nat → UInt8) (start len : Nat) :
    (window mem start len).length = len := by
  induction len generalizing start with
  | zero => rfl
  | succ len ih => simp [window, ih]

theorem window_getElem? (mem : Nat → UInt8) (start len i : Nat) :
    (window mem start len)[i]? = if i < len then some (mem (start + i)) else none := by
  induction len generalizing start i with
  | zero => simp [window]
  | succ len ih =>
      cases i with
      | zero => simp [window]
      | succ i =>
          have hshift : start + 1 + i = start + (i + 1) := by omega
          simp [window, ih, hshift]

theorem window_getD {mem : Nat → UInt8} {start len i : Nat} (hi : i < len) (d : UInt8) :
    (window mem start len).getD i d = mem (start + i) := by
  rw [List.getD_eq_getElem?_getD, window_getElem?, if_pos hi]
  rfl

theorem window_add (mem : Nat → UInt8) (start m n : Nat) :
    window mem start (m + n) = window mem start m ++ window mem (start + m) n := by
  induction m generalizing start with
  | zero => simp [window]
  | succ m ih =>
      have hsum : m + 1 + n = (m + n) + 1 := by omega
      have hshift : start + 1 + m = start + (m + 1) := by omega
      simp [hsum, window, ih, hshift]

/-- Windows are equal exactly when they agree byte by byte. -/
theorem window_eq_iff {mem mem' : Nat → UInt8} {start start' len : Nat} :
    window mem start len = window mem' start' len ↔
      ∀ i < len, mem (start + i) = mem' (start' + i) := by
  constructor
  · intro h i hi
    calc mem (start + i) = (window mem start len).getD i 0 := (window_getD hi 0).symm
      _ = mem' (start' + i) := by rw [h, window_getD hi 0]
  · intro h
    apply List.ext_getElem?
    intro i
    rw [window_getElem?, window_getElem?]
    split
    · next hi => rw [h i hi]
    · rfl

theorem window_eq_list_iff {mem : Nat → UInt8} {start : Nat} {l : List UInt8} :
    window mem start l.length = l ↔ ∀ i < l.length, mem (start + i) = l.getD i 0 := by
  constructor
  · intro h i hi
    calc mem (start + i) = (window mem start l.length).getD i 0 := (window_getD hi 0).symm
      _ = l.getD i 0 := by rw [h]
  · intro h
    apply List.ext_getElem?
    intro i
    rw [window_getElem?]
    split
    · next hi =>
        rw [h i hi, List.getD_eq_getElem?_getD, List.getElem?_eq_getElem hi]
        rfl
    · next hi => rw [List.getElem?_eq_none (by omega)]

theorem window_take {mem : Nat → UInt8} {start len k : Nat} (hk : k ≤ len) :
    (window mem start len).take k = window mem start k := by
  obtain ⟨n, rfl⟩ := Nat.exists_eq_add_of_le hk
  rw [window_add, List.take_left' (window_length mem start k)]

theorem window_drop {mem : Nat → UInt8} {start len k : Nat} (hk : k ≤ len) :
    (window mem start len).drop k = window mem (start + k) (len - k) := by
  obtain ⟨n, rfl⟩ := Nat.exists_eq_add_of_le hk
  rw [window_add, List.drop_left' (window_length mem start k), Nat.add_sub_cancel_left]

theorem overlay_inside {mem bytes : Nat → UInt8} {start len a : Nat}
    (h : start ≤ a ∧ a < start + len) : overlay mem start len bytes a = bytes a :=
  if_pos h

theorem overlay_outside {mem bytes : Nat → UInt8} {start len a : Nat}
    (h : a < start ∨ start + len ≤ a) : overlay mem start len bytes a = mem a :=
  if_neg (by omega)

/-- A write that was cut: a prefix of the data is there, the rest is as it was. -/
def Torn (mem : Nat → UInt8) (address : Nat) (data : List UInt8) (mem' : Nat → UInt8) : Prop :=
  ∃ n ≤ data.length, (∀ i < n, mem' (address + i) = data.getD i 0) ∧
    ∀ i, n ≤ i → i < data.length → mem' (address + i) = mem (address + i)

theorem Torn.refl (mem : Nat → UInt8) (address : Nat) (data : List UInt8) :
    Torn mem address data mem :=
  ⟨0, Nat.zero_le _, fun _ h => absurd h (Nat.not_lt_zero _), fun _ _ _ => rfl⟩

theorem Torn.of_window {mem mem' : Nat → UInt8} {address : Nat} {data : List UInt8}
    (h : window mem' address data.length = data) : Torn mem address data mem' :=
  ⟨data.length, le_rfl, window_eq_list_iff.1 h, fun _ h₁ h₂ => absurd h₁ (by omega)⟩

theorem Torn.append_left {mem mem' : Nat → UInt8} {address : Nat} {a b : List UInt8}
    (h : Torn mem address a mem')
    (hb : ∀ i < b.length, mem' (address + a.length + i) = mem (address + a.length + i)) :
    Torn mem address (a ++ b) mem' := by
  obtain ⟨n, hn, hwritten, hkept⟩ := h
  refine ⟨n, by rw [List.length_append]; omega, fun i hi => ?_, fun i hlow hi => ?_⟩
  · rw [hwritten i hi, List.getD_append _ _ _ _ (by omega)]
  · rw [List.length_append] at hi
    rcases Nat.lt_or_ge i a.length with hin | hout
    · exact hkept i hlow hin
    · obtain ⟨j, rfl⟩ := Nat.exists_eq_add_of_le hout
      rw [← Nat.add_assoc]
      exact hb j (by omega)

theorem Torn.append_right {mem mem' : Nat → UInt8} {address : Nat} {a b : List UInt8}
    (ha : ∀ i < a.length, mem' (address + i) = a.getD i 0)
    (h : Torn mem (address + a.length) b mem') : Torn mem address (a ++ b) mem' := by
  obtain ⟨n, hn, hwritten, hkept⟩ := h
  refine ⟨a.length + n, by rw [List.length_append]; omega, fun i hi => ?_, fun i hlow hi => ?_⟩
  · rcases Nat.lt_or_ge i a.length with hin | hout
    · rw [ha i hin, List.getD_append _ _ _ _ hin]
    · obtain ⟨j, rfl⟩ := Nat.exists_eq_add_of_le hout
      rw [← Nat.add_assoc, hwritten j (by omega), List.getD_append_right _ _ _ _ (by omega),
        Nat.add_sub_cancel_left]
  · obtain ⟨j, rfl⟩ := Nat.exists_eq_add_of_le (show a.length ≤ i by omega)
    rw [List.length_append] at hi
    rw [← Nat.add_assoc]
    exact hkept j (by omega) (by omega)

theorem Torn.congr {mem₀ mem mem' : Nat → UInt8} {address : Nat} {data : List UInt8}
    (h : Torn mem address data mem')
    (hsame : ∀ i < data.length, mem (address + i) = mem₀ (address + i)) :
    Torn mem₀ address data mem' := by
  obtain ⟨n, hn, hwritten, hkept⟩ := h
  exact ⟨n, hn, hwritten, fun i hlow hi => (hkept i hlow hi).trans (hsame i hi)⟩

/-- A chunk of a buffer. -/
theorem getD_chunk {l : List UInt8} {offset chunk i : Nat} (hi : i < chunk) (d : UInt8) :
    ((l.drop offset).take chunk).getD i d = l.getD (offset + i) d := by
  simp only [List.getD_eq_getElem?_getD, List.getElem?_take_of_lt hi, List.getElem?_drop]

theorem chunk_length {l : List UInt8} {offset chunk : Nat} (h : offset + chunk ≤ l.length) :
    ((l.drop offset).take chunk).length = chunk := by
  simp only [List.length_take, List.length_drop]
  omega

/-! ## Little-endian words -/

/-- The four bytes of a word, least significant first. -/
def le32 (w : UInt32) : List UInt8 :=
  [w.toUInt8, (w >>> 8).toUInt8, (w >>> 16).toUInt8, (w >>> 24).toUInt8]

/-- The word whose bytes are given least significant first. -/
def ofLe32 (b₀ b₁ b₂ b₃ : UInt8) : UInt32 :=
  b₀.toUInt32 ||| (b₁.toUInt32 <<< 8) ||| (b₂.toUInt32 <<< 16) ||| (b₃.toUInt32 <<< 24)

/-- The word stored at a byte offset. -/
def readLe32 (bytes : List UInt8) (offset : Nat) : UInt32 :=
  ofLe32 (bytes.getD offset 0) (bytes.getD (offset + 1) 0) (bytes.getD (offset + 2) 0)
    (bytes.getD (offset + 3) 0)

/-- Words laid out one after another. -/
def encodeWords : List UInt32 → List UInt8
  | [] => []
  | w :: ws => le32 w ++ encodeWords ws

@[simp] theorem le32_length (w : UInt32) : (le32 w).length = 4 := rfl

@[simp] theorem encodeWords_length (ws : List UInt32) :
    (encodeWords ws).length = 4 * ws.length := by
  induction ws with
  | nil => rfl
  | cons w ws ih =>
      simp only [encodeWords, List.length_append, le32_length, ih, List.length_cons]
      omega

theorem ofLe32_bytes (w : UInt32) :
    ofLe32 w.toUInt8 (w >>> 8).toUInt8 (w >>> 16).toUInt8 (w >>> 24).toUInt8 = w := by
  unfold ofLe32
  apply UInt32.toBitVec_inj.1
  ext i hi
  simp [-UInt32.toUInt32_toUInt8]
  grind

theorem toNat_ofLe32 (b₀ b₁ b₂ b₃ : UInt8) : (ofLe32 b₀ b₁ b₂ b₃).toNat =
    b₀.toNat + 256 * (b₁.toNat + 256 * (b₂.toNat + 256 * b₃.toNat)) := by
  have h₀ : b₀.toNat < 2 ^ 8 := b₀.toNat_lt
  have h₁ : b₁.toNat < 2 ^ 8 := b₁.toNat_lt
  have h₂ : b₂.toNat < 2 ^ 8 := b₂.toNat_lt
  have h₃ : b₃.toNat < 2 ^ 8 := b₃.toNat_lt
  have hshift {n k : Nat} (hn : n < 2 ^ 8) (hk : k ≤ 24) : n <<< k % 2 ^ 32 = n <<< k := by
    apply Nat.mod_eq_of_lt
    calc n <<< k < 2 ^ 8 * 2 ^ k := by
          rw [Nat.shiftLeft_eq]
          exact Nat.mul_lt_mul_of_pos_right hn (by positivity)
      _ ≤ 2 ^ 8 * 2 ^ 24 := Nat.mul_le_mul_left _ (Nat.pow_le_pow_right (by omega) hk)
      _ = 2 ^ 32 := by norm_num
  simp only [ofLe32, UInt32.toNat_or, UInt32.toNat_shiftLeft, UInt8.toNat_toUInt32]
  change b₀.toNat ||| b₁.toNat <<< 8 % 2 ^ 32 ||| b₂.toNat <<< 16 % 2 ^ 32 |||
    b₃.toNat <<< 24 % 2 ^ 32 = _
  rw [hshift h₁ (by omega), hshift h₂ (by omega), hshift h₃ (by omega),
    Nat.or_comm b₀.toNat, ← Nat.shiftLeft_add_eq_or_of_lt h₀,
    Nat.or_comm _ (b₂.toNat <<< 16), ← Nat.shiftLeft_add_eq_or_of_lt,
    Nat.or_comm _ (b₃.toNat <<< 24), ← Nat.shiftLeft_add_eq_or_of_lt]
  all_goals simp only [Nat.shiftLeft_eq]
  all_goals omega

/-- The layout determines the bytes: writing a word that was read gives its bytes back. -/
theorem le32_ofLe32 (b₀ b₁ b₂ b₃ : UInt8) : le32 (ofLe32 b₀ b₁ b₂ b₃) = [b₀, b₁, b₂, b₃] := by
  unfold le32 ofLe32
  have hbyte {x y : UInt8} (h : ∀ i (_ : i < 8), x.toBitVec[i] = y.toBitVec[i]) : x = y :=
    UInt8.toBitVec_inj.1 (BitVec.eq_of_getElem_eq h)
  simp only [List.cons.injEq, and_true]
  refine ⟨?_, ?_, ?_, ?_⟩ <;> apply hbyte <;> intro i hi <;> simp
  all_goals grind

theorem readLe32_congr {a b : List UInt8} {o p : Nat}
    (h : ∀ j < 4, a.getD (o + j) 0 = b.getD (p + j) 0) : readLe32 a o = readLe32 b p := by
  have h₀ := h 0 (by omega)
  have h₁ := h 1 (by omega)
  have h₂ := h 2 (by omega)
  have h₃ := h 3 (by omega)
  simp only [Nat.add_zero] at h₀
  simp only [readLe32, h₀, h₁, h₂, h₃]

/-- A word whose last byte is erased is large. -/
theorem readLe32_of_last_erased {bytes : List UInt8} {o : Nat}
    (h : bytes.getD (o + 3) 0 = 0xFF) : 0xFF000000 ≤ (readLe32 bytes o).toNat := by
  have htop : ((0xFF : UInt8).toUInt32 <<< 24).toNat = 0xFF000000 := by decide
  rw [readLe32, h, ofLe32, UInt32.toNat_or, htop]
  exact Nat.right_le_or

theorem readLe32_append_left {a b : List UInt8} {o : Nat} (h : o + 4 ≤ a.length) :
    readLe32 (a ++ b) o = readLe32 a o := by
  apply readLe32_congr
  intro j hj
  rw [List.getD_append _ _ _ _ (by omega)]

theorem readLe32_append_right {a b : List UInt8} {o : Nat} (h : a.length ≤ o) :
    readLe32 (a ++ b) o = readLe32 b (o - a.length) := by
  apply readLe32_congr
  intro j hj
  rw [List.getD_append_right _ _ _ _ (by omega)]
  congr 1
  omega

theorem readLe32_le32 (w : UInt32) : readLe32 (le32 w) 0 = w :=
  ofLe32_bytes w

/-- Word `i` of a record is read back as it was written. -/
theorem readLe32_encodeWords {ws : List UInt32} {i : Nat} (hi : i < ws.length) :
    readLe32 (encodeWords ws) (4 * i) = ws.getD i 0 := by
  induction ws generalizing i with
  | nil => simp at hi
  | cons w ws ih =>
      cases i with
      | zero =>
          rw [encodeWords, readLe32_append_left (by simp)]
          exact readLe32_le32 w
      | succ i =>
          rw [encodeWords, readLe32_append_right (by simp)]
          have hoff : 4 * (i + 1) - (le32 w).length = 4 * i := by
            simp only [le32_length]
            omega
          rw [hoff, ih (by simpa using hi)]
          rfl

/-- The words of a byte string whose length is a multiple of four. -/
def decodeWords (bytes : List UInt8) (n : Nat) : List UInt32 :=
  (List.range n).map fun i => readLe32 bytes (4 * i)

/-- A string of words is determined by its words. -/
theorem encodeWords_decodeWords {bytes : List UInt8} {n : Nat} (h : bytes.length = 4 * n) :
    encodeWords (decodeWords bytes n) = bytes := by
  induction n generalizing bytes with
  | zero => exact (List.length_eq_zero_iff.1 h).symm
  | succ n ih =>
      match bytes, h with
      | b₀ :: b₁ :: b₂ :: b₃ :: rest, h =>
          have hrest : rest.length = 4 * n := by
            simp only [List.length_cons] at h
            omega
          have htail : (List.range n).map (fun i => readLe32 (b₀ :: b₁ :: b₂ :: b₃ :: rest)
              (4 * (i + 1))) = decodeWords rest n := by
            apply List.map_congr_left
            intro i _
            exact readLe32_append_right (a := [b₀, b₁, b₂, b₃]) (by simp)
          have hhead : readLe32 (b₀ :: b₁ :: b₂ :: b₃ :: rest) 0 = ofLe32 b₀ b₁ b₂ b₃ := rfl
          rw [decodeWords, List.range_succ_eq_map, List.map_cons, List.map_map, encodeWords]
          simp only [Nat.mul_zero, hhead, le32_ofLe32]
          rw [show ((fun i => readLe32 (b₀ :: b₁ :: b₂ :: b₃ :: rest) (4 * i)) ∘ Nat.succ) =
            fun i => readLe32 (b₀ :: b₁ :: b₂ :: b₃ :: rest) (4 * (i + 1)) from rfl, htail,
            ih hrest]
          rfl

/-! ## Little-endian half words -/

/-- The two bytes of a half word, least significant first. -/
def le16 (w : UInt16) : List UInt8 := [w.toUInt8, (w >>> 8).toUInt8]

/-- The half word whose bytes are given least significant first. -/
def ofLe16 (b₀ b₁ : UInt8) : UInt16 := b₀.toUInt16 ||| (b₁.toUInt16 <<< 8)

/-- The half word stored at a byte offset. -/
def readLe16 (bytes : List UInt8) (offset : Nat) : UInt16 :=
  ofLe16 (bytes.getD offset 0) (bytes.getD (offset + 1) 0)

@[simp] theorem le16_length (w : UInt16) : (le16 w).length = 2 := rfl

theorem ofLe16_bytes (w : UInt16) : ofLe16 w.toUInt8 (w >>> 8).toUInt8 = w := by
  unfold ofLe16
  apply UInt16.toBitVec_inj.1
  ext i hi
  simp [-UInt16.toUInt16_toUInt8]
  grind

theorem le16_ofLe16 (b₀ b₁ : UInt8) : le16 (ofLe16 b₀ b₁) = [b₀, b₁] := by
  unfold le16 ofLe16
  have hbyte {x y : UInt8} (h : ∀ i (_ : i < 8), x.toBitVec[i] = y.toBitVec[i]) : x = y :=
    UInt8.toBitVec_inj.1 (BitVec.eq_of_getElem_eq h)
  simp only [List.cons.injEq, and_true]
  refine ⟨?_, ?_⟩ <;> apply hbyte <;> intro i hi <;> simp
  all_goals grind

theorem toNat_ofLe16 (b₀ b₁ : UInt8) : (ofLe16 b₀ b₁).toNat = b₀.toNat + 256 * b₁.toNat := by
  have h₀ : b₀.toNat < 2 ^ 8 := b₀.toNat_lt
  have h₁ : b₁.toNat < 2 ^ 8 := b₁.toNat_lt
  have hshift : b₁.toNat <<< 8 % 2 ^ 16 = b₁.toNat <<< 8 := by
    rw [Nat.mod_eq_of_lt]
    rw [Nat.shiftLeft_eq]
    omega
  rw [ofLe16, UInt16.toNat_or, UInt16.toNat_shiftLeft, UInt8.toNat_toUInt16, UInt8.toNat_toUInt16]
  change b₀.toNat ||| b₁.toNat <<< 8 % 2 ^ 16 = _
  rw [hshift, Nat.or_comm, ← Nat.shiftLeft_add_eq_or_of_lt h₀, Nat.shiftLeft_eq]
  omega

/-! ## Records of words -/

/-- A record type that is laid out as a fixed number of words. -/
structure WordRecord (ρ : Type) where
  count : Nat
  toWords : ρ → List UInt32
  ofWords : (Nat → UInt32) → ρ
  toWords_length : ∀ r, (toWords r).length = count
  ofWords_toWords : ∀ r, ofWords (fun i => (toWords r).getD i 0) = r
  toWords_ofWords : ∀ f, toWords (ofWords f) = (List.range count).map f
  ofWords_congr : ∀ f g, (∀ i < count, f i = g i) → ofWords f = ofWords g

namespace WordRecord

variable {ρ : Type} (layout : WordRecord ρ)

/-- The stored bytes of a record. -/
def encode (r : ρ) : List UInt8 :=
  encodeWords (layout.toWords r)

/-- The record in the given bytes. -/
def decode (bytes : List UInt8) : ρ :=
  layout.ofWords fun i => readLe32 bytes (4 * i)

theorem encode_length (r : ρ) : (layout.encode r).length = 4 * layout.count := by
  rw [encode, encodeWords_length, layout.toWords_length]

theorem decode_encode (r : ρ) : layout.decode (layout.encode r) = r := by
  rw [decode, ← layout.ofWords_toWords r]
  apply layout.ofWords_congr
  intro i hi
  rw [layout.ofWords_toWords]
  exact readLe32_encodeWords (by rwa [layout.toWords_length])

theorem encode_decode {bytes : List UInt8} (h : bytes.length = 4 * layout.count) :
    layout.encode (layout.decode bytes) = bytes := by
  rw [encode, decode, layout.toWords_ofWords]
  exact encodeWords_decodeWords h

theorem toWords_decode {bytes : List UInt8} {i : Nat} (hi : i < layout.count) :
    (layout.toWords (layout.decode bytes)).getD i 0 = readLe32 bytes (4 * i) := by
  rw [decode, layout.toWords_ofWords, List.getD_eq_getElem _ _ (by simpa using hi)]
  simp

/-- A record is determined by its bytes up to the last word, and by that word. -/
theorem decode_eq_of_last {bytes : List UInt8} {r : ρ} {k : Nat} (hcount : layout.count = k + 1)
    (hbytes : ∀ i < 4 * k, bytes.getD i 0 = (layout.encode r).getD i 0)
    (hlast : readLe32 bytes (4 * k) = (layout.toWords r).getD k 0) : layout.decode bytes = r := by
  rw [decode, ← layout.ofWords_toWords r]
  apply layout.ofWords_congr
  intro i hi
  rcases Nat.lt_or_ge i k with hlt | hge
  · rw [← readLe32_encodeWords (by rwa [layout.toWords_length])]
    exact readLe32_congr fun j hj => hbytes _ (by omega)
  · obtain rfl : i = k := by omega
    exact hlast

theorem encode_injective {r r' : ρ} (h : layout.encode r = layout.encode r') : r = r' := by
  rw [← layout.decode_encode r, h, layout.decode_encode]

end WordRecord

end SecureDeltaOta.Memory
