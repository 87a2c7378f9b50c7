import SecureDeltaOta.Memory.Bytes
import SecureDeltaOta.Memory.TwoSlot
import SecureDeltaOta.Shared.Digest
import SecureDeltaOta.Shared.MemoryMap

/-!
# The boot metadata record

The record both programs share through the internal flash: its fields, the
consistency rules of each update state, and its 52-byte layout, in which the
CRC comes last.
-/

namespace SecureDeltaOta

open Memory

inductive UpdateState where
  | idle
  | receiving
  | artifactReady
  | verifyingContainer
  | verifyingBase
  | patching
  | imageReady
  | backingUp
  | installing
  | verifyingInstall
  | trialBoot
  | confirmed
  | rollback
  | failed
  deriving DecidableEq, Repr

namespace UpdateState

/-- The number that stands for a state in the stored record. -/
def code : UpdateState → UInt32
  | idle => 0
  | receiving => 1
  | artifactReady => 2
  | verifyingContainer => 3
  | verifyingBase => 4
  | patching => 5
  | imageReady => 6
  | backingUp => 7
  | installing => 8
  | verifyingInstall => 9
  | trialBoot => 10
  | confirmed => 11
  | rollback => 12
  | failed => 13

/-- The state a stored number stands for. -/
def ofCode (w : UInt32) : Option UpdateState :=
  [idle, receiving, artifactReady, verifyingContainer, verifyingBase, patching, imageReady,
    backingUp, installing, verifyingInstall, trialBoot, confirmed, rollback, failed].find?
    fun s => s.code = w

@[simp] theorem ofCode_code (s : UpdateState) : ofCode s.code = some s := by
  cases s <;> rfl

theorem ofCode_eq_some {w : UInt32} {s : UpdateState} : ofCode w = some s ↔ w = s.code := by
  constructor
  · intro h
    have hfound := List.find?_some h
    exact (of_decide_eq_true hfound).symm
  · rintro rfl
    exact ofCode_code s

@[simp] theorem code_inj {s t : UpdateState} : s.code = t.code ↔ s = t := by
  constructor
  · intro h
    have hsome : some s = some t := by rw [← ofCode_code, h, ofCode_code]
    exact Option.some.inj hsome
  · rintro rfl
    rfl

end UpdateState

structure BootMetadata where
  magic : UInt32
  generation : UInt32
  metadataVersion : UInt32
  state : UInt32
  activeVersion : UInt32
  pendingVersion : UInt32
  activeUpdateId : UInt32
  receivedSize : UInt32
  expectedSize : UInt32
  copyOffset : UInt32
  bootAttempts : UInt32
  lastError : UInt32
  crc32 : UInt32
  deriving DecidableEq, Repr

inductive BootMetadataValidationStatus where
  | valid
  | invalidMagic
  | invalidVersion
  | invalidGeneration
  | invalidState
  | invalidProgress
  | invalidStateFields
  | invalidCrc
  deriving DecidableEq, Repr

namespace BootMetadata

def expectedMagic : UInt32 := 0x424D4554

def formatVersion : UInt32 := 1

def maxBootAttempts : UInt32 := 3

/-! ## Layout -/

def layout : WordRecord BootMetadata where
  count := 13
  toWords m := [m.magic, m.generation, m.metadataVersion, m.state, m.activeVersion,
    m.pendingVersion, m.activeUpdateId, m.receivedSize, m.expectedSize, m.copyOffset,
    m.bootAttempts, m.lastError, m.crc32]
  ofWords w := ⟨w 0, w 1, w 2, w 3, w 4, w 5, w 6, w 7, w 8, w 9, w 10, w 11, w 12⟩
  toWords_length _ := rfl
  ofWords_toWords _ := rfl
  toWords_ofWords _ := rfl
  ofWords_congr f g h := by simp [h]

def recordSize : Nat := 52

def crcOffset : Nat := 48

/-- The stored bytes of a record. -/
def encode (m : BootMetadata) : List UInt8 :=
  layout.encode m

/-- The record in the given bytes. -/
def decode (bytes : List UInt8) : BootMetadata :=
  layout.decode bytes

/-! ## Validation -/

def stateIsValid (state : UInt32) : Bool :=
  state ≤ UpdateState.failed.code

def updatePayloadIsComplete (m : BootMetadata) : Bool :=
  m.activeUpdateId ≠ 0 && m.expectedSize ≠ 0 && m.receivedSize = m.expectedSize

def stateFieldsAreConsistent (m : BootMetadata) : Bool :=
  match UpdateState.ofCode m.state with
  | some .idle =>
      m.pendingVersion = 0 && m.activeUpdateId = 0 && m.receivedSize = 0 && m.expectedSize = 0 &&
        m.copyOffset = 0 && m.bootAttempts = 0
  | some .receiving =>
      m.activeUpdateId ≠ 0 && m.expectedSize ≠ 0 && m.pendingVersion ≠ 0
  | some .artifactReady =>
      m.updatePayloadIsComplete && m.copyOffset = 0
  | some .verifyingContainer | some .verifyingBase | some .patching | some .imageReady =>
      m.updatePayloadIsComplete
  | some .backingUp =>
      m.updatePayloadIsComplete && m.pendingVersion ≠ 0 && m.bootAttempts = 0 &&
        m.copyOffset.toNat ≤ applicationMaxSize &&
        (m.copyOffset.toNat = applicationMaxSize || m.copyOffset.toNat % extFlashSectorSize = 0)
  | some .installing =>
      m.updatePayloadIsComplete && m.copyOffset ≤ m.expectedSize &&
        (m.copyOffset = m.expectedSize || m.copyOffset.toNat % internalFlashPageSize = 0)
  | some .verifyingInstall =>
      m.updatePayloadIsComplete && m.copyOffset = m.expectedSize
  | some .trialBoot =>
      m.updatePayloadIsComplete && m.pendingVersion ≠ 0 && m.copyOffset = 0 &&
        m.bootAttempts ≤ maxBootAttempts
  | some .confirmed =>
      m.updatePayloadIsComplete && m.pendingVersion ≠ 0 && m.copyOffset = 0 &&
        m.bootAttempts > 0 && m.bootAttempts ≤ maxBootAttempts
  | some .rollback =>
      m.updatePayloadIsComplete && m.pendingVersion ≠ 0 && m.bootAttempts ≤ maxBootAttempts &&
        m.copyOffset.toNat ≤ applicationMaxSize &&
        (m.copyOffset.toNat = applicationMaxSize || m.copyOffset.toNat % internalFlashPageSize = 0)
  | some .failed => true
  | none => false

def init (activeVersion : UInt32) : BootMetadata where
  magic := expectedMagic
  generation := 0
  metadataVersion := formatVersion
  state := UpdateState.idle.code
  activeVersion := activeVersion
  pendingVersion := 0
  activeUpdateId := 0
  receivedSize := 0
  expectedSize := 0
  copyOffset := 0
  bootAttempts := 0
  lastError := 0
  crc32 := 0

def calculateCrc (m : BootMetadata) : UInt32 :=
  Crc32.calculate (m.encode.take crcOffset)

def finalize (m : BootMetadata) : BootMetadata :=
  let m := { m with magic := expectedMagic, metadataVersion := formatVersion }
  { m with crc32 := m.calculateCrc }

def validate (m : BootMetadata) : BootMetadataValidationStatus :=
  if m.magic ≠ expectedMagic then .invalidMagic
  else if m.metadataVersion ≠ formatVersion then .invalidVersion
  else if m.generation = 0 then .invalidGeneration
  else if !stateIsValid m.state then .invalidState
  else if m.receivedSize > m.expectedSize || m.expectedSize.toNat > extIncomingSize ||
      m.copyOffset.toNat > applicationMaxSize then .invalidProgress
  else if !m.stateFieldsAreConsistent then .invalidStateFields
  else if m.crc32 ≠ m.calculateCrc then .invalidCrc
  else .valid

/-! ## Slots -/

def slotFormat : SlotFormat BootMetadata where
  isValid m := m.validate = .valid
  generation := BootMetadata.generation

def isGenerationNewer (candidate reference : UInt32) : Bool :=
  Memory.isGenerationNewer candidate reference

def nextGeneration (currentGeneration : UInt32) : UInt32 :=
  Memory.nextGeneration currentGeneration

def selectNewestSlot (slotA slotB : BootMetadata) : Slot :=
  slotFormat.selectNewestSlot slotA slotB

def selectWriteSlot (slotA slotB : BootMetadata) : Slot :=
  slotFormat.selectWriteSlot slotA slotB

/-! ## What validation means -/

/-- The conditions a valid record meets, as facts. -/
structure Valid (m : BootMetadata) : Prop where
  magic : m.magic = expectedMagic
  version : m.metadataVersion = formatVersion
  generation : m.generation ≠ 0
  stateCode : stateIsValid m.state = true
  received : m.receivedSize ≤ m.expectedSize
  expected : m.expectedSize.toNat ≤ extIncomingSize
  copied : m.copyOffset.toNat ≤ applicationMaxSize
  fields : m.stateFieldsAreConsistent = true
  crc : m.crc32 = m.calculateCrc

theorem validate_eq_valid {m : BootMetadata} : m.validate = .valid ↔ m.Valid := by
  constructor
  · intro h
    unfold validate at h
    split_ifs at h with h₁ h₂ h₃ h₄ h₅ h₆ h₇
    simp only [Bool.or_eq_true, decide_eq_true_eq, not_or, UInt32.not_lt, gt_iff_lt,
      not_lt] at h₅
    exact ⟨not_not.1 h₁, not_not.1 h₂, h₃, by simpa using h₄, h₅.1.1, h₅.1.2, h₅.2, by simpa using h₆,
      not_not.1 h₇⟩
  · intro h
    have hprogress : ¬ ((decide (m.receivedSize > m.expectedSize) ||
        decide (m.expectedSize.toNat > extIncomingSize) ||
        decide (m.copyOffset.toNat > applicationMaxSize)) = true) := by
      simp only [Bool.or_eq_true, decide_eq_true_eq, not_or, UInt32.not_lt, gt_iff_lt, not_lt]
      exact ⟨⟨h.received, h.expected⟩, h.copied⟩
    unfold validate
    rw [if_neg (not_not.2 h.magic), if_neg (not_not.2 h.version), if_neg h.generation,
      if_neg (by simp [h.stateCode]), if_neg hprogress, if_neg (by simp [h.fields]),
      if_neg (not_not.2 h.crc)]

@[simp] theorem slotFormat_isValid (m : BootMetadata) :
    slotFormat.isValid m = true ↔ m.Valid := by
  simp [slotFormat, validate_eq_valid]

@[simp] theorem encode_length (m : BootMetadata) : m.encode.length = recordSize :=
  layout.encode_length m

theorem decode_encode (m : BootMetadata) : decode m.encode = m :=
  layout.decode_encode m

theorem encode_decode {bytes : List UInt8} (h : bytes.length = recordSize) :
    (decode bytes).encode = bytes :=
  layout.encode_decode h

/-- The stored CRC does not enter its own computation. -/
theorem calculateCrc_congr {m : BootMetadata} {c : UInt32} :
    calculateCrc { m with crc32 := c } = m.calculateCrc := rfl

theorem finalize_crc (m : BootMetadata) : m.finalize.crc32 = m.finalize.calculateCrc := rfl

/-- What a commit asks of a request; it fills in the other fields itself. -/
structure Acceptable (m : BootMetadata) : Prop where
  stateCode : stateIsValid m.state = true
  received : m.receivedSize ≤ m.expectedSize
  expected : m.expectedSize.toNat ≤ extIncomingSize
  copied : m.copyOffset.toNat ≤ applicationMaxSize
  fields : m.stateFieldsAreConsistent = true

theorem finalize_valid {m : BootMetadata} (hgen : m.generation ≠ 0) :
    m.finalize.Valid ↔ m.Acceptable := by
  constructor
  · intro h
    exact ⟨h.stateCode, h.received, h.expected, h.copied, h.fields⟩
  · intro h
    exact ⟨rfl, rfl, hgen, h.stateCode, h.received, h.expected, h.copied, h.fields,
      finalize_crc m⟩

/-- The artifact or image of the update is complete. -/
structure Complete (m : BootMetadata) : Prop where
  updateId : m.activeUpdateId ≠ 0
  size : m.expectedSize ≠ 0
  received : m.receivedSize = m.expectedSize

theorem updatePayloadIsComplete_iff {m : BootMetadata} :
    m.updatePayloadIsComplete = true ↔ m.Complete := by
  unfold updatePayloadIsComplete
  simp only [Bool.and_eq_true, decide_eq_true_eq]
  exact ⟨fun h => ⟨h.1.1, h.1.2, h.2⟩, fun h => ⟨⟨h.updateId, h.size⟩, h.received⟩⟩

/-- What a consistent record satisfies in a state of the installation or the trial. -/
def FieldsOf (m : BootMetadata) : UpdateState → Prop
  | .backingUp =>
      m.Complete ∧ m.pendingVersion ≠ 0 ∧ m.bootAttempts = 0 ∧
        m.copyOffset.toNat ≤ applicationMaxSize ∧
        (m.copyOffset.toNat = applicationMaxSize ∨ m.copyOffset.toNat % extFlashSectorSize = 0)
  | .installing =>
      m.Complete ∧ m.copyOffset.toNat ≤ m.expectedSize.toNat ∧
        (m.copyOffset = m.expectedSize ∨ m.copyOffset.toNat % internalFlashPageSize = 0)
  | .verifyingInstall => m.Complete ∧ m.copyOffset = m.expectedSize
  | .trialBoot =>
      m.Complete ∧ m.pendingVersion ≠ 0 ∧ m.copyOffset = 0 ∧ m.bootAttempts.toNat ≤ 3
  | .confirmed =>
      m.Complete ∧ m.pendingVersion ≠ 0 ∧ m.copyOffset = 0 ∧ 0 < m.bootAttempts.toNat ∧
        m.bootAttempts.toNat ≤ 3
  | .rollback =>
      m.Complete ∧ m.pendingVersion ≠ 0 ∧ m.bootAttempts.toNat ≤ 3 ∧
        m.copyOffset.toNat ≤ applicationMaxSize ∧
        (m.copyOffset.toNat = applicationMaxSize ∨ m.copyOffset.toNat % internalFlashPageSize = 0)
  | _ => m.stateFieldsAreConsistent = true

theorem fieldsOf_iff {m : BootMetadata} {s : UpdateState} (h : m.state = s.code) :
    m.stateFieldsAreConsistent = true ↔ m.FieldsOf s := by
  have hmax : maxBootAttempts.toNat = 3 := rfl
  cases s <;> try exact Iff.rfl
  all_goals
    unfold stateFieldsAreConsistent FieldsOf
    rw [h, UpdateState.ofCode_code]
    simp only [Bool.and_eq_true, Bool.or_eq_true, decide_eq_true_eq, updatePayloadIsComplete_iff,
      UInt32.le_iff_toNat_le, UInt32.lt_iff_toNat_lt, gt_iff_lt, hmax, UInt32.toNat_zero, and_assoc]

theorem Valid.fieldsOf {m : BootMetadata} (h : m.Valid) {s : UpdateState} (hs : m.state = s.code) :
    m.FieldsOf s :=
  (fieldsOf_iff hs).1 h.fields

theorem Valid.idle_attempts {m : BootMetadata} (h : m.Valid)
    (hs : m.state = UpdateState.idle.code) : m.bootAttempts = 0 := by
  have hfields := h.fields
  unfold stateFieldsAreConsistent at hfields
  rw [hs, UpdateState.ofCode_code] at hfields
  simp only [Bool.and_eq_true, decide_eq_true_eq] at hfields
  exact hfields.2

theorem Valid.exists_state {m : BootMetadata} (h : m.Valid) : ∃ s : UpdateState, m.state = s.code := by
  have hfields := h.fields
  unfold stateFieldsAreConsistent at hfields
  cases hs : UpdateState.ofCode m.state with
  | none => simp [hs] at hfields
  | some s => exact ⟨s, UpdateState.ofCode_eq_some.1 hs⟩

theorem acceptable_of {m : BootMetadata} {s : UpdateState} (hs : m.state = s.code)
    (hreceived : m.receivedSize ≤ m.expectedSize) (hexpected : m.expectedSize.toNat ≤ extIncomingSize)
    (hcopied : m.copyOffset.toNat ≤ applicationMaxSize) (hfields : m.FieldsOf s) : m.Acceptable := by
  refine ⟨?_, hreceived, hexpected, hcopied, (fieldsOf_iff hs).2 hfields⟩
  rw [hs]
  cases s <;> rfl

/-! ## Partially programmed records -/

/-- The bytes of erased flash after the first `n` bytes of a record were programmed. -/
def tornBytes (m : BootMetadata) (n : Nat) : List UInt8 :=
  m.encode.take n ++ List.replicate (recordSize - n) 0xFF

/-- The record those bytes are read back as. -/
def torn (m : BootMetadata) (n : Nat) : BootMetadata :=
  decode (m.tornBytes n)

theorem tornBytes_getD_lt {m : BootMetadata} {n j : Nat} (hj : j < n) (hn : j < recordSize) :
    (m.tornBytes n).getD j 0 = m.encode.getD j 0 := by
  have hlen : j < (m.encode.take n).length := by
    rw [List.length_take, encode_length]
    omega
  rw [tornBytes, List.getD_append _ _ _ _ hlen, List.getD_eq_getElem?_getD,
    List.getElem?_take_of_lt hj, List.getD_eq_getElem?_getD]

theorem tornBytes_getD_ge {m : BootMetadata} {n j : Nat} (hn : n ≤ j) (hj : j < recordSize) :
    (m.tornBytes n).getD j 0 = 0xFF := by
  have hlen : (m.encode.take n).length = n := by
    rw [List.length_take, encode_length]
    omega
  rw [tornBytes, List.getD_append_right _ _ _ _ (by omega), hlen]
  exact List.getD_replicate _ (by omega)

/-- The programmed part, and erased flash behind it. -/
theorem tornBytes_getD (m : BootMetadata) (n j : Nat) :
    (m.tornBytes n).getD j 0xFF = if j < n ∧ j < recordSize then m.encode.getD j 0 else 0xFF := by
  have hlen : (m.tornBytes n).length = recordSize := by
    simp only [tornBytes, List.length_append, List.length_take, encode_length,
      List.length_replicate]
    omega
  by_cases hj : j < recordSize
  · have hdefault : (m.tornBytes n).getD j 0xFF = (m.tornBytes n).getD j 0 := by
      rw [List.getD_eq_getElem _ _ (by omega), List.getD_eq_getElem _ _ (by omega)]
    rw [hdefault]
    split
    · next h => exact tornBytes_getD_lt h.1 h.2
    · next h => exact tornBytes_getD_ge (by omega) hj
  · rw [List.getD_eq_default _ _ (by omega), if_neg (by omega)]

@[simp] theorem tornBytes_length (m : BootMetadata) (n : Nat) :
    (m.tornBytes n).length = recordSize := by
  simp only [tornBytes, List.length_append, List.length_take, encode_length, List.length_replicate]
  omega

/-- The CRC of a partially programmed record is that of the bytes it consists of. -/
theorem calculateCrc_torn (m : BootMetadata) (n : Nat) :
    (m.torn n).calculateCrc = Crc32.calculate ((m.tornBytes n).take crcOffset) := by
  rw [calculateCrc, torn, encode_decode (tornBytes_length m n)]

/-- Fields that were completely programmed are read back. -/
theorem torn_word {m : BootMetadata} {n o : Nat} (ho : o + 4 ≤ n) (hsize : o + 4 ≤ recordSize) :
    readLe32 (m.tornBytes n) o = readLe32 m.encode o := by
  apply readLe32_congr
  intro j hj
  exact tornBytes_getD_lt (by omega) (by omega)

/-- The seven fields that say where the update stands. -/
structure Agrees (r m : BootMetadata) : Prop where
  state : r.state = m.state
  activeVersion : r.activeVersion = m.activeVersion
  pendingVersion : r.pendingVersion = m.pendingVersion
  activeUpdateId : r.activeUpdateId = m.activeUpdateId
  receivedSize : r.receivedSize = m.receivedSize
  expectedSize : r.expectedSize = m.expectedSize
  copyOffset : r.copyOffset = m.copyOffset

theorem Agrees.trans {r m l : BootMetadata} (h : Agrees r m) (h' : Agrees m l) : Agrees r l :=
  ⟨h.state.trans h'.state, h.activeVersion.trans h'.activeVersion,
    h.pendingVersion.trans h'.pendingVersion, h.activeUpdateId.trans h'.activeUpdateId,
    h.receivedSize.trans h'.receivedSize, h.expectedSize.trans h'.expectedSize,
    h.copyOffset.trans h'.copyOffset⟩

/-- Records about the same update. -/
structure SameUpdate (c m : BootMetadata) : Prop where
  activeVersion : c.activeVersion = m.activeVersion
  pendingVersion : c.pendingVersion = m.pendingVersion
  activeUpdateId : c.activeUpdateId = m.activeUpdateId
  receivedSize : c.receivedSize = m.receivedSize
  expectedSize : c.expectedSize = m.expectedSize

theorem SameUpdate.refl (m : BootMetadata) : SameUpdate m m :=
  ⟨rfl, rfl, rfl, rfl, rfl⟩

theorem SameUpdate.trans {c m l : BootMetadata} (h : SameUpdate c m) (h' : SameUpdate m l) :
    SameUpdate c l :=
  ⟨h.activeVersion.trans h'.activeVersion, h.pendingVersion.trans h'.pendingVersion,
    h.activeUpdateId.trans h'.activeUpdateId, h.receivedSize.trans h'.receivedSize,
    h.expectedSize.trans h'.expectedSize⟩

/-- Changing other fields of a record keeps its update. -/
theorem SameUpdate.modify {x c m : BootMetadata} (h : SameUpdate c m) (hx : SameUpdate x c) :
    SameUpdate x m :=
  hx.trans h

theorem Agrees.sameUpdate {r m : BootMetadata} (h : Agrees r m) : SameUpdate r m :=
  ⟨h.activeVersion, h.pendingVersion, h.activeUpdateId, h.receivedSize, h.expectedSize⟩

/-- A committed record carries every field of its request. -/
structure Stores (r m : BootMetadata) : Prop extends Agrees r m where
  bootAttempts : r.bootAttempts = m.bootAttempts
  lastError : r.lastError = m.lastError

theorem torn_agrees {m : BootMetadata} {n : Nat} (hn : 40 ≤ n) : Agrees (m.torn n) m := by
  have hword : ∀ o, o + 4 ≤ 40 → readLe32 (m.tornBytes n) o = readLe32 m.encode o :=
    fun o ho => torn_word (by omega) (by unfold recordSize; omega)
  have hm := decode_encode m
  constructor
  · exact (hword 12 (by omega)).trans (congrArg BootMetadata.state hm)
  · exact (hword 16 (by omega)).trans (congrArg BootMetadata.activeVersion hm)
  · exact (hword 20 (by omega)).trans (congrArg BootMetadata.pendingVersion hm)
  · exact (hword 24 (by omega)).trans (congrArg BootMetadata.activeUpdateId hm)
  · exact (hword 28 (by omega)).trans (congrArg BootMetadata.receivedSize hm)
  · exact (hword 32 (by omega)).trans (congrArg BootMetadata.expectedSize hm)
  · exact (hword 36 (by omega)).trans (congrArg BootMetadata.copyOffset hm)

/-- Once the body is complete only the CRC field can differ. -/
theorem torn_of_body (m : BootMetadata) {n : Nat} (hn : crcOffset ≤ n) :
    m.torn n = { m with crc32 := (m.torn n).crc32 } := by
  unfold crcOffset at hn
  have hwords : m.torn n = layout.ofWords fun i =>
      if i = 12 then readLe32 (m.tornBytes n) 48 else readLe32 m.encode (4 * i) := by
    apply layout.ofWords_congr
    intro i hi
    have hcount : i < 13 := hi
    by_cases hcrc : i = 12
    · rw [if_pos hcrc, hcrc]
    · rw [if_neg hcrc]
      exact torn_word (by omega) (by unfold recordSize; omega)
  have hfields : (layout.ofWords fun i =>
      if i = 12 then readLe32 (m.tornBytes n) 48 else readLe32 m.encode (4 * i)) =
      { decode m.encode with crc32 := (m.torn n).crc32 } := rfl
  rw [decode_encode] at hfields
  exact hwords.trans hfields

theorem torn_of_complete {m : BootMetadata} {n : Nat} (hn : recordSize ≤ n) : m.torn n = m := by
  have hbytes : m.tornBytes n = m.encode := by
    rw [tornBytes, List.take_of_length_le (by simpa using hn), Nat.sub_eq_zero_of_le hn]
    simp
  rw [torn, hbytes, decode_encode]

/-- Before the body is complete the CRC field is still erased. -/
theorem torn_crc_erased {m : BootMetadata} {n : Nat} (hn : n ≤ crcOffset) :
    (m.torn n).crc32 = 0xFFFFFFFF := by
  unfold crcOffset at hn
  have herased : ∀ j, 48 ≤ j → j < 52 → (m.tornBytes n).getD j 0 = 0xFF :=
    fun j h₁ h₂ => tornBytes_getD_ge (by omega) (by unfold recordSize; omega)
  show readLe32 (m.tornBytes n) 48 = 0xFFFFFFFF
  unfold readLe32
  rw [herased 48 (by omega) (by omega), herased 49 (by omega) (by omega),
    herased 50 (by omega) (by omega), herased 51 (by omega) (by omega)]
  decide

/--
A partially programmed record that validates is complete up to its CRC, or the
CRC of its body is the value of erased flash.
-/
theorem torn_valid_cases {m : BootMetadata} {n : Nat} (hm : m.crc32 = m.calculateCrc)
    (hv : (m.torn n).Valid) : m.torn n = m ∨ (m.torn n).calculateCrc = 0xFFFFFFFF := by
  rcases Nat.lt_or_ge n crcOffset with hn | hn
  · right
    rw [← hv.crc]
    exact torn_crc_erased (by omega)
  · left
    have hbody := torn_of_body m hn
    have hcrc : (m.torn n).crc32 = m.crc32 := by
      rw [hv.crc, hm, hbody]
      exact calculateCrc_congr
    rw [hbody, hcrc]

theorem ofLe32_erased_top (b₀ b₁ b₂ : UInt8) : 0xFF000000 ≤ (ofLe32 b₀ b₁ b₂ 0xFF).toNat := by
  have htop : ((0xFF : UInt8).toUInt32 <<< 24).toNat = 0xFF000000 := by decide
  rw [ofLe32, UInt32.toNat_or, htop]
  exact Nat.right_le_or

/-- A partially programmed record that validates is programmed up to the copy offset. -/
theorem torn_valid_programmed {m : BootMetadata} {n : Nat} (hv : (m.torn n).Valid) : 40 ≤ n := by
  by_contra hn
  have htop : (m.tornBytes n).getD 39 0 = 0xFF :=
    tornBytes_getD_ge (by omega) (by unfold recordSize; omega)
  have hcopy := hv.copied
  have hlarge : 0xFF000000 ≤ (m.torn n).copyOffset.toNat := by
    show 0xFF000000 ≤ (readLe32 (m.tornBytes n) 36).toNat
    unfold readLe32
    rw [htop]
    exact ofLe32_erased_top _ _ _
  unfold applicationMaxSize at hcopy
  omega

/-- So it already says where the update stands. -/
theorem torn_valid_agrees {m : BootMetadata} {n : Nat} (hv : (m.torn n).Valid) :
    Agrees (m.torn n) m :=
  torn_agrees (torn_valid_programmed hv)

theorem torn_valid_generation {m : BootMetadata} {n : Nat} (hv : (m.torn n).Valid) :
    (m.torn n).generation = m.generation := by
  have hn := torn_valid_programmed hv
  have hword : readLe32 (m.tornBytes n) 4 = readLe32 m.encode 4 :=
    torn_word (by omega) (by unfold recordSize; omega)
  exact hword.trans (congrArg BootMetadata.generation (decode_encode m))

end BootMetadata

end SecureDeltaOta
