import SecureDeltaOta.Memory.Bytes
import SecureDeltaOta.Shared.MemoryMap

/-!
# The firmware container header

`firmware_container.c`: a fixed header of 120 bytes and an extension of 20
bytes, followed in the artifact by the payload and a 64-byte signature.
-/

namespace SecureDeltaOta

open Memory

namespace FirmwareContainer

def magic : UInt32 := 0x544F4453

def formatVersion : UInt16 := 1

def fixedHeaderSize : Nat := 120

def extensionMagic : UInt32 := 0x31584353

def extensionVersion : UInt16 := 1

def extensionSize : Nat := 20

def headerSize : Nat := fixedHeaderSize + extensionSize

def productId : UInt32 := 0x00001001

def hardwareRevision : UInt32 := 1

def imageFull : UInt32 := 1

def imageDelta : UInt32 := 2

def flagsNone : UInt32 := 0

def hashSha256 : UInt16 := 1

def signatureEcdsaP256 : UInt16 := 1

def signatureSize : Nat := 64

def sha256Size : Nat := 32

def extReconstructedSize : Nat := ExternalPartition.reconstructed.size

structure Header where
  magic : UInt32
  formatVersion : UInt16
  headerSize : UInt16
  productId : UInt32
  hardwareRevision : UInt32
  imageType : UInt32
  flags : UInt32
  baseVersion : UInt32
  targetVersion : UInt32
  payloadSize : UInt32
  targetImageSize : UInt32
  targetLoadAddress : UInt32
  baseImageSha256 : List UInt8
  targetImageSha256 : List UInt8
  payloadCrc32 : UInt32
  hashAlgorithm : UInt16
  signatureAlgorithm : UInt16
  signatureSize : UInt16
  reserved : UInt16
  deriving DecidableEq, Repr

structure Extension where
  extensionMagic : UInt32
  extensionVersion : UInt16
  extensionSize : UInt16
  keyId : UInt32
  baseImageSize : UInt32
  targetImageCrc32 : UInt32
  deriving DecidableEq, Repr

structure Info where
  header : Header
  extension : Extension
  payloadOffset : Nat
  signatureOffset : Nat
  totalSize : Nat
  deriving DecidableEq, Repr

inductive Status where
  | invalidMagic
  | invalidFormatVersion
  | invalidHeaderSize
  | invalidProduct
  | invalidHardware
  | invalidImageType
  | invalidFlags
  | invalidVersion
  | invalidPayloadSize
  | invalidTargetSize
  | invalidTargetAddress
  | invalidHashAlgorithm
  | invalidSignatureAlgorithm
  | invalidSignatureSize
  | invalidReserved
  | invalidExtension
  | invalidBaseSize
  | invalidTotalSize
  deriving DecidableEq, Repr

/-- `FirmwareContainer_GetU16Le` at an offset. -/
def getU16Le (bytes : List UInt8) (offset : Nat) : UInt16 :=
  (bytes.getD offset 0).toUInt16 ||| ((bytes.getD (offset + 1) 0).toUInt16 <<< 8)

/-- `FirmwareContainer_GetU32Le` at an offset. -/
def getU32Le (bytes : List UInt8) (offset : Nat) : UInt32 := readLe32 bytes offset

def hashIsZero (hash : List UInt8) : Bool :=
  hash.foldl (· ||| ·) 0 = 0

/-- The fields of the fixed header in raw bytes. -/
def decodeFixed (raw : List UInt8) : Header where
  magic := getU32Le raw 0
  formatVersion := getU16Le raw 4
  headerSize := getU16Le raw 6
  productId := getU32Le raw 8
  hardwareRevision := getU32Le raw 12
  imageType := getU32Le raw 16
  flags := getU32Le raw 20
  baseVersion := getU32Le raw 24
  targetVersion := getU32Le raw 28
  payloadSize := getU32Le raw 32
  targetImageSize := getU32Le raw 36
  targetLoadAddress := getU32Le raw 40
  baseImageSha256 := (raw.drop 44).take sha256Size
  targetImageSha256 := (raw.drop 76).take sha256Size
  payloadCrc32 := getU32Le raw 108
  hashAlgorithm := getU16Le raw 112
  signatureAlgorithm := getU16Le raw 114
  signatureSize := getU16Le raw 116
  reserved := getU16Le raw 118

/-- The checks of `ParseFixed`, in their order; none is the valid header. -/
def checkFixed (h : Header) : Option Status :=
  if h.magic ≠ FirmwareContainer.magic then some .invalidMagic
  else if h.formatVersion ≠ FirmwareContainer.formatVersion then some .invalidFormatVersion
  else if h.headerSize.toNat ≠ FirmwareContainer.headerSize then some .invalidHeaderSize
  else if h.productId ≠ FirmwareContainer.productId then some .invalidProduct
  else if h.hardwareRevision ≠ FirmwareContainer.hardwareRevision then some .invalidHardware
  else if h.imageType ≠ imageFull ∧ h.imageType ≠ imageDelta then some .invalidImageType
  else if h.flags ≠ flagsNone then some .invalidFlags
  else if h.targetVersion = 0 then some .invalidVersion
  else if h.payloadSize = 0 ∨ h.payloadSize.toNat >
      extIncomingSize - FirmwareContainer.headerSize - FirmwareContainer.signatureSize then
    some .invalidPayloadSize
  else if h.targetImageSize < 8 ∨ h.targetImageSize.toNat > applicationMaxSize ∨
      h.targetImageSize.toNat > extReconstructedSize then
    some .invalidTargetSize
  else if h.targetLoadAddress.toNat ≠ applicationStartAddress then some .invalidTargetAddress
  else if h.hashAlgorithm ≠ hashSha256 then some .invalidHashAlgorithm
  else if h.signatureAlgorithm ≠ signatureEcdsaP256 then some .invalidSignatureAlgorithm
  else if h.signatureSize.toNat ≠ FirmwareContainer.signatureSize then some .invalidSignatureSize
  else if h.reserved ≠ 0 then some .invalidReserved
  else none

/-- The fields of the extension in raw bytes. -/
def decodeExtension (raw : List UInt8) : Extension where
  extensionMagic := getU32Le raw fixedHeaderSize
  extensionVersion := getU16Le raw (fixedHeaderSize + 4)
  extensionSize := getU16Le raw (fixedHeaderSize + 6)
  keyId := getU32Le raw (fixedHeaderSize + 8)
  baseImageSize := getU32Le raw (fixedHeaderSize + 12)
  targetImageCrc32 := getU32Le raw (fixedHeaderSize + 16)

/-- The check of `ParseExtension`. -/
def checkExtension (e : Extension) : Option Status :=
  if e.extensionMagic ≠ FirmwareContainer.extensionMagic ∨
      e.extensionVersion ≠ FirmwareContainer.extensionVersion ∨
      e.extensionSize.toNat ≠ FirmwareContainer.extensionSize ∨ e.keyId = 0 then
    some .invalidExtension
  else none

/-- What the two parts of the header must agree on for the image type. -/
def checkBase (h : Header) (e : Extension) : Option Status :=
  if h.imageType = imageFull then
    if h.baseVersion ≠ 0 ∨ e.baseImageSize ≠ 0 ∨ hashIsZero h.baseImageSha256 = false ∨
        h.payloadSize ≠ h.targetImageSize then some .invalidBaseSize
    else none
  else if h.baseVersion = 0 ∨ e.baseImageSize < 8 ∨ e.baseImageSize.toNat > applicationMaxSize ∨
      hashIsZero h.baseImageSha256 = true then some .invalidBaseSize
  else none

/-- The check of the sizes against the artifact; the size zero stands for any. -/
def checkTotal (h : Header) (artifactSize : UInt32) : Option Status :=
  if h.payloadSize.toNat > 0xFFFFFFFF - h.headerSize.toNat - h.signatureSize.toNat then
    some .invalidTotalSize
  else if artifactSize ≠ 0 ∧ artifactSize.toNat ≠
      h.headerSize.toNat + h.payloadSize.toNat + h.signatureSize.toNat then
    some .invalidTotalSize
  else none

/-- `FirmwareContainer_Parse`. -/
def parse (raw : List UInt8) (artifactSize : UInt32) : Except Status Info :=
  let header := decodeFixed raw
  let extension := decodeExtension raw
  match checkFixed header with
  | some status => .error status
  | none =>
      match checkExtension extension with
      | some status => .error status
      | none =>
          match checkBase header extension with
          | some status => .error status
          | none =>
              match checkTotal header artifactSize with
              | some status => .error status
              | none =>
                  .ok
                    { header := header
                      extension := extension
                      payloadOffset := header.headerSize.toNat
                      signatureOffset := header.headerSize.toNat + header.payloadSize.toNat
                      totalSize := header.headerSize.toNat + header.payloadSize.toNat +
                        header.signatureSize.toNat }

/-! ## What an accepted header satisfies -/

/-- The conditions of an accepted header, as facts. -/
structure WellFormed (h : Header) (e : Extension) : Prop where
  magic : h.magic = FirmwareContainer.magic
  formatVersion : h.formatVersion = FirmwareContainer.formatVersion
  headerSize : h.headerSize.toNat = FirmwareContainer.headerSize
  productId : h.productId = FirmwareContainer.productId
  hardwareRevision : h.hardwareRevision = FirmwareContainer.hardwareRevision
  imageType : h.imageType = imageFull ∨ h.imageType = imageDelta
  flags : h.flags = flagsNone
  targetVersion : h.targetVersion ≠ 0
  payloadSize_pos : h.payloadSize ≠ 0
  payloadSize_le : h.payloadSize.toNat ≤
    extIncomingSize - FirmwareContainer.headerSize - FirmwareContainer.signatureSize
  targetSize_ge : 8 ≤ h.targetImageSize.toNat
  targetSize_le : h.targetImageSize.toNat ≤ applicationMaxSize
  targetLoadAddress : h.targetLoadAddress.toNat = applicationStartAddress
  hashAlgorithm : h.hashAlgorithm = hashSha256
  signatureAlgorithm : h.signatureAlgorithm = signatureEcdsaP256
  signatureSize : h.signatureSize.toNat = FirmwareContainer.signatureSize
  reserved : h.reserved = 0
  extensionMagic : e.extensionMagic = FirmwareContainer.extensionMagic
  extensionVersion : e.extensionVersion = FirmwareContainer.extensionVersion
  extensionSize : e.extensionSize.toNat = FirmwareContainer.extensionSize
  keyId : e.keyId ≠ 0
  full : h.imageType = imageFull → h.baseVersion = 0 ∧ e.baseImageSize = 0 ∧
    hashIsZero h.baseImageSha256 = true ∧ h.payloadSize = h.targetImageSize
  delta : h.imageType = imageDelta → h.baseVersion ≠ 0 ∧ 8 ≤ e.baseImageSize.toNat ∧
    e.baseImageSize.toNat ≤ applicationMaxSize ∧ hashIsZero h.baseImageSha256 = false

/-- The container with this header and extension. -/
def infoOf (h : Header) (e : Extension) : Info where
  header := h
  extension := e
  payloadOffset := headerSize
  signatureOffset := headerSize + h.payloadSize.toNat
  totalSize := headerSize + h.payloadSize.toNat + signatureSize

/-- A chain of checks passes when each of them does. -/
theorem check_eq_none {c : Prop} [Decidable c] {status : Status} {rest : Option Status} :
    (if c then some status else rest) = none ↔ ¬ c ∧ rest = none := by
  split <;> simp [*]

theorem eight_le_iff {n : UInt32} : ¬ n < 8 ↔ 8 ≤ n.toNat := by
  simp [UInt32.le_iff_toNat_le]

theorem checkFixed_eq_none {h : Header} {e : Extension} (hw : WellFormed h e) :
    checkFixed h = none := by
  have hreconstructed : applicationMaxSize ≤ extReconstructedSize := by decide
  have hsize := hw.targetSize_le
  have himage : ¬ (h.imageType ≠ imageFull ∧ h.imageType ≠ imageDelta) := fun hbad =>
    hw.imageType.elim hbad.1 hbad.2
  simp only [checkFixed, check_eq_none, and_true]
  exact ⟨not_not.2 hw.magic, not_not.2 hw.formatVersion, not_not.2 hw.headerSize,
    not_not.2 hw.productId, not_not.2 hw.hardwareRevision, himage, not_not.2 hw.flags,
    hw.targetVersion, not_or.2 ⟨hw.payloadSize_pos, not_lt.2 hw.payloadSize_le⟩,
    not_or.2 ⟨eight_le_iff.2 hw.targetSize_ge, not_or.2 ⟨not_lt.2 hsize,
      not_lt.2 (hsize.trans hreconstructed)⟩⟩,
    not_not.2 hw.targetLoadAddress, not_not.2 hw.hashAlgorithm, not_not.2 hw.signatureAlgorithm,
    not_not.2 hw.signatureSize, not_not.2 hw.reserved⟩

theorem checkExtension_eq_none {h : Header} {e : Extension} (hw : WellFormed h e) :
    checkExtension e = none := by
  simp [checkExtension, hw.extensionMagic, hw.extensionVersion, hw.extensionSize, hw.keyId]

theorem checkBase_eq_none {h : Header} {e : Extension} (hw : WellFormed h e) :
    checkBase h e = none := by
  unfold checkBase
  rcases hw.imageType with hfull | hdelta
  · rw [if_pos hfull, if_neg]
    simpa using hw.full hfull
  · obtain ⟨h₁, h₂, h₃, h₄⟩ := hw.delta hdelta
    rw [if_neg (by rw [hdelta]; decide), if_neg]
    simp only [not_or]
    exact ⟨h₁, eight_le_iff.2 h₂, not_lt.2 h₃, by simp [h₄]⟩

theorem wellFormed_of_checks {h : Header} {e : Extension} (hfixed : checkFixed h = none)
    (hextension : checkExtension e = none) (hbase : checkBase h e = none) : WellFormed h e := by
  simp only [checkFixed, check_eq_none, and_true] at hfixed
  simp only [checkExtension, check_eq_none, and_true, not_or, ne_eq, not_not] at hextension
  obtain ⟨h₁, h₂, h₃, h₄, h₅, h₆, h₇, h₈, h₉, h₁₀, h₁₁, h₁₂, h₁₃, h₁₄, h₁₅⟩ := hfixed
  rw [not_or] at h₉ h₁₀
  rw [not_or] at h₁₀
  have himage : h.imageType = imageFull ∨ h.imageType = imageDelta := by
    by_contra hneither
    exact h₆ (not_or.1 hneither)
  refine ⟨not_not.1 h₁, not_not.1 h₂, not_not.1 h₃, not_not.1 h₄, not_not.1 h₅, himage,
    not_not.1 h₇, h₈, h₉.1, not_lt.1 h₉.2, eight_le_iff.1 h₁₀.1, not_lt.1 h₁₀.2.1,
    not_not.1 h₁₁, not_not.1 h₁₂, not_not.1 h₁₃, not_not.1 h₁₄, not_not.1 h₁₅,
    hextension.1, hextension.2.1, hextension.2.2.1, hextension.2.2.2, ?_, ?_⟩
  · intro hfull
    rw [checkBase, if_pos hfull, check_eq_none] at hbase
    simpa using hbase.1
  · intro hdelta
    rw [checkBase, if_neg (by rw [hdelta]; decide), check_eq_none] at hbase
    simp only [not_or, eight_le_iff, gt_iff_lt, not_lt, Bool.not_eq_true] at hbase
    exact hbase.1

theorem checkTotal_eq_none {h : Header} {e : Extension} (hw : WellFormed h e)
    (artifactSize : UInt32) :
    checkTotal h artifactSize = none ↔
      artifactSize = 0 ∨ artifactSize.toNat = (infoOf h e).totalSize := by
  have hle := hw.payloadSize_le
  have hbound : extIncomingSize - headerSize - signatureSize ≤
      0xFFFFFFFF - headerSize - signatureSize := by decide
  unfold checkTotal
  rw [hw.headerSize, hw.signatureSize, if_neg (by omega)]
  split_ifs with hbad
  · simp only [infoOf, false_iff]
    tauto
  · simp only [infoOf, true_iff]
    tauto

/-- What the parser accepts. -/
theorem parse_eq_ok {raw : List UInt8} {artifactSize : UInt32} {info : Info} :
    parse raw artifactSize = .ok info ↔
      WellFormed (decodeFixed raw) (decodeExtension raw) ∧
        info = infoOf (decodeFixed raw) (decodeExtension raw) ∧
        (artifactSize = 0 ∨ artifactSize.toNat = info.totalSize) := by
  unfold parse
  constructor
  · intro h
    dsimp only at h
    split at h
    · cases h
    · next hfixed =>
      split at h
      · cases h
      · next hextension =>
        split at h
        · cases h
        · next hbase =>
          have hw := wellFormed_of_checks hfixed hextension hbase
          split at h
          · cases h
          · next htotal =>
            rw [hw.headerSize, hw.signatureSize] at h
            cases h
            exact ⟨hw, rfl, (checkTotal_eq_none hw artifactSize).1 htotal⟩
  · rintro ⟨hw, rfl, hsize⟩
    dsimp only
    rw [checkFixed_eq_none hw, checkExtension_eq_none hw, checkBase_eq_none hw]
    dsimp only
    rw [(checkTotal_eq_none hw artifactSize).2 hsize]
    dsimp only
    rw [hw.headerSize, hw.signatureSize]
    rfl

end FirmwareContainer

end SecureDeltaOta
