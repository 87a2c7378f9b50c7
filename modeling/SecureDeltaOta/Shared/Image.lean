import SecureDeltaOta.Memory.Bytes
import SecureDeltaOta.Shared.Digest
import SecureDeltaOta.Shared.MemoryMap

/-!
# Images, their progress records and the backup header

`full_image_validation.c`, `install_progress.c`, `backup_progress.c` and
`backup_image.c`: when a vector table is acceptable, where a copy may resume,
and the header that makes the contents of the backup partition a backup.
-/

namespace SecureDeltaOta

open Memory

/-! ## Vector tables -/

inductive FullImageValidationStatus where
  | valid
  | tooSmall
  | tooLarge
  | badStackRange
  | badStackAlignment
  | badResetThumbBit
  | badResetRange
  deriving DecidableEq, Repr

namespace FullImage

def requiredStackAlignment : Nat := 8

def validateVector (imageSize initialStackPointer resetHandlerAddress : Nat) :
    FullImageValidationStatus :=
  if imageSize < 8 then .tooSmall
  else if imageSize > applicationMaxSize then .tooLarge
  else if initialStackPointer < internalSramBase ∨ initialStackPointer > internalSramEnd then
    .badStackRange
  else if initialStackPointer % requiredStackAlignment ≠ 0 then .badStackAlignment
  else if resetHandlerAddress % 2 = 0 then .badResetThumbBit
  else
    -- the Thumb bit is cleared
    let resetCode := resetHandlerAddress - 1
    let imageEnd := applicationStartAddress + imageSize
    if resetCode < applicationStartAddress ∨ resetCode ≥ imageEnd then .badResetRange else .valid

/-- The conditions of a valid vector table, as facts. -/
structure VectorValid (imageSize initialStackPointer resetHandlerAddress : Nat) : Prop where
  minSize : 8 ≤ imageSize
  maxSize : imageSize ≤ applicationMaxSize
  stackLow : internalSramBase ≤ initialStackPointer
  stackHigh : initialStackPointer ≤ internalSramEnd
  stackAligned : initialStackPointer % requiredStackAlignment = 0
  thumb : resetHandlerAddress % 2 ≠ 0
  resetLow : applicationStartAddress ≤ resetHandlerAddress - 1
  resetHigh : resetHandlerAddress - 1 < applicationStartAddress + imageSize

theorem validateVector_eq_valid {size sp reset : Nat} :
    validateVector size sp reset = .valid ↔ VectorValid size sp reset := by
  unfold validateVector
  constructor
  · intro h
    dsimp only at h
    split_ifs at h with h₁ h₂ h₃ h₄ h₅ h₆
    simp only [not_or, not_lt, gt_iff_lt, ge_iff_le, not_le, ne_eq, not_not] at *
    exact ⟨h₁, h₂, h₃.1, h₃.2, h₄, h₅, h₆.1, h₆.2⟩
  · rintro ⟨h₁, h₂, h₃, h₄, h₅, h₆, h₇, h₈⟩
    rw [if_neg (by omega), if_neg (by omega), if_neg (by omega), if_neg (not_not.2 h₅), if_neg h₆,
      if_neg (by omega)]

end FullImage

/-! ## Progress of the page-wise copy -/

inductive InstallProgressStatus where
  | valid
  | invalidImageSize
  | invalidOffset
  | invalidAlignment
  deriving DecidableEq, Repr

namespace InstallProgress

def validate (imageSize copyOffset : Nat) : InstallProgressStatus :=
  if imageSize < 8 ∨ imageSize > applicationMaxSize then .invalidImageSize
  else if copyOffset > imageSize then .invalidOffset
  else if copyOffset ≠ imageSize ∧ copyOffset % internalFlashPageSize ≠ 0 then .invalidAlignment
  else .valid

def pageLength (imageSize copyOffset : Nat) : Nat :=
  if validate imageSize copyOffset ≠ .valid then 0
  else if copyOffset = imageSize then 0
  else
    let remaining := imageSize - copyOffset
    if remaining > internalFlashPageSize then internalFlashPageSize else remaining

def nextCheckpoint (imageSize copyOffset : Nat) : Nat :=
  let length := pageLength imageSize copyOffset
  if length = 0 then copyOffset else copyOffset + length

theorem validate_eq_valid {size offset : Nat} :
    validate size offset = .valid ↔
      8 ≤ size ∧ size ≤ applicationMaxSize ∧ offset ≤ size ∧
        (offset = size ∨ offset % internalFlashPageSize = 0) := by
  unfold validate
  constructor
  · intro h
    split_ifs at h with h₁ h₂ h₃
    omega
  · rintro ⟨h₁, h₂, h₃, h₄⟩
    rw [if_neg (by omega), if_neg (by omega), if_neg (by omega)]

theorem pageLength_eq {size offset : Nat} (h : validate size offset = .valid)
    (hlt : offset < size) : pageLength size offset = min internalFlashPageSize (size - offset) := by
  unfold pageLength
  rw [if_neg (not_not.2 h), if_neg (by omega)]
  dsimp only
  split <;> omega

theorem nextCheckpoint_eq {size offset : Nat} (h : validate size offset = .valid)
    (hlt : offset < size) :
    nextCheckpoint size offset = offset + min internalFlashPageSize (size - offset) := by
  have hpage : 0 < internalFlashPageSize := by decide
  unfold nextCheckpoint
  rw [pageLength_eq h hlt]
  dsimp only
  rw [if_neg (by omega)]

/-- The next checkpoint is again a place to resume. -/
theorem validate_nextCheckpoint {size offset : Nat} (h : validate size offset = .valid)
    (hlt : offset < size) : validate size (nextCheckpoint size offset) = .valid := by
  rw [nextCheckpoint_eq h hlt, validate_eq_valid]
  rw [validate_eq_valid] at h
  unfold internalFlashPageSize at *
  omega

end InstallProgress

/-! ## Progress of the backup -/

inductive BackupProgressStatus where
  | valid
  | invalidOffset
  | invalidAlignment
  deriving DecidableEq, Repr

namespace BackupProgress

def validate (copyOffset : Nat) : BackupProgressStatus :=
  if copyOffset > applicationMaxSize then .invalidOffset
  else if copyOffset ≠ applicationMaxSize ∧ copyOffset % extFlashSectorSize ≠ 0 then
    .invalidAlignment
  else .valid

def chunkLength (copyOffset : Nat) : Nat :=
  if validate copyOffset ≠ .valid then 0
  else if copyOffset = applicationMaxSize then 0
  else
    let remaining := applicationMaxSize - copyOffset
    if remaining > extFlashSectorSize then extFlashSectorSize else remaining

def nextCheckpoint (copyOffset : Nat) : Nat :=
  copyOffset + chunkLength copyOffset

theorem validate_eq_valid {offset : Nat} :
    validate offset = .valid ↔ offset ≤ applicationMaxSize ∧
      (offset = applicationMaxSize ∨ offset % extFlashSectorSize = 0) := by
  unfold validate
  constructor
  · intro h
    split_ifs at h with h₁ h₂
    omega
  · rintro ⟨h₁, h₂⟩
    rw [if_neg (by omega), if_neg (by omega)]

theorem chunkLength_eq {offset : Nat} (h : validate offset = .valid)
    (hlt : offset < applicationMaxSize) :
    chunkLength offset = min extFlashSectorSize (applicationMaxSize - offset) := by
  unfold chunkLength
  rw [if_neg (not_not.2 h), if_neg (by omega)]
  dsimp only
  split <;> omega

theorem validate_nextCheckpoint {offset : Nat} (h : validate offset = .valid)
    (hlt : offset < applicationMaxSize) : validate (nextCheckpoint offset) = .valid := by
  rw [nextCheckpoint, chunkLength_eq h hlt, validate_eq_valid]
  rw [validate_eq_valid] at h
  unfold extFlashSectorSize at *
  omega

end BackupProgress

/-! ## The backup header -/

structure BackupImageRecord where
  magic : UInt32
  formatVersion : UInt32
  activeVersion : UInt32
  imageSize : UInt32
  imageCrc32 : UInt32
  loadAddress : UInt32
  crc32 : UInt32
  deriving DecidableEq, Repr

inductive BackupImageValidationStatus where
  | valid
  | invalidMagic
  | invalidVersion
  | invalidActiveVersion
  | invalidSize
  | invalidLoadAddress
  | invalidCrc
  deriving DecidableEq, Repr

namespace BackupImage

def expectedMagic : UInt32 := 0x38504B42

def expectedFormatVersion : UInt32 := 1

/-- Where the image begins in the backup partition; the header has a sector of its own. -/
def dataOffset : Nat := 0x1000

def layout : WordRecord BackupImageRecord where
  count := 7
  toWords r := [r.magic, r.formatVersion, r.activeVersion, r.imageSize, r.imageCrc32,
    r.loadAddress, r.crc32]
  ofWords w := ⟨w 0, w 1, w 2, w 3, w 4, w 5, w 6⟩
  toWords_length _ := rfl
  ofWords_toWords _ := rfl
  toWords_ofWords _ := rfl
  ofWords_congr f g h := by simp [h]

def recordSize : Nat := 28

def crcOffset : Nat := 24

def init (activeVersion imageCrc32 : UInt32) : BackupImageRecord where
  magic := expectedMagic
  formatVersion := expectedFormatVersion
  activeVersion := activeVersion
  imageSize := UInt32.ofNat applicationMaxSize
  imageCrc32 := imageCrc32
  loadAddress := UInt32.ofNat applicationStartAddress
  crc32 := 0

def calculateCrc (r : BackupImageRecord) : UInt32 :=
  Crc32.calculate ((layout.encode r).take crcOffset)

def finalize (r : BackupImageRecord) : BackupImageRecord :=
  let r := { r with magic := expectedMagic, formatVersion := expectedFormatVersion }
  { r with crc32 := calculateCrc r }

def validate (r : BackupImageRecord) : BackupImageValidationStatus :=
  if r.magic ≠ expectedMagic then .invalidMagic
  else if r.formatVersion ≠ expectedFormatVersion then .invalidVersion
  else if r.activeVersion = 0 then .invalidActiveVersion
  else if r.imageSize ≠ UInt32.ofNat applicationMaxSize then .invalidSize
  else if r.loadAddress ≠ UInt32.ofNat applicationStartAddress then .invalidLoadAddress
  else if r.crc32 ≠ calculateCrc r then .invalidCrc
  else .valid

/-- A finalised header of an image of some version is valid. -/
theorem validate_finalize_init {version crc : UInt32} (h : version ≠ 0) :
    validate (finalize (init version crc)) = .valid := by
  have hcrc : (finalize (init version crc)).crc32 = calculateCrc (finalize (init version crc)) := rfl
  have hversion : (finalize (init version crc)).activeVersion ≠ 0 := h
  simp [validate, hcrc, hversion]
  simp [finalize, init]

/-- There is no backup of an application without a version. -/
theorem validate_finalize_init_zero {crc : UInt32} :
    validate (finalize (init 0 crc)) ≠ .valid := by
  have hversion : (finalize (init 0 crc)).activeVersion = 0 := rfl
  unfold validate
  split_ifs <;> simp_all

end BackupImage

end SecureDeltaOta
