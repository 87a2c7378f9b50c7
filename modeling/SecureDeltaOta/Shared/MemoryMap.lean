import Mathlib.Tactic

/-!
# Memory map

The address space of the node: the internal flash of the microcontroller with
the bootloader, the application and the two metadata pages, and the partitions
of the external NOR flash.
-/

namespace SecureDeltaOta

def internalFlashPageSize : Nat := 1024

def internalSramBase : Nat := 0x20000000

def internalSramEnd : Nat := internalSramBase + 20 * 1024

def applicationStartAddress : Nat := 0x08006000

def applicationMaxSize : Nat := 38 * 1024

def bootMetadataAAddress : Nat := 0x0800F800

def bootMetadataBAddress : Nat := 0x0800FC00

def bootMetadataAddress : Nat := bootMetadataAAddress

def extFlashSize : Nat := 0x400000

def extFlashSectorSize : Nat := 0x1000

def extFlashPageSize : Nat := 0x100

def extMetadataHandoffOffset : Nat := 0x0000

def extMetadataDownloadOffset : Nat := 0x0100

def extIncomingSize : Nat := 0x20000

/-- The partitions of the external flash. -/
inductive ExternalPartition where
  | metadataA
  | metadataB
  | incoming
  | reconstructed
  | backup
  | log
  | selfTest
  deriving DecidableEq, Repr

namespace ExternalPartition

def address : ExternalPartition → Nat
  | metadataA => 0x000000
  | metadataB => 0x001000
  | incoming => 0x002000
  | reconstructed => 0x022000
  | backup => 0x042000
  | log => 0x062000
  | selfTest => extFlashSize - extFlashSectorSize

def size : ExternalPartition → Nat
  | metadataA => extFlashSectorSize
  | metadataB => extFlashSectorSize
  | incoming => extIncomingSize
  | reconstructed => 0x20000
  | backup => 0x20000
  | log => 0x10000
  | selfTest => extFlashSectorSize

/-- The addresses of a partition. -/
def Contains (p : ExternalPartition) (a : Nat) : Prop :=
  p.address ≤ a ∧ a < p.address + p.size

instance (p : ExternalPartition) (a : Nat) : Decidable (p.Contains a) :=
  inferInstanceAs (Decidable (_ ∧ _))

theorem end_le_extFlashSize (p : ExternalPartition) : p.address + p.size ≤ extFlashSize := by
  cases p <;> decide

/-- An address lies in at most one partition. -/
theorem eq_of_contains {p q : ExternalPartition} {a : Nat} (hp : p.Contains a)
    (hq : q.Contains a) : p = q := by
  unfold Contains at hp hq
  cases p <;> cases q <;> first
    | rfl
    | (simp only [address, size, extFlashSize, extFlashSectorSize, extIncomingSize] at hp hq
       omega)

end ExternalPartition

/-! ## Ranges of the external flash -/

namespace ExtFlash

def isRangeValid (regionSize offset length : Nat) : Bool :=
  if offset > regionSize then false else length ≤ regionSize - offset

def isAbsoluteRangeValid (address length : Nat) : Bool :=
  isRangeValid extFlashSize address length

def isSectorAligned (address : Nat) : Bool :=
  address % extFlashSectorSize = 0

def pageChunkLength (address remainingLength : Nat) : Nat :=
  let pageOffset := address % extFlashPageSize
  let pageRemaining := extFlashPageSize - pageOffset
  if remainingLength < pageRemaining then remainingLength else pageRemaining

theorem isRangeValid_iff {regionSize offset length : Nat} :
    isRangeValid regionSize offset length = true ↔ offset + length ≤ regionSize := by
  unfold isRangeValid
  split
  · simp only [Bool.false_eq_true, false_iff]
    omega
  · simp only [decide_eq_true_eq]
    omega

theorem pageChunkLength_pos (address : Nat) {remaining : Nat} (h : 0 < remaining) :
    0 < pageChunkLength address remaining := by
  unfold pageChunkLength extFlashPageSize
  grind

theorem pageChunkLength_le (address remaining : Nat) :
    pageChunkLength address remaining ≤ remaining := by
  unfold pageChunkLength
  grind

/-- A page chunk does not cross the end of its page, so it is its own page chunk. -/
theorem pageChunkLength_idem (address remaining : Nat) :
    pageChunkLength address (pageChunkLength address remaining) =
      pageChunkLength address remaining := by
  unfold pageChunkLength
  grind

end ExtFlash

end SecureDeltaOta
