import SecureDeltaOta.Crash.Program
import SecureDeltaOta.Shared.BootMetadata

/-!
# The node

What survives a reset is the two flash memories. A run of either program works
on a machine: the flash memories, the volatile state of the flash driver, and
the script of what the environment does to each flash operation in turn.
-/

namespace SecureDeltaOta

open Memory Crash

inductive SpiFlashStatus where
  | ok
  | notInitialized
  | invalidArgument
  | rangeError
  | alignmentError
  | transferTimeout
  | busyTimeout
  | writeEnableFailed
  | unsupportedDevice
  | needsErase
  | verifyFailed
  deriving DecidableEq, Repr

/-- The program that is running: the bootloader, or an application of some compiled version. -/
inductive Writer where
  | bootloader
  | application (version : UInt32)
  deriving DecidableEq, Repr

/-- What an observer of the node records. -/
inductive Event where
  | boot
  | commit (writer : Writer) (before : Option BootMetadata) (after : BootMetadata)
  /-- A commit is refused, because the record would not be valid. -/
  | refused (writer : Writer) (before : Option BootMetadata) (requested : BootMetadata)
  | jump
  deriving DecidableEq, Repr

/--
The persistent contents of the node. The history, newest event first, is not
part of the node: no program reads it, it only lets properties of whole runs be
stated.
-/
@[ext]
structure Device where
  internal : Nat → UInt8
  external : Nat → UInt8
  history : List Event

/-- What the environment does to one flash operation. -/
inductive Outcome where
  /-- The operation succeeds. -/
  | ok
  /-- An operation of the external flash fails and may leave anything in its range. -/
  | externalFault (status : SpiFlashStatus) (junk : Nat → UInt8)
  /-- An operation of the internal flash fails and may leave anything in its range. -/
  | internalFault (junk : Nat → UInt8)
  /-- Power is lost before the operation, or inside a page program after `written` bytes. -/
  | cut (written : Nat)

/-- The variables of the flash driver. -/
structure SpiState where
  initialized : Bool
  lastStatus : SpiFlashStatus

/-- A running node. When the script is used up every further operation succeeds. -/
structure Machine where
  device : Device
  spi : SpiState
  script : List Outcome
  /-- Whether a metadata commit counts as one operation. -/
  atomicCommit : Bool
  writer : Writer

/-- The script of a run that loses power at its operation `k`, or of one that is not cut. -/
def powerCut : Option Nat → List Outcome
  | none => []
  | some k => List.replicate k .ok ++ [.cut 0]

namespace Device

/-- The byte of the application region at an offset. -/
def app (d : Device) (offset : Nat) : UInt8 :=
  d.internal (applicationStartAddress + offset)

/-- The byte of an external partition at an offset. -/
def part (d : Device) (p : ExternalPartition) (offset : Nat) : UInt8 :=
  d.external (p.address + offset)

/-- A range of bytes of an external partition. -/
def slice (d : Device) (p : ExternalPartition) (offset length : Nat) : List UInt8 :=
  window d.external (p.address + offset) length

def withInternal (d : Device) (start len : Nat) (bytes : Nat → UInt8) : Device :=
  { d with internal := overlay d.internal start len bytes }

def withExternal (d : Device) (start len : Nat) (bytes : Nat → UInt8) : Device :=
  { d with external := overlay d.external start len bytes }

def record (d : Device) (e : Event) : Device :=
  { d with history := e :: d.history }

theorem withInternal_inside {d : Device} {start len a : Nat} {bytes : Nat → UInt8}
    (h : start ≤ a ∧ a < start + len) : (d.withInternal start len bytes).internal a = bytes a :=
  overlay_inside h

theorem withInternal_outside {d : Device} {start len a : Nat} {bytes : Nat → UInt8}
    (h : a < start ∨ start + len ≤ a) :
    (d.withInternal start len bytes).internal a = d.internal a :=
  overlay_outside h

theorem withExternal_inside {d : Device} {start len a : Nat} {bytes : Nat → UInt8}
    (h : start ≤ a ∧ a < start + len) : (d.withExternal start len bytes).external a = bytes a :=
  overlay_inside h

theorem withExternal_outside {d : Device} {start len a : Nat} {bytes : Nat → UInt8}
    (h : a < start ∨ start + len ≤ a) :
    (d.withExternal start len bytes).external a = d.external a :=
  overlay_outside h

theorem withExternal_zero (d : Device) (start : Nat) (bytes : Nat → UInt8) :
    d.withExternal start 0 bytes = d := by
  ext a : 2
  · rfl
  · exact withExternal_outside (by omega)
  · rfl

theorem withExternal_append (d : Device) (start m n : Nat) (bytes : Nat → UInt8) :
    (d.withExternal start m bytes).withExternal (start + m) n bytes =
      d.withExternal start (m + n) bytes := by
  ext a : 2
  · rfl
  · by_cases hsecond : start + m ≤ a ∧ a < start + m + n
    · rw [withExternal_inside hsecond, withExternal_inside (by omega)]
    · rw [withExternal_outside (by omega)]
      by_cases hfirst : start ≤ a ∧ a < start + m
      · rw [withExternal_inside hfirst, withExternal_inside (by omega)]
      · rw [withExternal_outside (by omega), withExternal_outside (by omega)]
  · rfl

@[simp] theorem record_history (d : Device) (e : Event) :
    (d.record e).history = e :: d.history := rfl

end Device

namespace Machine

def withStatus (s : Machine) (status : SpiFlashStatus) : Machine :=
  { s with spi := { s.spi with lastStatus := status } }

end Machine

/-! ## Flash operations -/

/-- The bytes programmed over `mem` when bits can only be cleared. -/
def programmed (mem : Nat → UInt8) (address : Nat) (data : List UInt8) : Nat → UInt8 :=
  fun a => mem a &&& data.getD (a - address) 0xFF

namespace Flash

/-- The environment's choice for the next operation. -/
def nextOutcome : Prog Machine Outcome := fun s =>
  match s.script with
  | [] => .done .ok s
  | o :: rest => .done o { s with script := rest }

def update (f : Device → Device) : Prog Machine Unit :=
  Prog.modify fun s => { s with device := f s.device }

/-- A byte range of the internal flash, which is memory mapped. -/
def readInternal (address length : Nat) : Prog Machine (List UInt8) :=
  Prog.read fun s => window s.device.internal address length

/-- `FLASH_ErasePage`: whether it reports `FLASH_COMPLETE`. -/
def erasePage (address : Nat) : Prog Machine Bool := do
  match ← nextOutcome with
  | .cut _ => Prog.halt
  | .internalFault junk =>
      update fun d => d.withInternal address internalFlashPageSize junk
      pure false
  | _ =>
      update fun d => d.withInternal address internalFlashPageSize fun _ => 0xFF
      pure true

/--
`FLASH_ProgramHalfWord`: whether it reports `FLASH_COMPLETE`. The controller
refuses to program a half-word that is not erased, unless with zero.
-/
def programHalfWord (address : Nat) (low high : UInt8) : Prog Machine Bool := do
  match ← nextOutcome with
  | .cut _ => Prog.halt
  | .internalFault junk =>
      update fun d => d.withInternal address 2 junk
      pure false
  | _ =>
      let erased ← Prog.read fun s =>
        s.device.internal address = 0xFF && s.device.internal (address + 1) = 0xFF
      if erased || (low = 0 && high = 0) then do
        update fun d => d.withInternal address 2 fun a => if a = address then low else high
        pure true
      else
        pure false

end Flash

namespace SpiFlash

open Flash

def setStatus (status : SpiFlashStatus) : Prog Machine Unit :=
  Prog.modify fun s => s.withStatus status

/-- The read command of the external flash. -/
def readData (address length : Nat) : Prog Machine (Option (List UInt8)) := do
  match ← nextOutcome with
  | .cut _ => Prog.halt
  | .externalFault status _ =>
      setStatus status
      pure none
  | _ => Prog.read fun s => some (window s.device.external address length)

/-- The page program command; a cut inside it leaves a prefix of the data programmed. -/
def pageProgram (address : Nat) (data : List UInt8) : Prog Machine Bool := do
  match ← nextOutcome with
  | .cut written =>
      update fun d => d.withExternal address (min written data.length)
        (programmed d.external address data)
      Prog.halt
  | .externalFault status junk =>
      update fun d => d.withExternal address data.length junk
      setStatus status
      pure false
  | _ =>
      update fun d => d.withExternal address data.length (programmed d.external address data)
      pure true

/-- The sector erase command. -/
def sectorErase (address : Nat) : Prog Machine Bool := do
  match ← nextOutcome with
  | .cut _ => Prog.halt
  | .externalFault status junk =>
      update fun d => d.withExternal address extFlashSectorSize junk
      setStatus status
      pure false
  | _ =>
      update fun d => d.withExternal address extFlashSectorSize fun _ => 0xFF
      pure true

end SpiFlash

end SecureDeltaOta
