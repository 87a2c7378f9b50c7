import SecureDeltaOta.Device.Machine
import SecureDeltaOta.Standard.NorFlash

/-!
# The flash driver, word by word

`spi_flash.c`, `ext_flash_layout.c` and `external_flash_storage.c` once more, now
with their 32-bit arithmetic and down to the bytes on the bus. Addresses that
would wrap have no result here. The bus does not fail and the chip is ready in
time; what faults and power cuts do is the matter of the model over the machine.
-/

namespace SecureDeltaOta.SpiDriver

open NorFlash

/-! ## Ranges -/

/-- A sum of addresses or lengths, if it does not wrap. -/
def add (a b : UInt32) : Option UInt32 := if a.toNat + b.toNat < 2 ^ 32 then some (a + b) else none

def sub (a b : UInt32) : Option UInt32 := if b ≤ a then some (a - b) else none

def extFlashSize : UInt32 := 0x400000

def extFlashSectorSize : UInt32 := 0x1000

def extFlashPageSize : UInt32 := 0x100

def isRangeValid (regionSize offset length : UInt32) : Bool :=
  if offset > regionSize then false else length ≤ regionSize - offset

def isAbsoluteRangeValid (address length : UInt32) : Bool :=
  isRangeValid extFlashSize address length

def isSectorAligned (address : UInt32) : Bool := address &&& (extFlashSectorSize - 1) = 0

def pageChunkLength (address remainingLength : UInt32) : UInt32 :=
  let pageOffset := address &&& (extFlashPageSize - 1)
  let pageRemaining := extFlashPageSize - pageOffset
  if remainingLength < pageRemaining then remainingLength else pageRemaining

/-! ## The driver -/

/-- The variables of the driver, and the chip it talks to. -/
structure Driver where
  chip : Chip
  initialized : Bool
  lastStatus : SpiFlashStatus

def programTimeoutLoops : Nat := 3000000

def eraseTimeoutLoops : Nat := 30000000

def preflightBufferSize : UInt32 := 32

namespace Driver

def setStatus (d : Driver) (status : SpiFlashStatus) : Driver := { d with lastStatus := status }

end Driver

section Driver

variable (part : Part)

/-- The bytes between select and deselect. -/
def transfer (bytes : List UInt8) (d : Driver) : List UInt8 × Driver :=
  ((exchange part d.chip bytes).2, { d with chip := (exchange part d.chip bytes).1 })

def address24 (address : UInt32) : List UInt8 :=
  [(address >>> 16).toUInt8, (address >>> 8).toUInt8, address.toUInt8]

def readStatus1 (d : Driver) : UInt8 × Driver :=
  let r := transfer part [0x05, 0xFF] d
  (r.1.getD 1 0, r.2)

def waitReady : Nat → Driver → Bool × Driver
  | 0, d => (false, d.setStatus .busyTimeout)
  | timeout + 1, d =>
      let r := readStatus1 part d
      if r.1 &&& 0x01 = 0 then (true, r.2) else waitReady timeout r.2

def writeEnable (d : Driver) : Bool × Driver :=
  let r := readStatus1 part (transfer part [0x06] d).2
  if r.1 &&& 0x02 = 0 then (false, r.2.setStatus .writeEnableFailed) else (true, r.2)

/-- The read command: the bytes after the echo of command and address. -/
def readData (address length : UInt32) (d : Driver) : List UInt8 × Driver :=
  let r := transfer part (0x03 :: address24 address ++ List.replicate length.toNat 0xFF) d
  (r.1.drop 4, r.2)

/-- `SpiFlash_Read`: the bytes, if the read succeeded. -/
def read (address length : UInt32) (d : Driver) : Option (List UInt8) × Driver :=
  if d.initialized = false then (none, d.setStatus .notInitialized)
  else if isAbsoluteRangeValid address length = false then (none, d.setStatus .rangeError)
  else if length = 0 then (some [], d.setStatus .ok)
  else
    let r := readData part address length d
    (some r.1, r.2.setStatus .ok)

/-- `SpiFlash_Verify`; bytes behind a difference are not read there. -/
def verify (address : UInt32) (data : List UInt8) (length : UInt32) (d : Driver) : Bool × Driver :=
  if d.initialized = false then (false, d.setStatus .notInitialized)
  else if isAbsoluteRangeValid address length = false then (false, d.setStatus .rangeError)
  else if length = 0 then (true, d.setStatus .ok)
  else
    let r := readData part address length d
    if r.1 = data.take length.toNat then (true, r.2.setStatus .ok)
    else (false, r.2.setStatus .verifyFailed)

/-- The loop of `PreflightProgrammable`. -/
def preflightLoop (address : UInt32) (data : List UInt8) (length : UInt32) :
    Nat → UInt32 → Driver → Option (Bool × Driver)
  | 0, _, _ => none
  | fuel + 1, offset, d =>
      if offset < length then do
        let left ← sub length offset
        let chunk := if left > preflightBufferSize then preflightBufferSize else left
        let start ← add address offset
        match (read part start chunk d).1 with
        | none => some (false, (read part start chunk d).2)
        | some existing =>
            if ∀ i < chunk.toNat, existing.getD i 0 &&& data.getD (offset.toNat + i) 0 =
                data.getD (offset.toNat + i) 0 then do
              let offset ← add offset chunk
              preflightLoop address data length fuel offset (read part start chunk d).2
            else some (false, (read part start chunk d).2.setStatus .needsErase)
      else some (true, d)

def preflightProgrammable (address : UInt32) (data : List UInt8) (length : UInt32) (d : Driver) :
    Option (Bool × Driver) :=
  preflightLoop part address data length (length.toNat + 1) 0 d

def programPageChunk (address : UInt32) (data : List UInt8) (length : UInt32) (d : Driver) :
    Bool × Driver :=
  if length = 0 ∨ length > pageChunkLength address length then
    (false, d.setStatus .invalidArgument)
  else
    let enabled := writeEnable part d
    if enabled.1 = false then enabled
    else
      let sent := transfer part (0x02 :: address24 address ++ data.take length.toNat) enabled.2
      let ready := waitReady part programTimeoutLoops sent.2
      if ready.1 = false then ready else verify part address data length ready.2

/-- The loop of `SpiFlash_Write`. -/
def writeLoop (address : UInt32) (data : List UInt8) (length : UInt32) :
    Nat → UInt32 → Driver → Option (Bool × Driver)
  | 0, _, _ => none
  | fuel + 1, offset, d =>
      if offset < length then do
        let start ← add address offset
        let left ← sub length offset
        let chunk := pageChunkLength start left
        let programmed := programPageChunk part start (data.drop offset.toNat) chunk d
        if programmed.1 = false then some programmed
        else do
          let offset ← add offset chunk
          writeLoop address data length fuel offset programmed.2
      else some (true, d.setStatus .ok)

def write (address : UInt32) (data : List UInt8) (length : UInt32) (d : Driver) :
    Option (Bool × Driver) :=
  if d.initialized = false then some (false, d.setStatus .notInitialized)
  else if isAbsoluteRangeValid address length = false then some (false, d.setStatus .rangeError)
  else if length = 0 then some (true, d.setStatus .ok)
  else do
    let programmable ← preflightProgrammable part address data length d
    if programmable.1 = false then some programmable
    else writeLoop part address data length (length.toNat + 1) 0 programmable.2

def eraseSector (address : UInt32) (d : Driver) : Bool × Driver :=
  if d.initialized = false then (false, d.setStatus .notInitialized)
  else if isSectorAligned address = false then (false, d.setStatus .alignmentError)
  else if isAbsoluteRangeValid address extFlashSectorSize = false then
    (false, d.setStatus .rangeError)
  else
    let enabled := writeEnable part d
    if enabled.1 = false then enabled
    else
      let sent := transfer part (0x20 :: address24 address) enabled.2
      let ready := waitReady part eraseTimeoutLoops sent.2
      if ready.1 = false then ready else (true, ready.2.setStatus .ok)

/-! ## Partitions -/

structure PartitionInfo where
  address : UInt32
  size : UInt32
  deriving DecidableEq, Repr

/-- `g_partitions`. -/
def partitions : List PartitionInfo :=
  [⟨0x000000, extFlashSectorSize⟩, ⟨0x001000, extFlashSectorSize⟩, ⟨0x002000, 0x020000⟩,
    ⟨0x022000, 0x020000⟩, ⟨0x042000, 0x020000⟩, ⟨0x062000, 0x010000⟩,
    ⟨extFlashSize - extFlashSectorSize, extFlashSectorSize⟩]

def getPartition (partition : UInt32) : Option PartitionInfo := partitions[partition.toNat]?

/-- The absolute address, if the range lies in the partition; no result if the sum would wrap. -/
def resolveRange (partition offset length : UInt32) : Option (Option UInt32) :=
  match getPartition partition with
  | none => some none
  | some info =>
      if isRangeValid info.size offset length = false then some none
      else do
        let address ← add info.address offset
        return some address

def externalFlashStorageWrite (partition offset : UInt32) (data : List UInt8) (length : UInt32)
    (d : Driver) : Option (Bool × Driver) := do
  match ← resolveRange partition offset length with
  | none => some (false, d)
  | some address => write part address data length d

/-- The loop of `ExternalFlashStorage_EraseRange`. -/
def eraseLoop (address length : UInt32) : Nat → UInt32 → Driver → Option (Bool × Driver)
  | 0, _, _ => none
  | fuel + 1, erased, d =>
      if erased < length then do
        let start ← add address erased
        let r := eraseSector part start d
        if r.1 = false then some r
        else do
          let erased ← add erased extFlashSectorSize
          eraseLoop address length fuel erased r.2
      else some (true, d)

def externalFlashStorageEraseRange (partition offset length : UInt32) (d : Driver) :
    Option (Bool × Driver) :=
  match getPartition partition with
  | none => some (false, d)
  | some info =>
      if length = 0 ∨ isRangeValid info.size offset length = false ∨
          isSectorAligned offset = false ∨ length &&& (extFlashSectorSize - 1) ≠ 0 then
        some (false, d)
      else do
        let address ← add info.address offset
        if isSectorAligned address = false then some (false, d)
        else eraseLoop part address length (length.toNat + 1) 0 d

end Driver

end SecureDeltaOta.SpiDriver
