import SecureDeltaOta.Crash.Program
import SecureDeltaOta.Protocol.Codecs

/-!
# The artifact cache of the gateway

`artifact_cache.c`: a flash partition holds one artifact. Its first sector is the
header, the artifact follows from the second sector on. A writer erases the
header, then the data, streams the artifact and publishes it with one write of
the header.

The partition is the one of the gateway's partition table. `esp_partition` does
not fail inside its bounds, but power can be lost at every flash step: before a
sector is erased, or after any number of bytes of a write.
-/

namespace SecureDeltaOta

open Memory Crash

inductive EspErr where
  | ok
  | invalidArg
  | invalidState
  | invalidSize
  | invalidCrc
  deriving DecidableEq, Repr

/-! ## The partition -/

namespace EspPartition

/-- What the environment does to one flash step. -/
inductive Step where
  | ok
  | cut (written : Nat)
  deriving DecidableEq, Repr

/-- The contents of the partition. When the script is used up every further step succeeds. -/
structure Contents where
  flash : Nat → UInt8
  script : List Step

def size : Nat := 0x30000

def sectorSize : Nat := 4096

def nextStep : Prog Contents Step := fun s =>
  match s.script with
  | [] => .done .ok s
  | o :: rest => .done o { s with script := rest }

def update (f : (Nat → UInt8) → Nat → UInt8) : Prog Contents Unit :=
  Prog.modify fun s => { s with flash := f s.flash }

def read (offset length : Nat) : Prog Contents (Except EspErr (List UInt8)) :=
  if offset > size then pure (.error .invalidArg)
  else if offset + length > size then pure (.error .invalidSize)
  else do
    match ← nextStep with
    | .cut _ => Prog.halt
    | .ok => Prog.read fun s => .ok (window s.flash offset length)

/-- A write stores its bytes in order; a cut leaves some of them. -/
def write (offset : Nat) (data : List UInt8) : Prog Contents EspErr :=
  if offset > size then pure .invalidArg
  else if offset + data.length > size then pure .invalidSize
  else do
    match ← nextStep with
    | .cut written =>
        update fun flash => overlay flash offset (min written data.length)
          fun a => data.getD (a - offset) 0
        Prog.halt
    | .ok =>
        update fun flash => overlay flash offset data.length fun a => data.getD (a - offset) 0
        pure .ok

/-- Sectors are erased one after the other, each of them as a whole. -/
def eraseSectors (offset : Nat) : Nat → Prog Contents Unit
  | 0 => pure ()
  | count + 1 => do
      match ← nextStep with
      | .cut _ => Prog.halt
      | .ok =>
          update fun flash => overlay flash offset sectorSize fun _ => 0xFF
          eraseSectors (offset + sectorSize) count

def eraseRange (offset length : Nat) : Prog Contents EspErr :=
  if offset > size then pure .invalidArg
  else if offset + length > size then pure .invalidSize
  else if offset % sectorSize ≠ 0 then pure .invalidArg
  else if length % sectorSize ≠ 0 then pure .invalidSize
  else do
    eraseSectors offset (length / sectorSize)
    pure .ok

end EspPartition

/-! ## The cache -/

structure ArtifactCacheHeader where
  magic : UInt32
  formatVersion : UInt32
  headerSize : UInt32
  updateId : UInt32
  targetVersion : UInt32
  imageSize : UInt32
  imageCrc32 : UInt32
  dataOffset : UInt32
  headerCrc32 : UInt32
  deriving DecidableEq, Repr

/-- `ArtifactCacheWriter_t`; its `partition` is set exactly when a write has begun. -/
structure ArtifactCacheWriter where
  hasPartition : Bool
  updateId : UInt32
  targetVersion : UInt32
  expectedSize : UInt32
  writtenSize : UInt32
  runningCrc32 : UInt32
  active : Bool
  deriving DecidableEq, Repr

namespace ArtifactCache

open EspPartition

def eraseSize : UInt32 := 4096

def dataOffset : UInt32 := 0x1000

def magic : UInt32 := 0x39414347

def formatVersion : UInt32 := 1

def layout : WordRecord ArtifactCacheHeader where
  count := 9
  toWords r := [r.magic, r.formatVersion, r.headerSize, r.updateId, r.targetVersion, r.imageSize,
    r.imageCrc32, r.dataOffset, r.headerCrc32]
  ofWords w := ⟨w 0, w 1, w 2, w 3, w 4, w 5, w 6, w 7, w 8⟩
  toWords_length _ := rfl
  ofWords_toWords _ := rfl
  toWords_ofWords _ := rfl
  ofWords_congr f g h := by simp [h]

/-- `sizeof(ArtifactCacheHeader_t)`, and the offset of its last word. -/
def headerSize : Nat := 36

def crcOffset : Nat := 32

def headerCrc (header : ArtifactCacheHeader) : UInt32 :=
  UartOta.crc32 ((layout.encode header).take crcOffset)

def crcUpdate (running : UInt32) (data : List UInt8) : UInt32 :=
  data.foldl UartOta.crcByte running

def headerValid (header : ArtifactCacheHeader) : Bool :=
  header.magic = magic ∧ header.formatVersion = formatVersion ∧
    header.headerSize.toNat = headerSize ∧ header.updateId ≠ 0 ∧ header.targetVersion ≠ 0 ∧
    header.imageSize ≠ 0 ∧ header.dataOffset = dataOffset ∧
    header.headerCrc32 = headerCrc header ∧ header.imageSize.toNat ≤ size - dataOffset.toNat

/-- Every turn reads at least one byte, so the image size is enough fuel. -/
def calculateStoredImageCrc (imageSize : Nat) : Prog Contents (Except EspErr UInt32) :=
  Prog.loopThen (fun ((offset, _) : Nat × UInt32) => offset < imageSize)
    (fun (offset, running) => do
      let chunk := min (imageSize - offset) 256
      match ← EspPartition.read (dataOffset.toNat + offset) chunk with
      | .error status => pure (.error (.error status))
      | .ok buffer => pure (.ok (offset + chunk, crcUpdate running buffer)))
    imageSize (0, 0xFFFFFFFF)
    (fun (_, running) => pure (.ok (running ^^^ 0xFFFFFFFF)))

/-- `ArtifactCache_Open`: the header of the published artifact. -/
def openCache : Prog Contents (Except EspErr ArtifactCacheHeader) := do
  match ← EspPartition.read 0 headerSize with
  | .error status => pure (.error status)
  | .ok bytes =>
      let header := layout.decode bytes
      if headerValid header then do
        match ← calculateStoredImageCrc header.imageSize.toNat with
        | .error status => pure (.error status)
        | .ok storedCrc =>
            if storedCrc ≠ header.imageCrc32 then pure (.error .invalidCrc)
            else pure (.ok header)
      else pure (.error .invalidCrc)

/-- The number of bytes that are erased for an artifact. -/
def erasedSize (expectedSize : UInt32) : UInt32 :=
  (expectedSize + eraseSize - 1) &&& ~~~(eraseSize - 1)

def beginWrite (writer : ArtifactCacheWriter) (expectedSize updateId targetVersion : UInt32) :
    Prog Contents (ArtifactCacheWriter × EspErr) :=
  if expectedSize = 0 ∨ updateId = 0 ∨ targetVersion = 0 then pure (writer, .invalidArg)
  else if expectedSize.toNat > size - dataOffset.toNat then pure (writer, .invalidSize)
  else do
    let writer : ArtifactCacheWriter :=
      { hasPartition := true
        updateId := updateId
        targetVersion := targetVersion
        expectedSize := expectedSize
        writtenSize := 0
        runningCrc32 := 0xFFFFFFFF
        active := false }
    match ← eraseRange 0 eraseSize.toNat with
    | .ok =>
        match ← eraseRange dataOffset.toNat (erasedSize expectedSize).toNat with
        | .ok => pure ({ writer with active := true }, .ok)
        | status => pure (writer, status)
    | status => pure (writer, status)

/-- `ArtifactCache_Write`. -/
def writeData (writer : ArtifactCacheWriter) (data : List UInt8) :
    Prog Contents (ArtifactCacheWriter × EspErr) :=
  if writer.active = false then pure (writer, .invalidState)
  else if data.length > writer.expectedSize.toNat - writer.writtenSize.toNat then
    pure (writer, .invalidSize)
  else if data.length = 0 then pure (writer, .ok)
  else if writer.hasPartition = false then pure (writer, .invalidState)
  else do
    match ← write (dataOffset + writer.writtenSize).toNat data with
    | .ok =>
        pure ({ writer with
          runningCrc32 := crcUpdate writer.runningCrc32 data
          writtenSize := writer.writtenSize + UInt32.ofNat data.length }, .ok)
    | status => pure (writer, status)

/-- The header that a writer publishes. -/
def headerOf (writer : ArtifactCacheWriter) (storedCrc : UInt32) : ArtifactCacheHeader :=
  let header : ArtifactCacheHeader :=
    { magic := magic
      formatVersion := formatVersion
      headerSize := UInt32.ofNat headerSize
      updateId := writer.updateId
      targetVersion := writer.targetVersion
      imageSize := writer.expectedSize
      imageCrc32 := storedCrc
      dataOffset := dataOffset
      headerCrc32 := 0 }
  { header with headerCrc32 := headerCrc header }

/-- `ArtifactCache_Commit`; the second component is the opened cache. -/
def commit (writer : ArtifactCacheWriter) :
    Prog Contents (ArtifactCacheWriter × Except EspErr ArtifactCacheHeader) :=
  if writer.active = false then pure (writer, .error .invalidState)
  else if writer.writtenSize ≠ writer.expectedSize then pure (writer, .error .invalidSize)
  else if writer.hasPartition = false then pure (writer, .error .invalidState)
  else do
    let streamedCrc := writer.runningCrc32 ^^^ 0xFFFFFFFF
    match ← calculateStoredImageCrc writer.expectedSize.toNat with
    | .error status => pure (writer, .error status)
    | .ok storedCrc =>
        if storedCrc ≠ streamedCrc then pure (writer, .error .invalidCrc)
        else do
          match ← write 0 (layout.encode (headerOf writer storedCrc)) with
          | .ok =>
              match ← openCache with
              | .ok header => pure ({ writer with active := false }, .ok header)
              | .error status => do
                  let _ ← eraseRange 0 eraseSize.toNat
                  pure ({ writer with active := false }, .error status)
          | status => pure (writer, .error status)

def abort (writer : ArtifactCacheWriter) : Prog Contents (ArtifactCacheWriter × EspErr) := do
  if writer.hasPartition && writer.active then do
    let status ← eraseRange 0 eraseSize.toNat
    pure ({ writer with active := false }, status)
  else pure ({ writer with active := false }, .ok)

/-- `ArtifactCache_Read` of an opened cache. -/
def readCache (header : ArtifactCacheHeader) (offset : UInt32) (length : Nat) :
    Prog Contents (Except EspErr (List UInt8)) :=
  if offset > header.imageSize ∨ length > header.imageSize.toNat - offset.toNat then
    pure (.error .invalidSize)
  else EspPartition.read (header.dataOffset + offset).toNat length

/-- `ArtifactCache_Seed`: write and publish an artifact that is in memory. -/
def seed (image : List UInt8) (updateId targetVersion : UInt32) :
    Prog Contents (Except EspErr ArtifactCacheHeader) :=
  if image.length = 0 ∨ image.length > 0xFFFFFFFF then pure (.error .invalidArg)
  else do
    let unset : ArtifactCacheWriter :=
      { hasPartition := false, updateId := 0, targetVersion := 0, expectedSize := 0,
        writtenSize := 0, runningCrc32 := 0, active := false }
    match ← beginWrite unset (UInt32.ofNat image.length) updateId targetVersion with
    | (writer, .ok) =>
        match ← writeData writer image with
        | (writer, .ok) =>
            match ← commit writer with
            | (_, .ok header) => pure (.ok header)
            | (writer, .error status) => do
                let _ ← abort writer
                pure (.error status)
        | (writer, status) => do
            let _ ← abort writer
            pure (.error status)
    | (_, status) => pure (.error status)

end ArtifactCache

/-! ## Runs of the gateway -/

/-- The partition, and the writer in the memory of the gateway. -/
structure CacheGateway where
  flash : Nat → UInt8
  writer : ArtifactCacheWriter

namespace CacheGateway

open EspPartition ArtifactCache

inductive Call where
  | beginWrite (expectedSize updateId targetVersion : UInt32)
  | write (data : List UInt8)
  | commit
  | abort
  deriving DecidableEq, Repr

/-- What is seen of a call: its status, or that power was lost in it. -/
inductive Answer where
  | returned (status : EspErr)
  | lost
  deriving DecidableEq, Repr

/-- The writer of a gateway that has just started: no write has begun. -/
def noWriter : ArtifactCacheWriter where
  hasPartition := false
  updateId := 0
  targetVersion := 0
  expectedSize := 0
  writtenSize := 0
  runningCrc32 := 0
  active := false

/-- The status that `ArtifactCache_Commit` returns. -/
def statusOf : Except EspErr ArtifactCacheHeader → EspErr
  | .ok _ => .ok
  | .error status => status

def perform (writer : ArtifactCacheWriter) : Call → Prog Contents (ArtifactCacheWriter × EspErr)
  | .beginWrite expectedSize updateId targetVersion =>
      ArtifactCache.beginWrite writer expectedSize updateId targetVersion
  | .write data => writeData writer data
  | .commit => do
      let (writer, result) ← ArtifactCache.commit writer
      pure (writer, statusOf result)
  | .abort => ArtifactCache.abort writer

/-- The gateway after a call; a loss of power restarts it. -/
def settle : Result Contents (ArtifactCacheWriter × EspErr) → CacheGateway × Answer
  | .done (writer, status) s => ({ flash := s.flash, writer := writer }, .returned status)
  | .cut s => ({ flash := s.flash, writer := noWriter }, .lost)
  | .spin s => ({ flash := s.flash, writer := noWriter }, .lost)

/-- One call, with what happens to its flash steps. -/
def step (g : CacheGateway) (call : Call) (script : List Step) : CacheGateway × Answer :=
  settle (perform g.writer call { flash := g.flash, script := script })

def run (g : CacheGateway) : List (Call × List Step) → CacheGateway
  | [] => g
  | (call, script) :: calls => (g.step call script).1.run calls

/-- An erased partition and no writer. -/
def erased : CacheGateway where
  flash := fun _ => 0xFF
  writer := noWriter

/-- What `ArtifactCache_Open` returns, when power stays on. -/
def opened (g : CacheGateway) : Option (Except EspErr ArtifactCacheHeader) :=
  (openCache { flash := g.flash, script := [] }).value?

/-- What `ArtifactCache_Read` returns for an opened cache. -/
def bytesAt (g : CacheGateway) (header : ArtifactCacheHeader) (offset : UInt32) (length : Nat) :
    Option (Except EspErr (List UInt8)) :=
  (readCache header offset length { flash := g.flash, script := [] }).value?

end CacheGateway

end SecureDeltaOta
