import SecureDeltaOta.App.OtaPacket
import SecureDeltaOta.Storage.MetadataStorage
import SecureDeltaOta.Storage.RecordStore

/-!
# The receiver of the application

`ota_receiver.c` and `trial_confirmation.c`, in the build without the unsigned
legacy path: the session of a download, kept in memory and restored from the
download checkpoint after a reset, the answer to each packet, and the
confirmation of a trial. `version` is the version the application is compiled
with.
-/

namespace SecureDeltaOta

open Memory Crash

/-- The number of a status in its C enumeration. -/
def SpiFlashStatus.code (status : SpiFlashStatus) : UInt32 :=
  UInt32.ofNat status.ctorIdx

def RecordStorageStatus.code (status : RecordStorageStatus) : UInt32 :=
  UInt32.ofNat status.ctorIdx

def MetadataStorageStatus.code (status : MetadataStorageStatus) : UInt32 :=
  UInt32.ofNat status.ctorIdx

/-! ## Trials -/

/-- The variables of `trial_confirmation.c`. -/
structure Trial where
  active : Bool
  confirmed : Bool
  startMs : UInt32
  deriving DecidableEq, Repr

namespace TrialConfirmation

def trialConfirmDelayMs : UInt32 := 750

/-- The record of a trial of this application, if one is current. -/
def loadTrialMetadata (version : UInt32) (d : Device) : Option BootMetadata :=
  match MetadataStorage.load version d with
  | (.ok, metadata) =>
      if metadata.state = UpdateState.trialBoot.code ∧ metadata.pendingVersion = version ∧
          metadata.bootAttempts > 0 ∧ metadata.bootAttempts ≤ BootMetadata.maxBootAttempts then
        some metadata
      else none
  | _ => none

def init (version nowMs : UInt32) : Prog Machine Trial :=
  Prog.read fun s => ⟨(loadTrialMetadata version s.device).isSome, false, nowMs⟩

/-- The record of a confirmed trial. -/
def confirmed (metadata : BootMetadata) : BootMetadata :=
  { metadata with state := UpdateState.confirmed.code, copyOffset := 0, lastError := 0 }

/-- `TrialConfirmation_ConfirmNow`: `none` when the confirmation is committed, or the detail. -/
def confirmNow (version : UInt32) : Prog Machine (Option UInt32) := do
  match ← Prog.read fun s => loadTrialMetadata version s.device with
  | none => pure (some 1)
  | some metadata => do
      match ← MetadataStorage.commit (confirmed metadata) with
      | .error status => pure (some (0x100 ||| status.code))
      | .ok _ => pure none

/-- `TrialConfirmation_Process`: whether the node resets itself. -/
def process (version : UInt32) (trial : Trial) (nowMs : UInt32) : Prog Machine Bool :=
  if trial.active ∧ ¬ trial.confirmed ∧ nowMs - trial.startMs ≥ trialConfirmDelayMs then do
    let failure ← confirmNow version
    pure failure.isNone
  else pure false

end TrialConfirmation

/-! ## Sessions -/

/-- `OtaReceiverSession_t`. -/
structure Session where
  state : UpdateState
  lastStatus : OtaStatus
  storageReady : Bool
  hasLastData : Bool
  resetPending : Bool
  updateId : UInt32
  targetVersion : UInt32
  baseVersion : UInt32
  expectedSize : UInt32
  nextOffset : UInt32
  persistedOffset : UInt32
  artifactCrc32 : UInt32
  lastErrorDetail : UInt32
  erasedSectorBitmap : UInt32
  lastDataOffset : UInt32
  expectedSequence : UInt16
  lastDataSequence : UInt16
  lastDataLength : Nat
  artifactType : UInt8
  deriving DecidableEq, Repr

namespace OtaReceiver

/-- The new session and the answer. -/
abbrev Reply := Session × OtaPacket

def resetTransfer (g : Session) : Session :=
  { g with
    state := .idle
    updateId := 0
    targetVersion := 0
    baseVersion := 0
    expectedSize := 0
    nextOffset := 0
    persistedOffset := 0
    artifactCrc32 := 0
    erasedSectorBitmap := 0
    expectedSequence := 0
    hasLastData := false
    resetPending := false
    lastDataOffset := 0
    lastDataSequence := 0
    lastDataLength := 0
    artifactType := 0 }

def checkpointErrorDetail (status : RecordStorageStatus) : UInt32 :=
  0x00071000 ||| status.code

def persistDownloadCheckpoint (g : Session) (state : DownloadCheckpointState)
    (nextOffset : UInt32) : Prog Machine (RecordStorageStatus × Session) := do
  match ← DownloadCheckpointStorage.commit (DownloadCheckpoint.initSession state g.updateId
      g.targetVersion g.expectedSize g.artifactCrc32 nextOffset) with
  | .error status => pure (status, g)
  | .ok committed => pure (.ok, { g with persistedOffset := committed.nextOffset })

def clearDownloadCheckpoint (g : Session) : Prog Machine (RecordStorageStatus × Session) := do
  let status ← DownloadCheckpointStorage.clear
  if status = .ok then pure (status, { g with persistedOffset := 0 }) else pure (status, g)

def sectorMask (sector : Nat) : UInt32 := 1 <<< UInt32.ofNat sector

def completedSectorBitmap (checkpointOffset : UInt32) : UInt32 :=
  (List.range (checkpointOffset.toNat / extFlashSectorSize)).foldl
    (fun bitmap sector => bitmap ||| sectorMask sector) 0

/-- The session that shows a trial. -/
def mirrored (g : Session) (state : UpdateState) (metadata : BootMetadata) : Session :=
  { g with
    state := state
    updateId := metadata.activeUpdateId
    targetVersion := metadata.pendingVersion
    expectedSize := metadata.expectedSize
    nextOffset := metadata.receivedSize
    persistedOffset := 0
    expectedSequence := 0
    hasLastData := false }

def mirrorPersistentTrialState (version : UInt32) (g : Session) : Prog Machine Session :=
  Prog.read fun s =>
    match MetadataStorage.load version s.device with
    | (.ok, metadata) =>
        if metadata.state = UpdateState.trialBoot.code then mirrored g .trialBoot metadata
        else if metadata.state = UpdateState.confirmed.code then mirrored g .confirmed metadata
        else g
    | _ => g

/-- The session a checkpoint stands for. -/
def restored (g : Session) (record : DownloadCheckpointRecord) : Session :=
  { g with
    state := if record.state = DownloadCheckpointState.artifactReady.code then .artifactReady
      else .receiving
    updateId := record.updateId
    targetVersion := record.targetVersion
    expectedSize := record.imageSize
    nextOffset := record.nextOffset
    persistedOffset := record.nextOffset
    artifactCrc32 := record.imageCrc32
    erasedSectorBitmap := completedSectorBitmap record.nextOffset
    expectedSequence := (record.nextOffset / UInt32.ofNat otaMaxPayloadSize).toUInt16
    hasLastData := false
    resetPending := false }

def restoreDownloadCheckpoint (g : Session) : Prog Machine (RecordStorageStatus × Session) := do
  match ← DownloadCheckpointStorage.load with
  | .error .notFound => pure (.ok, g)
  | .error status => pure (status, g)
  | .ok record =>
      if record.state = DownloadCheckpointState.idle.code then pure (.ok, g)
      else pure (.ok, restored g record)

def persistReceiveBoundaryIfNeeded (g : Session) : Prog Machine (RecordStorageStatus × Session) :=
  if g.nextOffset = 0 ∨ g.nextOffset.toNat % extFlashSectorSize ≠ 0 ∨
      g.persistedOffset = g.nextOffset then
    pure (.ok, g)
  else persistDownloadCheckpoint g .receiving g.nextOffset

/-- Full and delta images, resume, signatures and rollback. -/
def capabilities : UInt32 := 0x1F

def getResponseInfo (g : Session) : OtaResponseInfo where
  updateState := g.state
  lastStatus := g.lastStatus
  activeUpdateId := g.updateId
  nextExpectedOffset := g.nextOffset
  receivedSize := g.nextOffset
  expectedSize := g.expectedSize
  lastErrorDetail := g.lastErrorDetail
  capabilityFlags := if g.storageReady then capabilities else 0

def setStatus (g : Session) (status : OtaStatus) (detail : UInt32) : Session :=
  { g with lastStatus := status, lastErrorDetail := detail }

def ack (g : Session) (request : OtaPacket) : Reply :=
  let g := setStatus g .ok 0
  (g, OtaResponse.buildAck request (getResponseInfo g))

def nack (g : Session) (request : OtaPacket) (status : OtaStatus) (detail : UInt32) : Reply :=
  let g := setStatus g status detail
  (g, OtaResponse.buildNack request status (getResponseInfo g))

/-- Refuse a request because of the external flash, with the status of its driver. -/
def nackStorage (g : Session) (request : OtaPacket) : Prog Machine Reply :=
  Prog.read fun s => nack g request .storageError s.spi.lastStatus.code

/-- Answer a request whose checkpoint was committed or not. -/
def replyCheckpoint (g : Session) (request : OtaPacket) (status : RecordStorageStatus) : Reply :=
  if status = .ok then ack g request
  else nack g request .storageError (checkpointErrorDetail status)

/-! ## Storing the artifact -/

/-- Erase what is not marked as erased; whether it succeeded, and the marks afterwards. -/
def ensureIncomingSectorsErased (bitmap offset : UInt32) (length : Nat) :
    Prog Machine (Bool × UInt32) :=
  if length = 0 then pure (false, bitmap)
  else
    let lastSector := (offset.toNat + length - 1) / extFlashSectorSize
    Prog.loopThen (fun st : Nat × UInt32 => st.1 ≤ lastSector)
      (fun st =>
        if st.2 &&& sectorMask st.1 = 0 then do
          let erased ← ExternalFlashStorage.eraseRange .incoming (st.1 * extFlashSectorSize)
            extFlashSectorSize
          if !erased then pure (.error (false, st.2))
          else pure (.ok (st.1 + 1, st.2 ||| sectorMask st.1))
        else pure (.ok (st.1 + 1, st.2)))
      (lastSector + 1) (offset.toNat / extFlashSectorSize, bitmap) (fun st => pure (true, st.2))

def storedDataMatches (request : OtaPacket) : Prog Machine Bool := do
  match ← ExternalFlashStorage.read .incoming request.offset.toNat request.payload.length with
  | none => pure false
  | some readback => pure (readback = request.payload)

def calculateIncomingCrc (length : Nat) : Prog Machine (Option UInt32) :=
  ExternalFlashStorage.foldChunks (ExternalFlashStorage.read .incoming) Crc32.update 256 length
    Crc32.ieeeInitialValue none (fun running => some (running ^^^ Crc32.ieeeFinalXor))

def incomingLooksLikeSecureContainer : Prog Machine Bool := do
  match ← ExternalFlashStorage.read .incoming 0 4 with
  | none => pure false
  | some bytes => pure (FirmwareContainer.getU32Le bytes 0 = FirmwareContainer.magic)

/-! ## START -/

/-- The payload of a `START`. -/
structure StartRequest where
  artifactType : UInt8
  containerVersion : UInt16
  baseVersion : UInt32
  targetVersion : UInt32
  artifactSize : UInt32
  artifactCrc32 : UInt32
  containerHeaderSize : UInt32
  deriving DecidableEq, Repr

def parseStart (payload : List UInt8) : StartRequest where
  artifactType := payload.getD 0 0
  containerVersion := FirmwareContainer.getU16Le payload 2
  baseVersion := FirmwareContainer.getU32Le payload 4
  targetVersion := FirmwareContainer.getU32Le payload 8
  artifactSize := FirmwareContainer.getU32Le payload 12
  artifactCrc32 := FirmwareContainer.getU32Le payload 16
  containerHeaderSize := FirmwareContainer.getU32Le payload 20

def fwImageFull : UInt8 := 1
def fwImageDelta : UInt8 := 2

/-- The part of a container that is not payload. -/
def containerOverhead : Nat := FirmwareContainer.headerSize + FirmwareContainer.signatureSize

/-- Why the artifact of a `START` is refused, in the order of the checks. -/
def refuseStart (version : UInt32) (start : StartRequest) : Option (OtaStatus × UInt32) :=
  if start.artifactType ≠ fwImageFull ∧ start.artifactType ≠ fwImageDelta then
    some (.invalidPacket, start.artifactType.toUInt32)
  else if start.containerVersion ≠ FirmwareContainer.formatVersion then
    some (.containerError, start.containerVersion.toUInt32)
  else if start.artifactSize.toNat ≤ containerOverhead ∨
      start.artifactSize.toNat > extIncomingSize then
    some (.imageTooLarge, start.artifactSize)
  else if start.targetVersion = 0 ∨ start.targetVersion ≤ version then
    some (.versionRejected, version)
  else if start.containerHeaderSize.toNat ≠ FirmwareContainer.headerSize then
    some (.signatureError, start.containerHeaderSize)
  else if start.artifactType = fwImageDelta then
    if start.baseVersion = 0 ∨ start.baseVersion ≠ version then some (.baseMismatch, version)
    else none
  else if start.baseVersion ≠ 0 then some (.containerError, start.baseVersion)
  else none

/-- The session a `START` opens. -/
def opened (g : Session) (updateId : UInt32) (start : StartRequest) : Session :=
  { g with
    state := .receiving
    updateId := updateId
    targetVersion := start.targetVersion
    baseVersion := start.baseVersion
    artifactType := start.artifactType
    expectedSize := start.artifactSize
    nextOffset := 0
    artifactCrc32 := start.artifactCrc32
    erasedSectorBitmap := 0
    expectedSequence := 0
    hasLastData := false
    resetPending := false }

def processStart (version : UInt32) (g : Session) (request : OtaPacket) : Prog Machine Reply :=
  if request.payload.length ≠ otaStartPayloadSize then pure (nack g request .invalidPacket 0)
  else if g.state ≠ .idle ∧ g.state ≠ .failed ∧ g.state ≠ .receiving then
    pure (nack g request .invalidState 0)
  else if !g.storageReady then nackStorage g request
  else if request.updateId = 0 then pure (nack g request .invalidPacket 0)
  else
    match refuseStart version (parseStart request.payload) with
    | some (status, detail) => pure (nack g request status detail)
    | none => do
        let (status, g) ← persistDownloadCheckpoint
          (opened g request.updateId (parseStart request.payload)) .receiving 0
        if status ≠ .ok then
          pure (nack (resetTransfer g) request .storageError (checkpointErrorDetail status))
        else pure (ack g request)

/-! ## DATA -/

/-- The packet repeats the last accepted one. -/
def repeatsLastData (g : Session) (request : OtaPacket) : Bool :=
  g.hasLastData && request.sequence = g.lastDataSequence && request.offset = g.lastDataOffset &&
    request.payload.length = g.lastDataLength

/-- Why a packet that is not a repetition is not the next one. -/
def refuseData (g : Session) (request : OtaPacket) : Option (OtaStatus × UInt32) :=
  if request.sequence ≠ g.expectedSequence then
    some (.wrongSequence, g.expectedSequence.toUInt32)
  else if request.offset ≠ g.nextOffset then some (.wrongOffset, g.nextOffset)
  else if request.payload.length > (g.expectedSize - g.nextOffset).toNat then
    some (.wrongOffset, g.expectedSize)
  else none

/-- The session after the bytes of a packet are stored. -/
def advanced (g : Session) (request : OtaPacket) : Session :=
  { g with
    hasLastData := true
    lastDataOffset := request.offset
    lastDataSequence := request.sequence
    lastDataLength := request.payload.length
    nextOffset := g.nextOffset + UInt32.ofNat request.payload.length
    expectedSequence := g.expectedSequence + 1 }

/-- A repeated packet is acknowledged if its bytes are stored. -/
def processRepeatedData (g : Session) (request : OtaPacket) : Prog Machine Reply := do
  let stored ← storedDataMatches request
  if stored then do
    let (status, g) ← persistReceiveBoundaryIfNeeded g
    pure (replyCheckpoint g request status)
  else pure (nack g request .wrongOffset request.offset)

/-- The next packet is stored and counted. -/
def storeData (g : Session) (request : OtaPacket) : Prog Machine Reply := do
  let (erased, bitmap) ← ensureIncomingSectorsErased g.erasedSectorBitmap request.offset
    request.payload.length
  let g := { g with erasedSectorBitmap := bitmap }
  if !erased then nackStorage g request
  else do
    let written ← ExternalFlashStorage.write .incoming request.offset.toNat request.payload
    if !written then nackStorage g request
    else do
      let verified ← ExternalFlashStorage.verify .incoming request.offset.toNat request.payload
      if !verified then nackStorage g request
      else do
        let (status, g) ← persistReceiveBoundaryIfNeeded (advanced g request)
        pure (replyCheckpoint g request status)

def processData (g : Session) (request : OtaPacket) : Prog Machine Reply :=
  if g.state ≠ .receiving then pure (nack g request .invalidState 0)
  else if request.updateId ≠ g.updateId then pure (nack g request .updateIdMismatch 0)
  else if request.payload.length = 0 ∨ request.payload.length > otaMaxPayloadSize then
    pure (nack g request .invalidPacket 0)
  else if repeatsLastData g request then processRepeatedData g request
  else
    match refuseData g request with
    | some (status, detail) => pure (nack g request status detail)
    | none => storeData g request

/-! ## FINISH -/

/-- All bytes are there: compare their CRC and record that the artifact is ready. -/
def completeArtifact (g : Session) (request : OtaPacket) : Prog Machine Reply := do
  match ← calculateIncomingCrc g.expectedSize.toNat with
  | none => nackStorage g request
  | some artifactCrc =>
      if artifactCrc ≠ g.artifactCrc32 then
        pure (nack { g with state := .failed } request .containerError artifactCrc)
      else do
        let (status, g) ← persistDownloadCheckpoint g .artifactReady g.expectedSize
        if status ≠ .ok then
          pure (nack g request .storageError (checkpointErrorDetail status))
        else pure (ack { g with state := .artifactReady } request)

def processFinish (g : Session) (request : OtaPacket) : Prog Machine Reply :=
  if request.payload.length ≠ 0 then pure (nack g request .invalidPacket 0)
  else if g.state = .artifactReady ∧ request.updateId = g.updateId ∧
      g.nextOffset = g.expectedSize then
    pure (ack g request)
  else if g.state ≠ .receiving then pure (nack g request .invalidState 0)
  else if request.updateId ≠ g.updateId then pure (nack g request .updateIdMismatch 0)
  else if g.nextOffset ≠ g.expectedSize then pure (nack g request .wrongOffset g.nextOffset)
  else completeArtifact g request

/-! ## The other commands -/

def processAbort (g : Session) (request : OtaPacket) : Prog Machine Reply :=
  if request.payload.length ≠ 0 then pure (nack g request .invalidPacket 0)
  else do
    let (status, g) ← clearDownloadCheckpoint g
    if status ≠ .ok then pure (nack g request .storageError (checkpointErrorDetail status))
    else pure (ack (resetTransfer g) request)

def processResume (g : Session) (request : OtaPacket) : Reply :=
  if request.payload.length ≠ 0 then nack g request .invalidPacket 0
  else if g.state ≠ .receiving then nack g request .invalidState 0
  else if request.updateId ≠ g.updateId then nack g request .updateIdMismatch 0
  else ack g request

/-- The record that asks the bootloader to install the artifact of the session. -/
def installRequest (g : Session) (metadata : BootMetadata) : BootMetadata :=
  { metadata with
    state := UpdateState.artifactReady.code
    pendingVersion := g.targetVersion
    activeUpdateId := g.updateId
    receivedSize := g.expectedSize
    expectedSize := g.expectedSize
    copyOffset := 0
    bootAttempts := 0
    lastError := 0 }

/-- `PersistSecureInstallRequest`: `none` when the request is committed, or the detail. -/
def persistSecureInstallRequest (version : UInt32) (g : Session) :
    Prog Machine (Option UInt32) := do
  let (status, metadata) ← Prog.read fun s => MetadataStorage.load version s.device
  if status ≠ .ok ∧ status ≠ .defaultsUsed then pure (some (0x00140100 ||| status.code))
  else do
    match ← MetadataStorage.commit (installRequest g metadata) with
    | .error status => pure (some (0x00140200 ||| status.code))
    | .ok _ => pure none

def processInstall (version : UInt32) (g : Session) (request : OtaPacket) : Prog Machine Reply :=
  if request.payload.length ≠ 0 then pure (nack g request .invalidPacket 0)
  else if g.state ≠ .artifactReady then pure (nack g request .invalidState 0)
  else if request.updateId ≠ g.updateId then pure (nack g request .updateIdMismatch 0)
  else if g.targetVersion = 0 then pure (nack g request .versionRejected 0)
  else do
    let container ← incomingLooksLikeSecureContainer
    if !container then pure (nack g request .signatureError 0x0014FFFF)
    else do
      match ← persistSecureInstallRequest version g with
      | some detail => pure (nack g request .internalError detail)
      | none =>
          let (g, response) := ack g request
          pure ({ g with resetPending := true }, response)

def processConfirm (version : UInt32) (g : Session) (request : OtaPacket) : Prog Machine Reply :=
  if request.payload.length ≠ 0 then pure (nack g request .invalidPacket 0)
  else if g.state ≠ .trialBoot then pure (nack g request .invalidState 0)
  else if request.updateId ≠ 0 ∧ request.updateId ≠ g.updateId then
    pure (nack g request .updateIdMismatch 0)
  else do
    match ← TrialConfirmation.confirmNow version with
    | some detail => pure (nack g request .internalError detail)
    | none =>
        let (g, response) := ack { g with state := .confirmed } request
        pure ({ g with resetPending := true }, response)

def processQuery (version : UInt32) (g : Session) (request : OtaPacket) : Reply :=
  if request.payload.length ≠ 0 then nack g request .invalidPacket 0
  else
    let g := setStatus g .ok 0
    (g, OtaResponse.buildHelloQuery version request (getResponseInfo g))

/-- `OtaReceiver_ProcessPacket`. -/
def processPacket (version : UInt32) (g : Session) (request : OtaPacket) : Prog Machine Reply :=
  match OtaCommand.ofCode request.command with
  | some .hello | some .query | some .status => pure (processQuery version g request)
  | some .start => processStart version g request
  | some .data => processData g request
  | some .finish => processFinish g request
  | some .abort => processAbort g request
  | some .resume => pure (processResume g request)
  | some .install => processInstall version g request
  | some .confirm => processConfirm version g request
  | some .ack | some .nack | none =>
      pure (nack g request .invalidPacket request.command.toUInt32)

/-! ## Start of the application -/

/-- The session in zeroed memory. -/
def zeroed : Session where
  state := .idle
  lastStatus := .ok
  storageReady := false
  hasLastData := false
  resetPending := false
  updateId := 0
  targetVersion := 0
  baseVersion := 0
  expectedSize := 0
  nextOffset := 0
  persistedOffset := 0
  artifactCrc32 := 0
  lastErrorDetail := 0
  erasedSectorBitmap := 0
  lastDataOffset := 0
  expectedSequence := 0
  lastDataSequence := 0
  lastDataLength := 0
  artifactType := 0

/-- `OtaReceiver_Init`: the session the application starts with. -/
def init (version : UInt32) : Prog Machine Session := do
  let initialized ← ExternalFlashStorage.init
  let detail ← Prog.read fun s => s.spi.lastStatus.code
  if !initialized then
    pure (resetTransfer
      { zeroed with storageReady := false, lastStatus := .storageError, lastErrorDetail := detail })
  else do
    let g := resetTransfer
      { zeroed with storageReady := true, lastStatus := .ok, lastErrorDetail := 0 }
    let (status, g) ← restoreDownloadCheckpoint g
    if status ≠ .ok then
      pure (resetTransfer
        { g with
          storageReady := false
          lastStatus := .storageError
          lastErrorDetail := checkpointErrorDetail status })
    else if g.state = .idle then mirrorPersistentTrialState version g
    else pure g

end OtaReceiver

end SecureDeltaOta
