import SecureDeltaOta.Boot.SecureContainer
import SecureDeltaOta.Shared.Image
import SecureDeltaOta.Storage.BackupImageStorage

/-!
# Installing and rolling back

`image_installer.c`: the active application is backed up sector by sector, the
candidate is installed page by page with a persisted checkpoint after each page,
and a rollback restores the backup in the same way. `application_jump.c` decides
whether the internal flash holds an application that may be started.
-/

namespace SecureDeltaOta

open Memory Crash

/-! ## The vector table of the installed application -/

inductive ApplicationValidationStatus where
  | badVectorAlignment
  | badVectorRange
  | badStackRange
  | badStackAlignment
  | badResetThumbBit
  | badResetRange
  deriving DecidableEq, Repr

structure ApplicationVector where
  vectorTableAddress : Nat
  initialStackPointer : Nat
  resetHandlerAddress : Nat
  deriving DecidableEq, Repr

/-- A word of the memory mapped internal flash. -/
def Device.internalWord (d : Device) (address : Nat) : Nat :=
  (readLe32 (window d.internal address 4) 0).toNat

namespace ApplicationJump

def vectorTableAlignment : Nat := 0x200

def requiredStackAlignment : Nat := 8

/-- `ApplicationJump_Validate`: the vector to jump through, or what is wrong with it. -/
def validate (d : Device) (vectorTableAddress : Nat) :
    Except ApplicationValidationStatus ApplicationVector :=
  if vectorTableAddress % vectorTableAlignment ≠ 0 then .error .badVectorAlignment
  else if vectorTableAddress < applicationStartAddress ∨
      vectorTableAddress > bootMetadataAddress - 8 then .error .badVectorRange
  else
    let initialStackPointer := d.internalWord vectorTableAddress
    let resetHandlerAddress := d.internalWord (vectorTableAddress + 4)
    if initialStackPointer < internalSramBase ∨ initialStackPointer > internalSramEnd then
      .error .badStackRange
    else if initialStackPointer % requiredStackAlignment ≠ 0 then .error .badStackAlignment
    else if resetHandlerAddress % 2 = 0 then .error .badResetThumbBit
    else if resetHandlerAddress - 1 < applicationStartAddress ∨
        resetHandlerAddress - 1 ≥ bootMetadataAddress then .error .badResetRange
    else .ok ⟨vectorTableAddress, initialStackPointer, resetHandlerAddress⟩

end ApplicationJump

/-! ## The installer -/

inductive ImageInstallerStatus where
  | ok
  | sourceRejected
  | externalFlashInitFailed
  | handoffLoadFailed
  | handoffMismatch
  | sourceReadFailed
  | sourceVectorInvalid
  | sourceCrcMismatch
  | metadataCommitFailed
  | progressInvalid
  | flashEraseFailed
  | flashProgramFailed
  | pageVerifyFailed
  | checkpointClearFailed
  | verifyCrcFailed
  | verifyVectorFailed
  | finalizeFailed
  | backupHeaderFailed
  | backupEraseFailed
  | backupWriteFailed
  | backupVerifyFailed
  | backupCrcMismatch
  | backupProgressInvalid
  | rollbackSourceInvalid
  | rollbackReadFailed
  | rollbackVerifyFailed
  | trialTransitionFailed
  deriving DecidableEq, Repr

/-- The number of a status in its C enumeration. -/
def ImageInstallerStatus.code (status : ImageInstallerStatus) : UInt32 :=
  UInt32.ofNat status.ctorIdx

namespace ImageInstaller

def errorBase : UInt32 := 0x00080000

def rollbackTrialLimitBase : UInt32 := 0x0008B000

def rollbackInvalidTrial : UInt32 := 0x0008B100

def rollbackInstallBase : UInt32 := 0x0008B200

def installCrcBufferSize : Nat := 256

def installerError (status : ImageInstallerStatus) : UInt32 :=
  errorBase ||| status.code

/-- A status, and the metadata the caller goes on with when there are new ones. -/
abbrev Outcome := ImageInstallerStatus × Option BootMetadata

/-- A status, and the working copy of the metadata. -/
abbrev Step := ImageInstallerStatus × BootMetadata

structure CandidateSource where
  partition : ExternalPartition
  updateId : UInt32
  targetVersion : UInt32
  imageSize : UInt32
  imageCrc32 : UInt32
  isDelta : Bool
  deriving DecidableEq, Repr

/-- The source of the candidate an authenticated header describes. -/
def candidateOf (metadata : BootMetadata) (info : FirmwareContainer.Info) : CandidateSource where
  partition := .reconstructed
  updateId := metadata.activeUpdateId
  targetVersion := info.header.targetVersion
  imageSize := info.header.targetImageSize
  imageCrc32 := info.extension.targetImageCrc32
  isDelta := info.header.imageType = FirmwareContainer.imageDelta

/-- The source of the candidate, if the metadata match the header. -/
def sourceOf (metadata : BootMetadata) (info : FirmwareContainer.Info) :
    Except ImageInstallerStatus CandidateSource :=
  if metadata.state = UpdateState.artifactReady.code ∨
      metadata.pendingVersion ≠ info.header.targetVersion ∨ metadata.activeUpdateId = 0 ∨
      metadata.receivedSize ≠ info.header.targetImageSize ∨
      metadata.expectedSize ≠ info.header.targetImageSize then .error .handoffMismatch
  else if info.header.imageType = FirmwareContainer.imageDelta ∧
      metadata.activeVersion ≠ info.header.baseVersion then .error .handoffMismatch
  else .ok (candidateOf metadata info)

/-- `LoadCandidateSource` in a build without the unsigned legacy formats. -/
def loadCandidateSource (key : TrustedKey) (metadata : BootMetadata) :
    Prog Machine (Except ImageInstallerStatus CandidateSource) := do
  match ← ExternalFlashStorage.read .incoming 0 4 with
  | none => pure (.error .sourceReadFailed)
  | some firstWord =>
      if FirmwareContainer.getU32Le firstWord 0 = FirmwareContainer.magic then do
        match ← SecureContainer.loadVerifiedInfo key 0 with
        | .error _ => pure (.error .handoffMismatch)
        | .ok info => pure (sourceOf metadata info)
      else pure (.error .handoffMismatch)

/-- `CommitMetadata`: whether it succeeded, and the working copy afterwards. -/
def commitMetadata (metadata : BootMetadata) : Prog Machine (Bool × BootMetadata) := do
  match ← MetadataStorage.commit metadata with
  | .error _ => pure (false, metadata)
  | .ok committed => pure (true, committed)

/-- Commit a record, or fail with the given status. -/
def commitOr (status : ImageInstallerStatus) (metadata : BootMetadata) : Prog Machine Step := do
  let (committed, metadata) ← commitMetadata metadata
  if committed then pure (.ok, metadata) else pure (status, metadata)

/-- The metadata of an abandoned update. -/
def reverted (metadata : BootMetadata) (reason : ImageInstallerStatus) : BootMetadata :=
  { metadata with
    state := UpdateState.idle.code
    pendingVersion := 0
    activeUpdateId := 0
    receivedSize := 0
    expectedSize := 0
    copyOffset := 0
    bootAttempts := 0
    lastError := installerError reason }

def revertToActiveImage (metadata : BootMetadata) (reason : ImageInstallerStatus) :
    Prog Machine Outcome := do
  let _ ← DownloadCheckpointStorage.clear
  let (committed, metadata) ← commitMetadata (reverted metadata reason)
  if !committed then pure (.metadataCommitFailed, none)
  else pure (.sourceRejected, some metadata)

def bestEffortMarkFailed (metadata : BootMetadata) (reason : ImageInstallerStatus) :
    Prog Machine Unit := do
  let _ ← commitMetadata
    { metadata with state := UpdateState.failed.code, lastError := installerError reason }
  pure ()

/-- Mark the update failed and report the status. -/
def failWith (metadata : BootMetadata) (reason status : ImageInstallerStatus) :
    Prog Machine Outcome := do
  bestEffortMarkFailed metadata reason
  pure (status, none)

/-! ## Checksums -/

/-- The CRC of some bytes that are read in chunks, or the status of a failed read. -/
def calculateCrc (readChunk : Nat → Nat → Prog Machine (Option (List UInt8)))
    (failure : ImageInstallerStatus) (length : Nat) :
    Prog Machine (Except ImageInstallerStatus UInt32) :=
  ExternalFlashStorage.foldChunks readChunk Crc32.update installCrcBufferSize length
    Crc32.ieeeInitialValue (.error failure) (fun running => .ok (running ^^^ Crc32.ieeeFinalXor))

/-- The internal flash is memory mapped: no read fails, and the failure value is not used. -/
def calculateInternalCrc (length : Nat) : Prog Machine UInt32 :=
  ExternalFlashStorage.foldChunks
    (fun offset chunk => Prog.read fun s =>
      some (window s.device.internal (applicationStartAddress + offset) chunk))
    Crc32.update installCrcBufferSize length Crc32.ieeeInitialValue 0
    (fun running => running ^^^ Crc32.ieeeFinalXor)

def calculateExternalCrc (partition : ExternalPartition) (length : Nat) :
    Prog Machine (Except ImageInstallerStatus UInt32) :=
  calculateCrc (ExternalFlashStorage.read partition) .sourceReadFailed length

def calculateBackupCrc : Prog Machine (Except ImageInstallerStatus UInt32) :=
  calculateCrc BackupImageStorage.read .backupVerifyFailed applicationMaxSize

def validateExternalSource (source : CandidateSource) : Prog Machine ImageInstallerStatus := do
  match ← ExternalFlashStorage.read source.partition 0 8 with
  | none => pure .sourceReadFailed
  | some vector =>
      if FullImage.validateVector source.imageSize.toNat
          (FirmwareContainer.getU32Le vector 0).toNat
          (FirmwareContainer.getU32Le vector 4).toNat ≠ .valid then
        pure .sourceVectorInvalid
      else do
        match ← calculateExternalCrc source.partition source.imageSize.toNat with
        | .error status => pure status
        | .ok crc => if crc ≠ source.imageCrc32 then pure .sourceCrcMismatch else pure .ok

def validateBackupImage : Prog Machine (Except ImageInstallerStatus BackupImageRecord) := do
  match ← BackupImageStorage.loadHeader with
  | .error _ => pure (.error .rollbackSourceInvalid)
  | .ok record => do
      match ← calculateBackupCrc with
      | .error status => pure (.error status)
      | .ok crc =>
          if crc ≠ record.imageCrc32 then pure (.error .backupCrcMismatch) else pure (.ok record)

/-! ## Pages -/

def loadCandidatePage (source : CandidateSource) (pageOffset : Nat) :
    Prog Machine (Except ImageInstallerStatus (List UInt8)) := do
  let length := InstallProgress.pageLength source.imageSize.toNat pageOffset
  if length = 0 then pure (.error .progressInvalid)
  else do
    match ← ExternalFlashStorage.read source.partition pageOffset length with
    | none => pure (.error .sourceReadFailed)
    | some buffer => pure (.ok buffer)

def loadBackupPage (pageOffset : Nat) :
    Prog Machine (Except ImageInstallerStatus (List UInt8)) := do
  let length := InstallProgress.pageLength applicationMaxSize pageOffset
  if length = 0 then pure (.error .progressInvalid)
  else do
    match ← BackupImageStorage.read pageOffset length with
    | none => pure (.error .rollbackReadFailed)
    | some buffer => pure (.ok buffer)

/-- The half-words of a page; the last byte of an odd page is completed with erased bits. -/
def programHalfWords (address : Nat) (buffer : List UInt8) : Prog Machine Bool :=
  Prog.loopThen (fun i => i < buffer.length)
    (fun i => do
      let complete ← Flash.programHalfWord (address + i) (buffer.getD i 0xFF)
        (buffer.getD (i + 1) 0xFF)
      if !complete then pure (.error false) else pure (.ok (i + 2)))
    buffer.length 0 (fun _ => pure true)

def programBufferedApplicationPage (pageOffset : Nat) (buffer : List UInt8) :
    Prog Machine ImageInstallerStatus := do
  let erased ← Flash.erasePage (applicationStartAddress + pageOffset)
  if !erased then pure .flashEraseFailed
  else do
    let programmed ← programHalfWords (applicationStartAddress + pageOffset) buffer
    if !programmed then pure .flashProgramFailed
    else do
      let installed ← Flash.readInternal (applicationStartAddress + pageOffset) buffer.length
      if installed ≠ buffer then pure .pageVerifyFailed else pure .ok

/-- Load a page and program it. -/
def programAndVerifyPage (load : Prog Machine (Except ImageInstallerStatus (List UInt8)))
    (pageOffset : Nat) : Prog Machine ImageInstallerStatus := do
  match ← load with
  | .error status => pure status
  | .ok buffer => programBufferedApplicationPage pageOffset buffer

def programAndVerifyCandidatePage (source : CandidateSource) (pageOffset : Nat) :
    Prog Machine ImageInstallerStatus :=
  programAndVerifyPage (loadCandidatePage source pageOffset) pageOffset

def programAndVerifyBackupPage (pageOffset : Nat) : Prog Machine ImageInstallerStatus :=
  programAndVerifyPage (loadBackupPage pageOffset) pageOffset

/-! ## Backup -/

def beginBackup (metadata : BootMetadata) : Prog Machine Step := do
  let invalidated ← BackupImageStorage.invalidateHeader
  if invalidated ≠ .ok then pure (.backupHeaderFailed, metadata)
  else
    commitOr .metadataCommitFailed
      { metadata with
        state := UpdateState.backingUp.code, copyOffset := 0, bootAttempts := 0, lastError := 0 }

def copyActiveImageToBackupChunk (chunkOffset chunkLength : Nat) :
    Prog Machine ImageInstallerStatus := do
  let erased ← BackupImageStorage.eraseSector chunkOffset
  if !erased then pure .backupEraseFailed
  else
    Prog.loopThen (fun copied => copied < chunkLength)
      (fun copied => do
        let length := min (chunkLength - copied) internalFlashPageSize
        let buffer ← Flash.readInternal (applicationStartAddress + (chunkOffset + copied)) length
        let written ← BackupImageStorage.write (chunkOffset + copied) buffer
        if !written then pure (.error .backupWriteFailed)
        else do
          let verified ← BackupImageStorage.verify (chunkOffset + copied) buffer
          if !verified then pure (.error .backupVerifyFailed) else pure (.ok (copied + length)))
      chunkLength 0 (fun _ => pure .ok)

/-- The backup is complete: compare it, give it a header and go on to the installation. -/
def completeBackup (metadata : BootMetadata) : Prog Machine Step := do
  let internalCrc ← calculateInternalCrc applicationMaxSize
  match ← calculateBackupCrc with
  | .error status => pure (status, metadata)
  | .ok backupCrc =>
      if internalCrc ≠ backupCrc then pure (.backupCrcMismatch, metadata)
      else do
        match ← BackupImageStorage.commitHeader
            (BackupImage.init metadata.activeVersion backupCrc) with
        | .error _ => pure (.backupHeaderFailed, metadata)
        | .ok _ =>
            commitOr .metadataCommitFailed
              { metadata with
                state := UpdateState.installing.code, copyOffset := 0, lastError := 0 }

/-- One sector of the backup and its checkpoint. -/
def backupStep (metadata : BootMetadata) : Prog Machine (Except Step BootMetadata) := do
  let chunkOffset := metadata.copyOffset.toNat
  let status ← copyActiveImageToBackupChunk chunkOffset (BackupProgress.chunkLength chunkOffset)
  if status ≠ .ok then pure (.error (status, metadata))
  else do
    let (status, metadata) ← commitOr .metadataCommitFailed
      { metadata with
        copyOffset := UInt32.ofNat (BackupProgress.nextCheckpoint chunkOffset)
        lastError := 0 }
    if status ≠ .ok then pure (.error (status, metadata)) else pure (.ok metadata)

def resumeBackup (metadata : BootMetadata) : Prog Machine Step :=
  if BackupProgress.validate metadata.copyOffset.toNat ≠ .valid then
    pure (.backupProgressInvalid, metadata)
  else
    Prog.loopThen (fun metadata : BootMetadata => metadata.copyOffset.toNat < applicationMaxSize)
      backupStep applicationMaxSize metadata completeBackup

/-! ## Page-wise copies -/

/-- A copy of pages that persists its progress after each page. -/
def resumeCopy (imageSize : Nat) (programPage : Nat → Prog Machine ImageInstallerStatus)
    (checkpoint : BootMetadata → BootMetadata) (metadata : BootMetadata) : Prog Machine Step :=
  if InstallProgress.validate imageSize metadata.copyOffset.toNat ≠ .valid then
    pure (.progressInvalid, metadata)
  else
    Prog.loopThen (fun metadata : BootMetadata => metadata.copyOffset.toNat < imageSize)
      (fun metadata => do
        let pageOffset := metadata.copyOffset.toNat
        let status ← programPage pageOffset
        if status ≠ .ok then pure (.error (status, metadata))
        else do
          let (status, metadata) ← commitOr .metadataCommitFailed
            (checkpoint { metadata with
              copyOffset := UInt32.ofNat (InstallProgress.nextCheckpoint imageSize pageOffset) })
          if status ≠ .ok then pure (.error (status, metadata)) else pure (.ok metadata))
      imageSize metadata (fun metadata => pure (.ok, metadata))

def resumePageCheckpointedCopy (source : CandidateSource) (metadata : BootMetadata) :
    Prog Machine Step :=
  resumeCopy source.imageSize.toNat (programAndVerifyCandidatePage source)
    (fun metadata => { metadata with lastError := 0 }) metadata

/-- The rollback keeps its diagnostic in `lastError` across the checkpoints. -/
def resumeRollbackCopy (metadata : BootMetadata) : Prog Machine Step :=
  resumeCopy applicationMaxSize programAndVerifyBackupPage id metadata

/-! ## Verification and transitions -/

/-- The application has the given CRC and vectors that may be started, or the failure. -/
def verifyApplication (imageSize : Nat) (imageCrc32 : UInt32)
    (crcFailure vectorFailure : ImageInstallerStatus) : Prog Machine ImageInstallerStatus := do
  let crc ← calculateInternalCrc imageSize
  if crc ≠ imageCrc32 then pure crcFailure
  else
    Prog.read fun s =>
      if FullImage.validateVector imageSize (s.device.internalWord applicationStartAddress)
          (s.device.internalWord (applicationStartAddress + 4)) ≠ .valid then vectorFailure
      else
        match ApplicationJump.validate s.device applicationStartAddress with
        | .error _ => vectorFailure
        | .ok _ => .ok

def verifyInstalledApplication (source : CandidateSource) : Prog Machine ImageInstallerStatus :=
  verifyApplication source.imageSize.toNat source.imageCrc32 .verifyCrcFailed .verifyVectorFailed

def verifyRolledBackApplication (backup : BackupImageRecord) : Prog Machine ImageInstallerStatus :=
  verifyApplication applicationMaxSize backup.imageCrc32 .rollbackVerifyFailed
    .rollbackVerifyFailed

def transitionToVerify (metadata : BootMetadata) (imageSize : UInt32) : Prog Machine Step :=
  commitOr .metadataCommitFailed
    { metadata with
      state := UpdateState.verifyingInstall.code, copyOffset := imageSize, lastError := 0 }

def beginInstall (metadata : BootMetadata) : Prog Machine Step :=
  commitOr .metadataCommitFailed
    { metadata with state := UpdateState.installing.code, copyOffset := 0, lastError := 0 }

def transitionToTrialBoot (metadata : BootMetadata) : Prog Machine Outcome := do
  let cleared ← DownloadCheckpointStorage.clear
  if cleared ≠ .ok then pure (.checkpointClearFailed, none)
  else do
    let (committed, metadata) ← commitMetadata
      { metadata with
        state := UpdateState.trialBoot.code, copyOffset := 0, bootAttempts := 0, lastError := 0 }
    if !committed then pure (.trialTransitionFailed, none) else pure (.ok, some metadata)

/-! ## Rollback -/

def rollbackDiagnostic (metadata : BootMetadata) : UInt32 :=
  if metadata.state = UpdateState.rollback.code then metadata.lastError
  else if metadata.bootAttempts ≥ BootMetadata.maxBootAttempts then
    rollbackTrialLimitBase ||| (metadata.bootAttempts &&& 0xFF)
  else if metadata.state = UpdateState.trialBoot.code then rollbackInvalidTrial
  else rollbackInstallBase

def beginRollback (metadata : BootMetadata) (diagnostic : UInt32) : Prog Machine Step :=
  commitOr .metadataCommitFailed
    { metadata with
      state := UpdateState.rollback.code, copyOffset := 0, lastError := diagnostic }

/-- The metadata after a completed rollback. -/
def rolledBack (metadata : BootMetadata) (backup : BackupImageRecord) (diagnostic : UInt32) :
    BootMetadata :=
  { metadata with
    state := UpdateState.idle.code
    activeVersion := backup.activeVersion
    pendingVersion := 0
    activeUpdateId := 0
    receivedSize := 0
    expectedSize := 0
    copyOffset := 0
    bootAttempts := 0
    lastError := diagnostic }

def finalizeRollback (metadata : BootMetadata) (backup : BackupImageRecord)
    (diagnostic : UInt32) : Prog Machine Outcome := do
  let _ ← DownloadCheckpointStorage.clear
  let (committed, metadata) ← commitMetadata (rolledBack metadata backup diagnostic)
  if !committed then pure (.finalizeFailed, none) else pure (.ok, some metadata)

/-- Copy the backup over the application, verify it and close the update. -/
def restoreBackup (metadata : BootMetadata) (backup : BackupImageRecord) (diagnostic : UInt32) :
    Prog Machine Outcome := do
  let (status, metadata) ← resumeRollbackCopy metadata
  if status ≠ .ok then failWith metadata status status
  else do
    let verified ← verifyRolledBackApplication backup
    if verified ≠ .ok then failWith metadata verified verified
    else finalizeRollback metadata backup diagnostic

/-- Enter `ROLLBACK`, or check where an interrupted rollback resumes. -/
def enterRollback (metadata : BootMetadata) (backup : BackupImageRecord) :
    Prog Machine Outcome := do
  if metadata.state ≠ UpdateState.rollback.code then do
    let (status, working) ← beginRollback metadata (rollbackDiagnostic metadata)
    if status ≠ .ok then pure (status, none)
    else restoreBackup working backup (rollbackDiagnostic metadata)
  else if InstallProgress.validate applicationMaxSize metadata.copyOffset.toNat ≠ .valid then
    failWith metadata .progressInvalid .progressInvalid
  else restoreBackup metadata backup (rollbackDiagnostic metadata)

/-- `ImageInstaller_ProcessRollback`. -/
def processRollback (metadata : BootMetadata) : Prog Machine Outcome := do
  let initialized ← ExternalFlashStorage.init
  if !initialized then pure (.externalFlashInitFailed, none)
  else do
    match ← validateBackupImage with
    | .error _ => failWith metadata .rollbackSourceInvalid .rollbackSourceInvalid
    | .ok backup => enterRollback metadata backup

def rollbackAfterInstallFailure (metadata : BootMetadata) (reason : ImageInstallerStatus) :
    Prog Machine Outcome := do
  let (status, metadata) ← beginRollback metadata (rollbackInstallBase ||| (reason.code &&& 0xFF))
  if status ≠ .ok then pure (.metadataCommitFailed, none) else processRollback metadata

/-! ## The installation -/

/-- The page-wise copy of the candidate, its verification and the transition to the trial. -/
def installCandidate (source : CandidateSource) (metadata : BootMetadata) :
    Prog Machine Outcome := do
  let (status, metadata) ← resumePageCheckpointedCopy source metadata
  if status ≠ .ok then
    if status = .metadataCommitFailed then pure (status, none)
    else rollbackAfterInstallFailure metadata status
  else do
    let (status, metadata) ← transitionToVerify metadata source.imageSize
    if status ≠ .ok then pure (status, none)
    else do
      let verified ← verifyInstalledApplication source
      if verified ≠ .ok then rollbackAfterInstallFailure metadata verified
      else transitionToTrialBoot metadata

/-- What follows the backup, depending on how far an earlier run came. -/
def continueInstall (source : CandidateSource) (metadata : BootMetadata) :
    Prog Machine Outcome := do
  match ← validateBackupImage with
  | .error status => failWith metadata status status
  | .ok _ =>
      if metadata.state = UpdateState.verifyingInstall.code then do
        let verified ← verifyInstalledApplication source
        if verified = .ok then transitionToTrialBoot metadata
        else do
          let (status, metadata) ← beginInstall metadata
          if status ≠ .ok then pure (status, none) else installCandidate source metadata
      else if metadata.state = UpdateState.installing.code then
        if InstallProgress.validate source.imageSize.toNat metadata.copyOffset.toNat ≠ .valid then
          rollbackAfterInstallFailure metadata .progressInvalid
        else installCandidate source metadata
      else rollbackAfterInstallFailure metadata .handoffMismatch

/-- Resume an open backup, then go on. -/
def continueBackup (source : CandidateSource) (metadata : BootMetadata) : Prog Machine Outcome := do
  if metadata.state = UpdateState.backingUp.code then do
    let (status, metadata) ← resumeBackup metadata
    if status ≠ .ok then revertToActiveImage metadata status else continueInstall source metadata
  else continueInstall source metadata

/-- Begin the backup of a new candidate, or resume. -/
def processSource (source : CandidateSource) (metadata : BootMetadata) : Prog Machine Outcome := do
  if metadata.state = UpdateState.artifactReady.code ∨
      metadata.state = UpdateState.imageReady.code then do
    let (status, metadata) ← beginBackup metadata
    if status ≠ .ok then failWith metadata status status else continueBackup source metadata
  else continueBackup source metadata

/-- The internal application may already be overwritten in these states. -/
def internalMayBeModified (metadata : BootMetadata) : Bool :=
  metadata.state = UpdateState.installing.code || metadata.state = UpdateState.verifyingInstall.code

/-- Give up an unusable candidate: restore the backup if it may be needed. -/
def abandon (metadata : BootMetadata) (reason : ImageInstallerStatus) : Prog Machine Outcome :=
  if internalMayBeModified metadata then rollbackAfterInstallFailure metadata reason
  else revertToActiveImage metadata reason

/-- `ImageInstaller_ProcessBasicFull`. -/
def processBasicFull (key : TrustedKey) (metadata : BootMetadata) : Prog Machine Outcome := do
  let initialized ← ExternalFlashStorage.init
  if !initialized then pure (.externalFlashInitFailed, none)
  else do
    match ← loadCandidateSource key metadata with
    | .error status => abandon metadata status
    | .ok source => do
        let status ← validateExternalSource source
        if status ≠ .ok then abandon metadata status else processSource source metadata

end ImageInstaller

end SecureDeltaOta
