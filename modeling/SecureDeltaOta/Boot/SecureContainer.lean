import SecureDeltaOta.Boot.JanpatchMeaning
import SecureDeltaOta.Crypto.EcdsaP256
import SecureDeltaOta.Shared.FirmwareContainer
import SecureDeltaOta.Storage.MetadataStorage
import SecureDeltaOta.Storage.RecordCommit

/-!
# Signed containers

`secure_container.c`: from a received artifact to a verified image in the
reconstructed partition. The container is authenticated, the version and base
policy is enforced, the image is rebuilt and hashed, and only then does the
metadata say `IMAGE_READY`. Whatever fails on the way leads back to `IDLE`.
-/

namespace SecureDeltaOta

open Memory Crash

/-- The trusted key of a build, `trusted_key.h`. -/
structure TrustedKey where
  provisioned : Bool
  keyId : UInt32
  publicKey : List UInt8
  deriving DecidableEq, Repr

inductive SecureContainerStatus where
  | ok
  | notPresent
  | unprovisionedKey
  | flashInitFailed
  | headerReadFailed
  | headerInvalid
  | keyIdMismatch
  | metadataMismatch
  | versionRejected
  | payloadReadFailed
  | payloadCrcMismatch
  | signatureReadFailed
  | signatureInvalid
  | baseVersionMismatch
  | baseHashMismatch
  | targetEraseFailed
  | targetWriteFailed
  | patchFailed
  | targetReadFailed
  | targetHashMismatch
  | targetCrcMismatch
  | targetVectorInvalid
  | metadataCommitFailed
  | sourceRejected
  deriving DecidableEq, Repr

/-- The number of a status in its C enumeration. -/
def SecureContainerStatus.code (status : SecureContainerStatus) : UInt32 :=
  UInt32.ofNat status.ctorIdx

namespace SecureContainer

open FirmwareContainer (Info headerSize signatureSize imageFull imageDelta)

def errorBase : UInt32 := 0x00140000

def ioBufferSize : Nat := 256

/-- A status, and the metadata the caller goes on with when there are new ones. -/
abbrev Outcome := SecureContainerStatus × Option BootMetadata

/-! ## Authentication -/

def readHeader (artifactSize : UInt32) :
    Prog Machine (Except SecureContainerStatus (Info × List UInt8)) := do
  match ← ExternalFlashStorage.read .incoming 0 headerSize with
  | none => pure (.error .headerReadFailed)
  | some raw =>
      match FirmwareContainer.parse raw artifactSize with
      | .error _ => pure (.error .headerInvalid)
      | .ok info => pure (.ok (info, raw))

/-- The running digests of a payload: what is signed, the payload alone, and its CRC. -/
structure PayloadDigest where
  signedHash : Sha256.Context
  payloadHash : Sha256.Context
  crc : UInt32

def PayloadDigest.start (rawHeader : List UInt8) : PayloadDigest where
  signedHash := Sha256.update Sha256.init rawHeader
  payloadHash := Sha256.init
  crc := Crc32.ieeeInitialValue

def PayloadDigest.update (st : PayloadDigest) (buffer : List UInt8) : PayloadDigest where
  signedHash := Sha256.update st.signedHash buffer
  payloadHash := Sha256.update st.payloadHash buffer
  crc := Crc32.update st.crc buffer

/-- The digest the signature is about, the digest of the payload, and its CRC. -/
def hashAndCrcPayload (info : Info) (rawHeader : List UInt8) :
    Prog Machine (Except SecureContainerStatus (List UInt8 × List UInt8 × UInt32)) :=
  ExternalFlashStorage.foldChunks
    (fun offset chunk => ExternalFlashStorage.read .incoming (info.payloadOffset + offset) chunk)
    PayloadDigest.update ioBufferSize info.header.payloadSize.toNat (.start rawHeader)
    (.error .payloadReadFailed)
    (fun st => .ok (Sha256.final st.signedHash, Sha256.final st.payloadHash,
      st.crc ^^^ Crc32.ieeeFinalXor))

def isIncoming : Prog Machine Bool := do
  let initialized ← ExternalFlashStorage.init
  if !initialized then pure false
  else do
    match ← ExternalFlashStorage.read .incoming 0 4 with
    | none => pure false
    | some bytes => pure (FirmwareContainer.getU32Le bytes 0 = FirmwareContainer.magic)

/-- The checks behind the header: key, payload, signature and, for a full image, its hash. -/
def verifyContents (key : TrustedKey) (info : Info) (rawHeader : List UInt8) :
    Prog Machine (Except SecureContainerStatus Info) := do
  if info.extension.keyId ≠ key.keyId then pure (.error .keyIdMismatch)
  else do
    match ← hashAndCrcPayload info rawHeader with
    | .error status => pure (.error status)
    | .ok (signedDigest, payloadDigest, payloadCrc) =>
        if payloadCrc ≠ info.header.payloadCrc32 then pure (.error .payloadCrcMismatch)
        else do
          match ← ExternalFlashStorage.read .incoming info.signatureOffset signatureSize with
          | none => pure (.error .signatureReadFailed)
          | some signature =>
              if EcdsaP256.verifyDigest key.publicKey signedDigest signature ≠ .valid then
                pure (.error .signatureInvalid)
              else if info.header.imageType = imageFull ∧
                  payloadDigest ≠ info.header.targetImageSha256 then
                pure (.error .targetHashMismatch)
              else
                pure (.ok info)

def loadVerifiedInfo (key : TrustedKey) (artifactSize : UInt32) :
    Prog Machine (Except SecureContainerStatus Info) := do
  let initialized ← ExternalFlashStorage.init
  if !initialized then pure (.error .flashInitFailed)
  else if !key.provisioned then pure (.error .unprovisionedKey)
  else do
    match ← readHeader artifactSize with
    | .error status => pure (.error status)
    | .ok (info, rawHeader) => verifyContents key info rawHeader

/-! ## Policy -/

def validateMetadataPolicy (info : Info) (metadata : BootMetadata) : SecureContainerStatus :=
  if metadata.activeUpdateId = 0 ∨ metadata.pendingVersion ≠ info.header.targetVersion ∨
      metadata.receivedSize ≠ metadata.expectedSize ∨
      metadata.expectedSize.toNat ≠ info.totalSize then .metadataMismatch
  else if info.header.targetVersion ≤ metadata.activeVersion then .versionRejected
  else if info.header.imageType = imageFull then
    if info.header.baseVersion ≠ 0 then .metadataMismatch else .ok
  else if info.header.baseVersion ≠ metadata.activeVersion then .baseVersionMismatch
  else .ok

def validateBase (info : Info) : Prog Machine SecureContainerStatus :=
  if info.header.imageType ≠ imageDelta then pure .ok
  else
    Prog.read fun s =>
      if Sha256.calculate (window s.device.app 0 info.extension.baseImageSize.toNat) =
          info.header.baseImageSha256 then .ok
      else .baseHashMismatch

/-! ## Reconstruction -/

/-- A size rounded up to whole sectors. -/
def eraseSize (targetSize : Nat) : Nat :=
  (targetSize + extFlashSectorSize - 1) / extFlashSectorSize * extFlashSectorSize

def eraseReconstructed (targetSize : Nat) : Prog Machine SecureContainerStatus := do
  if eraseSize targetSize = 0 ∨ eraseSize targetSize > ExternalPartition.reconstructed.size then
    pure .targetEraseFailed
  else do
    let erased ← ExternalFlashStorage.eraseRange .reconstructed 0 (eraseSize targetSize)
    if erased then pure .ok else pure .targetEraseFailed

def copyFullPayload (info : Info) : Prog Machine SecureContainerStatus :=
  Prog.loopThen (fun offset => offset < info.header.payloadSize.toNat)
    (fun offset => do
      let chunk := min (info.header.payloadSize.toNat - offset) ioBufferSize
      match ← ExternalFlashStorage.read .incoming (info.payloadOffset + offset) chunk with
      | none => pure (.error .payloadReadFailed)
      | some buffer => do
          let written ← ExternalFlashStorage.write .reconstructed offset buffer
          if !written then pure (.error .targetWriteFailed) else pure (.ok (offset + chunk)))
    info.header.payloadSize.toNat 0 (fun _ => pure .ok)

/-- The patch stream of a delta container. -/
def patchStream (info : Info) : JanpatchPort.Stream where
  baseImageSize := info.extension.baseImageSize.toNat
  patchOffset := info.payloadOffset
  patchSize := info.header.payloadSize.toNat
  targetImageSize := info.header.targetImageSize.toNat

def applyDeltaPayload (info : Info) : Prog Machine SecureContainerStatus := do
  match ← JanpatchPort.applyStream (patchStream info) with
  | .error _ => pure .patchFailed
  | .ok result =>
      if result.patchPosition ≠ (patchStream info).patchSize ∨
          result.targetPosition ≠ (patchStream info).targetImageSize then pure .patchFailed
      else pure .ok

/-- The image of a container, from its payload alone or from a patch of the installed image. -/
def rebuild (info : Info) : Prog Machine SecureContainerStatus :=
  if info.header.imageType = imageDelta then applyDeltaPayload info else copyFullPayload info

def hashReconstructed (length : Nat) :
    Prog Machine (Except SecureContainerStatus (List UInt8 × UInt32)) :=
  ExternalFlashStorage.foldChunks (ExternalFlashStorage.read .reconstructed)
    (fun st buffer => (Sha256.update st.1 buffer, Crc32.update st.2 buffer)) ioBufferSize length
    (Sha256.init, Crc32.ieeeInitialValue) (.error .targetReadFailed)
    (fun st => .ok (Sha256.final st.1, st.2 ^^^ Crc32.ieeeFinalXor))

def verifyReconstructed (info : Info) : Prog Machine SecureContainerStatus := do
  match ← hashReconstructed info.header.targetImageSize.toNat with
  | .error status => pure status
  | .ok (digest, crc) =>
      if digest ≠ info.header.targetImageSha256 then pure .targetHashMismatch
      else if crc ≠ info.extension.targetImageCrc32 then pure .targetCrcMismatch
      else do
        match ← ExternalFlashStorage.read .reconstructed 0 8 with
        | none => pure .targetReadFailed
        | some vector =>
            if FullImage.validateVector info.header.targetImageSize.toNat
                (FirmwareContainer.getU32Le vector 0).toNat
                (FirmwareContainer.getU32Le vector 4).toNat ≠ .valid then
              pure .targetVectorInvalid
            else pure .ok

/-! ## The state machine -/

/-- The metadata of a rejected update. -/
def rejected (metadata : BootMetadata) (reason : SecureContainerStatus) : BootMetadata :=
  { metadata with
    state := UpdateState.idle.code
    pendingVersion := 0
    activeUpdateId := 0
    receivedSize := 0
    expectedSize := 0
    copyOffset := 0
    bootAttempts := 0
    lastError := errorBase ||| reason.code }

def reject (metadata : BootMetadata) (reason : SecureContainerStatus) : Prog Machine Outcome := do
  let _ ← DownloadCheckpointStorage.clear
  match ← MetadataStorage.commit (rejected metadata reason) with
  | .error _ => pure (.metadataCommitFailed, none)
  | .ok committed => pure (.sourceRejected, some committed)

/-- The metadata of the next state. -/
def entering (metadata : BootMetadata) (state : UpdateState) : BootMetadata :=
  { metadata with state := state.code, copyOffset := 0, bootAttempts := 0, lastError := 0 }

def transition (metadata : BootMetadata) (state : UpdateState) :
    Prog Machine (Except Outcome BootMetadata) := do
  match ← MetadataStorage.commit (entering metadata state) with
  | .error _ => pure (.error (.metadataCommitFailed, none))
  | .ok committed => pure (.ok committed)

/-- A transition that is taken only from one state. -/
def transitionFrom (metadata : BootMetadata) (source target : UpdateState) :
    Prog Machine (Except Outcome BootMetadata) :=
  if metadata.state = source.code then transition metadata target else pure (.ok metadata)

/-- The transitions up to `PATCHING`, with the check of the base on the way. -/
def advance (info : Info) (metadata : BootMetadata) :
    Prog Machine (Except Outcome BootMetadata) := do
  match ← transitionFrom metadata .artifactReady .verifyingContainer with
  | .error outcome => pure (.error outcome)
  | .ok metadata =>
      if info.header.imageType = imageDelta then do
        match ← transitionFrom metadata .verifyingContainer .verifyingBase with
        | .error outcome => pure (.error outcome)
        | .ok metadata => do
            let status ← validateBase info
            if status ≠ .ok then do
              let outcome ← reject metadata status
              pure (.error outcome)
            else transitionFrom metadata .verifyingBase .patching
      else transitionFrom metadata .verifyingContainer .patching

/-- The metadata of a verified image. -/
def imageReady (info : Info) (metadata : BootMetadata) : BootMetadata :=
  { metadata with
    state := UpdateState.imageReady.code
    receivedSize := info.header.targetImageSize
    expectedSize := info.header.targetImageSize
    copyOffset := 0
    bootAttempts := 0
    lastError := 0 }

/-- Rebuild the image, verify it and say so. -/
def reconstruct (info : Info) (metadata : BootMetadata) : Prog Machine Outcome := do
  let erased ← eraseReconstructed info.header.targetImageSize.toNat
  if erased ≠ .ok then reject metadata erased
  else do
    let built ← rebuild info
    if built ≠ .ok then reject metadata built
    else do
      let verified ← verifyReconstructed info
      if verified ≠ .ok then reject metadata verified
      else do
        match ← MetadataStorage.commit (imageReady info metadata) with
        | .error _ => pure (.metadataCommitFailed, none)
        | .ok committed => pure (.ok, some committed)

/-- What follows the authentication. -/
def processVerified (info : Info) (metadata : BootMetadata) : Prog Machine Outcome := do
  if validateMetadataPolicy info metadata ≠ .ok then
    reject metadata (validateMetadataPolicy info metadata)
  else do
    match ← advance info metadata with
    | .error outcome => pure outcome
    | .ok metadata =>
        if metadata.state ≠ UpdateState.patching.code then reject metadata .metadataMismatch
        else reconstruct info metadata

/-- What follows the initialisation of the external flash. -/
def processArtifact (key : TrustedKey) (metadata : BootMetadata) : Prog Machine Outcome := do
  let present ← isIncoming
  if !present then reject metadata .notPresent
  else do
    match ← loadVerifiedInfo key metadata.expectedSize with
    | .error status => reject metadata status
    | .ok info => processVerified info metadata

/-- `SecureContainer_Process`. -/
def process (key : TrustedKey) (metadata : BootMetadata) : Prog Machine Outcome := do
  let initialized ← ExternalFlashStorage.init
  if !initialized then pure (.flashInitFailed, none)
  else processArtifact key metadata

end SecureContainer

end SecureDeltaOta
