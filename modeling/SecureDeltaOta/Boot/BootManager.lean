import SecureDeltaOta.Boot.ImageInstaller

/-!
# The boot manager

`boot_decision.c`, `trial_boot.c` and `boot_manager.c`: at power-up the persisted
record and the vectors of the installed application decide what is done next.
The work of an open update is carried on, step by step, until the application is
started or the bootloader stops with an error code on its LED.
-/

namespace SecureDeltaOta

open Memory Crash

/-! ## Decisions -/

inductive BootAction where
  | jumpActive
  | resumeDownload
  | processArtifact
  | restartValidation
  | restartPatch
  | continueBackup
  | resumeInstall
  | verifyInstall
  | bootTrial
  | finalizeConfirmation
  | resumeRollback
  | stayRecovery
  deriving DecidableEq, Repr

inductive BootDecisionReason where
  | none
  | applicationInvalid
  | metadataInvalid
  | trialLimitReached
  | failedState
  deriving DecidableEq, Repr

structure BootDecision where
  action : BootAction
  reason : BootDecisionReason
  deriving DecidableEq, Repr

namespace BootDecision

/-- The decision for a valid record, before the application is looked at. -/
def ofMetadata (metadata : BootMetadata) : BootDecision :=
  match UpdateState.ofCode metadata.state with
  | some .idle => ⟨.jumpActive, .none⟩
  | some .receiving => ⟨.resumeDownload, .none⟩
  | some .artifactReady => ⟨.processArtifact, .none⟩
  | some .verifyingContainer | some .verifyingBase => ⟨.restartValidation, .none⟩
  | some .patching => ⟨.restartPatch, .none⟩
  | some .imageReady | some .backingUp => ⟨.continueBackup, .none⟩
  | some .installing => ⟨.resumeInstall, .none⟩
  | some .verifyingInstall => ⟨.verifyInstall, .none⟩
  | some .trialBoot =>
      if metadata.bootAttempts ≥ BootMetadata.maxBootAttempts then
        ⟨.resumeRollback, .trialLimitReached⟩
      else ⟨.bootTrial, .none⟩
  | some .confirmed => ⟨.finalizeConfirmation, .none⟩
  | some .rollback => ⟨.resumeRollback, .none⟩
  | some .failed | none => ⟨.stayRecovery, .failedState⟩

/-- `BootDecision_Evaluate`: only an application with valid vectors is started. -/
def evaluate (metadata : BootMetadata) (applicationValid : Bool) : BootDecision :=
  if metadata.validate ≠ .valid then ⟨.stayRecovery, .metadataInvalid⟩
  else
    let decision := ofMetadata metadata
    if !applicationValid && decision.action = .bootTrial then
      ⟨.resumeRollback, .applicationInvalid⟩
    else if !applicationValid &&
        (decision.action = .jumpActive || decision.action = .resumeDownload) then
      ⟨.stayRecovery, .applicationInvalid⟩
    else decision

end BootDecision

/-! ## Trials -/

inductive TrialBootStatus where
  | ok
  | invalidState
  | attemptLimit
  | metadataCommitFailed
  deriving DecidableEq, Repr

namespace TrialBoot

/-- Commit a record and hand it to the caller. -/
def commit (metadata : BootMetadata) : Prog Machine (TrialBootStatus × Option BootMetadata) := do
  match ← MetadataStorage.commit metadata with
  | .error _ => pure (.metadataCommitFailed, none)
  | .ok committed => pure (.ok, some committed)

def prepareAttempt (metadata : BootMetadata) :
    Prog Machine (TrialBootStatus × Option BootMetadata) :=
  if metadata.state ≠ UpdateState.trialBoot.code then pure (.invalidState, none)
  else if metadata.bootAttempts ≥ BootMetadata.maxBootAttempts then pure (.attemptLimit, none)
  else commit { metadata with bootAttempts := metadata.bootAttempts + 1, lastError := 0 }

/-- The metadata after a confirmed update. -/
def finalized (metadata : BootMetadata) : BootMetadata :=
  { metadata with
    state := UpdateState.idle.code
    activeVersion := metadata.pendingVersion
    pendingVersion := 0
    activeUpdateId := 0
    receivedSize := 0
    expectedSize := 0
    copyOffset := 0
    bootAttempts := 0
    lastError := 0 }

def finalizeConfirmation (metadata : BootMetadata) :
    Prog Machine (TrialBootStatus × Option BootMetadata) :=
  if metadata.state ≠ UpdateState.confirmed.code ∨ metadata.pendingVersion = 0 then
    pure (.invalidState, none)
  else commit (finalized metadata)

end TrialBoot

/-! ## The loop -/

/-- What a build of the bootloader fixes. -/
structure Build where
  key : TrustedKey
  /-- The active version of a node without metadata. -/
  applicationVersion : UInt32

namespace BootManager

def metadataErrorPulses : Nat := 8
def recoveryActionPulses : Nat := 9
def installErrorPulses : Nat := 10
def trialErrorPulses : Nat := 11
def rollbackErrorPulses : Nat := 12
def secureErrorPulses : Nat := 14
def maxBootTransitions : Nat := 8

/-- How a run of the bootloader ends, if power is not lost. -/
inductive Ending where
  | jump (vector : ApplicationVector)
  | fatal (pulseCount : Nat)
  deriving DecidableEq, Repr

def applicationErrorPulseCount : ApplicationValidationStatus → Nat
  | .badVectorAlignment => 1
  | .badVectorRange => 2
  | .badStackRange => 3
  | .badStackAlignment => 4
  | .badResetThumbBit => 5
  | .badResetRange => 6

def actionNeedsInstallWork (action : BootAction) : Bool :=
  action = .processArtifact || action = .continueBackup || action = .resumeInstall ||
    action = .verifyInstall

/-- Go on with the committed metadata, or stop when the status is not an accepted one. -/
def proceed {status : Type} (pulseCount : Nat) (accepted : status → Bool)
    (outcome : status × Option BootMetadata) : Except Ending BootMetadata :=
  match outcome with
  | (status, some committed) => if accepted status then .ok committed else .error (.fatal pulseCount)
  | (_, none) => .error (.fatal pulseCount)

/-- `ApplicationJump_Execute`. -/
def execute (vector : ApplicationVector) : Prog Machine (Except Ending BootMetadata) := do
  Flash.update fun d => d.record .jump
  pure (.error (.jump vector))

/-- Process the received artifact; only a present container may yield an image. -/
def processArtifact (key : TrustedKey) (metadata : BootMetadata) :
    Prog Machine (Except Ending BootMetadata) := do
  let incoming ← SecureContainer.isIncoming
  let outcome ← SecureContainer.process key metadata
  if incoming then
    pure (proceed secureErrorPulses (fun status => status = .ok || status = .sourceRejected) outcome)
  else pure (proceed secureErrorPulses (fun status => status = .sourceRejected) outcome)

/-- Count the attempt before the trial starts. -/
def bootTrial (metadata : BootMetadata) (vector : ApplicationVector) :
    Prog Machine (Except Ending BootMetadata) := do
  let (status, _) ← TrialBoot.prepareAttempt metadata
  if status ≠ .ok then pure (.error (.fatal trialErrorPulses)) else execute vector

/-- The actions that need no valid application. -/
def recover (key : TrustedKey) (metadata : BootMetadata) (action : BootAction) (stop : Ending) :
    Prog Machine (Except Ending BootMetadata) := do
  if action = .processArtifact ∨ action = .restartValidation ∨ action = .restartPatch then
    processArtifact key metadata
  else if actionNeedsInstallWork action then do
    let outcome ← ImageInstaller.processBasicFull key metadata
    pure (proceed installErrorPulses (fun status => status = .ok || status = .sourceRejected) outcome)
  else if action = .finalizeConfirmation then do
    let outcome ← TrialBoot.finalizeConfirmation metadata
    pure (proceed trialErrorPulses (fun status => status = .ok) outcome)
  else if action = .resumeRollback then do
    let outcome ← ImageInstaller.processRollback metadata
    pure (proceed rollbackErrorPulses (fun status => status = .ok) outcome)
  else pure (.error stop)

/--
One turn of the loop of `BootManager_Run`: the metadata to go on with, or the end
of the run. The decision asks for a start only when the vectors are valid.
-/
def transition (key : TrustedKey) (metadata : BootMetadata) :
    Prog Machine (Except Ending BootMetadata) := do
  let application ← Prog.read fun s => ApplicationJump.validate s.device applicationStartAddress
  match application with
  | .ok vector =>
      let decision := BootDecision.evaluate metadata true
      if decision.action = .bootTrial then bootTrial metadata vector
      else if decision.action = .jumpActive ∨ decision.action = .resumeDownload then execute vector
      else recover key metadata decision.action (.fatal recoveryActionPulses)
  | .error status =>
      let decision := BootDecision.evaluate metadata false
      let pulses := if decision.reason = .applicationInvalid then applicationErrorPulseCount status
        else recoveryActionPulses
      recover key metadata decision.action (.fatal pulses)

/-- The record to start with; a node without metadata gets default ones. -/
def loadMetadata (applicationVersion : UInt32) : Prog Machine (Option BootMetadata) := do
  match ← Prog.read fun s => MetadataStorage.load applicationVersion s.device with
  | (.ok, metadata) => pure (some metadata)
  | (.defaultsUsed, metadata) => do
      match ← MetadataStorage.commit metadata with
      | .ok committed => pure (some committed)
      -- a node whose first commit fails still starts its factory image
      | .error _ => pure (some (BootMetadata.finalize { metadata with generation := 1 }))
  | _ => pure none

/-- At most `maxBootTransitions` turns of the loop. -/
def transitions (key : TrustedKey) (metadata : BootMetadata) : Prog Machine Ending :=
  Prog.loopThen (fun st : BootMetadata × Nat => st.2 < maxBootTransitions)
    (fun st => do
      match ← transition key st.1 with
      | .ok metadata => pure (.ok (metadata, st.2 + 1))
      | .error ending => pure (.error ending))
    maxBootTransitions (metadata, 0) (fun _ => pure (.fatal recoveryActionPulses))

/-- `BootManager_Run`. -/
def run (build : Build) : Prog Machine Ending := do
  match ← loadMetadata build.applicationVersion with
  | none => pure (.fatal metadataErrorPulses)
  | some metadata => transitions build.key metadata

end BootManager

end SecureDeltaOta
