import SecureDeltaOta.App.OtaPacket
import SecureDeltaOta.Protocol.Codecs

/-!
# How the gateway goes on with a transfer

`uart_ota_plan.c` and what it rests on in `uart_ota_protocol.c` and
`uart_ota_client.c`: the gateway reads the answer to a query, selects a plan,
takes up a transfer at the offset that the node reports and sends the rest of the
artifact in packets of at most 256 bytes.
-/

namespace SecureDeltaOta

open Memory

/-- `UartOtaAckInfo_t`. -/
structure UartOtaAckInfo where
  status : UInt8
  updateState : UInt8
  acknowledgedSequence : UInt16
  nextExpectedOffset : UInt32
  receivedSize : UInt32
  expectedSize : UInt32
  lastErrorDetail : UInt32
  deriving DecidableEq, Repr

/-- `UartOtaHelloInfo_t`. -/
structure UartOtaHelloInfo where
  protocolVersion : UInt8
  bootloaderVersion : UInt32
  applicationVersion : UInt32
  productId : UInt32
  hardwareRevision : UInt32
  capabilityFlags : UInt32
  updateState : UInt8
  lastStatus : UInt8
  activeUpdateId : UInt32
  nextExpectedOffset : UInt32
  expectedArtifactSize : UInt32
  deriving DecidableEq, Repr

inductive UartOtaPlan where
  | alreadyTarget
  | startNew
  | resume
  | installReady
  | waitTarget
  | abortForeign
  | error
  deriving DecidableEq, Repr

/-- The fields of `UartOtaArtifact_t` that a transfer reads; `image` is what `read` delivers. -/
structure UartOtaArtifact where
  updateId : UInt32
  targetVersion : UInt32
  imageSize : UInt32
  image : Nat → UInt8

namespace UartOta

def parseAck (packet : OtaPacket) : Option UartOtaAckInfo :=
  if packet.command ≠ OtaCommand.ack.code ∧ packet.command ≠ OtaCommand.nack.code ∨
      packet.payload.length ≠ otaAckPayloadSize then none
  else
    some
      { status := packet.payload.getD 0 0
        updateState := packet.payload.getD 1 0
        acknowledgedSequence := readLe16 packet.payload 2
        nextExpectedOffset := readLe32 packet.payload 4
        receivedSize := readLe32 packet.payload 8
        expectedSize := readLe32 packet.payload 12
        lastErrorDetail := readLe32 packet.payload 16 }

def parseHello (packet : OtaPacket) : Option UartOtaHelloInfo :=
  if packet.command ≠ OtaCommand.ack.code ∨
      packet.payload.length ≠ otaHelloResponsePayloadSize then none
  else
    some
      { protocolVersion := packet.payload.getD 0 0
        bootloaderVersion := readLe32 packet.payload 1
        applicationVersion := readLe32 packet.payload 5
        productId := readLe32 packet.payload 9
        hardwareRevision := readLe32 packet.payload 13
        capabilityFlags := readLe32 packet.payload 17
        updateState := packet.payload.getD 21 0
        lastStatus := packet.payload.getD 22 0
        activeUpdateId := readLe32 packet.payload 25
        nextExpectedOffset := readLe32 packet.payload 29
        expectedArtifactSize := readLe32 packet.payload 33 }

/-- `RequireAck`: what the answer says, if it is positive. -/
def requireAck (response : OtaPacket) : Option UartOtaAckInfo := do
  let ack ← parseAck response
  if response.command ≠ OtaCommand.ack.code ∨ ack.status ≠ OtaStatus.ok.code then none
  else some ack

/-- `UartOta_SelectPlan`. -/
def selectPlan (target : UartOtaHelloInfo) (updateId size version : UInt32) : UartOtaPlan :=
  if updateId = 0 ∨ size = 0 ∨ version = 0 then .error
  else if target.applicationVersion = version ∧
      target.updateState = OtaResponse.stateByte .idle then .alreadyTarget
  else
    match UpdateState.ofCode target.updateState.toUInt32 with
    | some .idle => .startNew
    | some .receiving =>
        if target.activeUpdateId = updateId ∧ target.expectedArtifactSize = size ∧
            target.nextExpectedOffset ≤ size ∧
            target.nextExpectedOffset.toNat % maxPayload = 0 then .resume
        else .abortForeign
    | some .artifactReady =>
        if target.activeUpdateId = updateId ∧ target.expectedArtifactSize = size then .installReady
        else .abortForeign
    | some .backingUp | some .installing | some .verifyingInstall | some .trialBoot
    | some .confirmed | some .rollback => .waitTarget
    | some .failed => .abortForeign
    | _ => .error

/-- The request of `QueryOnce`. -/
def queryRequest : OtaPacket := ⟨OtaCommand.query.code, 0, 0, 0, []⟩

/-- The request of `ResumeTransfer`. -/
def resumeRequest (artifact : UartOtaArtifact) : OtaPacket :=
  ⟨OtaCommand.resume.code, artifact.updateId, 0, 0, []⟩

/-- `ResumeTransfer`: the offset to go on with. -/
def resumeTransfer (artifact : UartOtaArtifact) (response : OtaPacket) : Option UInt32 := do
  let ack ← requireAck response
  if ack.nextExpectedOffset > artifact.imageSize ∨
      ack.nextExpectedOffset.toNat % maxPayload ≠ 0 then none
  else some ack.nextExpectedOffset

/-- The packets of `SendData`, as long as each of them is acknowledged. -/
def sendData (artifact : UartOtaArtifact) (offset : Nat) (sequence : UInt16) : List OtaPacket :=
  if offset < artifact.imageSize.toNat then
    let chunk := min (artifact.imageSize.toNat - offset) maxPayload
    ⟨OtaCommand.data.code, artifact.updateId, UInt32.ofNat offset, sequence,
      window artifact.image offset chunk⟩ :: sendData artifact (offset + chunk) (sequence + 1)
  else []
termination_by artifact.imageSize.toNat - offset
decreasing_by
  unfold maxPayload
  omega

/-- From a multiple of 256 on, full packets are sent and then the rest. -/
theorem mem_sendData {artifact : UartOtaArtifact} {offset : Nat} {sequence : UInt16}
    {packet : OtaPacket} (hoffset : offset % maxPayload = 0)
    (h : packet ∈ sendData artifact offset sequence) :
    ∃ o, o < artifact.imageSize.toNat ∧ o % maxPayload = 0 ∧ packet.offset = UInt32.ofNat o ∧
      packet.payload.length = min (artifact.imageSize.toNat - o) maxPayload := by
  fun_induction sendData artifact offset sequence with
  | case1 offset sequence hlt chunk ih =>
      rcases List.mem_cons.1 h with rfl | hrest
      · exact ⟨offset, hlt, hoffset, rfl, window_length _ _ _⟩
      · by_cases hfull : chunk = maxPayload
        · exact ih (by rw [hfull]; unfold maxPayload at hoffset ⊢; omega) hrest
        · have hend : ¬ offset + chunk < artifact.imageSize.toNat := by omega
          rw [sendData, if_neg hend] at hrest
          cases hrest
  | case2 => cases h

/-- The gateway reads a node's answer to a query as it was meant. -/
theorem parseHello_buildHelloQuery (version : UInt32) (request : OtaPacket)
    (info : OtaResponseInfo) :
    parseHello (OtaResponse.buildHelloQuery version request info) = some
      ⟨otaProtocolVersion, bootloaderVersion, version, FirmwareContainer.productId,
        FirmwareContainer.hardwareRevision, info.capabilityFlags,
        OtaResponse.stateByte info.updateState, info.lastStatus.code, info.activeUpdateId,
        info.nextExpectedOffset, info.expectedSize⟩ := by
  unfold parseHello
  rw [if_neg (by rintro (h | h) <;> exact h rfl), Option.some_inj, UartOtaHelloInfo.mk.injEq]
  refine ⟨rfl, ?_, ?_, ?_, ?_, ?_, rfl, rfl, ?_, ?_, ?_⟩
  all_goals apply ofLe32_bytes

/-- What the gateway makes of a positive answer to its request to resume. -/
theorem resumeTransfer_buildAck (artifact : UartOtaArtifact) (request : OtaPacket)
    (info : OtaResponseInfo) (hle : info.nextExpectedOffset ≤ artifact.imageSize) :
    resumeTransfer artifact (OtaResponse.buildAck request info) =
      if info.nextExpectedOffset.toNat % maxPayload = 0 then some info.nextExpectedOffset
      else none := by
  have hack : ∃ ack, requireAck (OtaResponse.buildAck request info) = some ack ∧
      ack.nextExpectedOffset = info.nextExpectedOffset :=
    ⟨_, rfl, ofLe32_bytes info.nextExpectedOffset⟩
  obtain ⟨ack, hrequired, hnext⟩ := hack
  unfold resumeTransfer
  rw [hrequired, Option.bind_eq_bind, Option.bind_some, hnext]
  by_cases haligned : info.nextExpectedOffset.toNat % maxPayload = 0
  · simp [haligned, UInt32.not_lt.2 hle]
  · simp [haligned]

/-- The plan for a transfer of the gateway's own artifact. -/
theorem selectPlan_own {target : UartOtaHelloInfo} {updateId size version : UInt32}
    (hstate : target.updateState = OtaResponse.stateByte .receiving)
    (hfields : updateId ≠ 0 ∧ size ≠ 0 ∧ version ≠ 0) (hid : target.activeUpdateId = updateId)
    (hsize : target.expectedArtifactSize = size) (hle : target.nextExpectedOffset ≤ size) :
    selectPlan target updateId size version =
      if target.nextExpectedOffset.toNat % maxPayload = 0 then .resume else .abortForeign := by
  unfold selectPlan
  rw [hstate, if_neg (by simp [hfields]),
    if_neg (by simp [OtaResponse.stateByte, UpdateState.code])]
  have hcode : UpdateState.ofCode (OtaResponse.stateByte .receiving).toUInt32 =
      some .receiving := by decide
  simp [hcode, hid, hsize, hle]

end UartOta

end SecureDeltaOta
