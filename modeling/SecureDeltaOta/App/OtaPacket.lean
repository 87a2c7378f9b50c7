import SecureDeltaOta.Device.Machine
import SecureDeltaOta.Shared.FirmwareContainer

/-!
# Packets of the update protocol

`ota_protocol.h`, `ota_status.h` and `ota_response.c`: the packets a sender and
the node exchange, after framing and packet CRC have been checked. The receiver
looks at the command byte, the update id, the offset, the sequence number and
the payload; an answer echoes the update id and the sequence number.
-/

namespace SecureDeltaOta

open Memory

def otaMaxPayloadSize : Nat := 256
def otaStartPayloadSize : Nat := 24
def otaAckPayloadSize : Nat := 20
def otaHelloResponsePayloadSize : Nat := 37

def otaProtocolVersion : UInt8 := 1

/-- The version the bootloader is compiled with. -/
def bootloaderVersion : UInt32 := 1

inductive OtaCommand where
  | hello
  | query
  | start
  | data
  | finish
  | abort
  | resume
  | install
  | status
  | confirm
  | ack
  | nack
  deriving DecidableEq, Repr

namespace OtaCommand

def code : OtaCommand → UInt8
  | hello => 0x01
  | query => 0x02
  | start => 0x10
  | data => 0x11
  | finish => 0x12
  | abort => 0x13
  | resume => 0x14
  | install => 0x20
  | status => 0x21
  | confirm => 0x22
  | ack => 0x70
  | nack => 0x71

/-- The command a byte stands for. -/
def ofCode (w : UInt8) : Option OtaCommand :=
  [hello, query, start, data, finish, abort, resume, install, status, confirm, ack, nack].find?
    fun c => c.code = w

@[simp] theorem ofCode_code (c : OtaCommand) : ofCode c.code = some c := by
  cases c <;> rfl

theorem code_injective {c c' : OtaCommand} (h : c.code = c'.code) : c = c' := by
  cases c <;> cases c' <;> first | rfl | exact absurd h (by decide)

theorem ofCode_eq_some {w : UInt8} {c : OtaCommand} : ofCode w = some c ↔ w = c.code := by
  constructor
  · intro h
    have hfound := List.find?_some h
    exact (of_decide_eq_true hfound).symm
  · rintro rfl
    exact ofCode_code c

end OtaCommand

/-- The statuses of an answer, numbered as in the protocol. -/
inductive OtaStatus where
  | ok
  | invalidPacket
  | invalidState
  | wrongSequence
  | wrongOffset
  | packetCrcError
  | storageError
  | imageTooLarge
  | updateIdMismatch
  | baseMismatch
  | containerError
  | signatureError
  | versionRejected
  | busy
  | retryLater
  | internalError
  deriving DecidableEq, Repr

def OtaStatus.code (status : OtaStatus) : UInt8 :=
  UInt8.ofNat status.ctorIdx

/-- The part of a packet the two ends look at. -/
structure OtaPacket where
  command : UInt8
  updateId : UInt32
  offset : UInt32
  sequence : UInt16
  payload : List UInt8
  deriving DecidableEq, Repr

/-- What the receiver reports of its session. -/
structure OtaResponseInfo where
  updateState : UpdateState
  lastStatus : OtaStatus
  activeUpdateId : UInt32
  nextExpectedOffset : UInt32
  receivedSize : UInt32
  expectedSize : UInt32
  lastErrorDetail : UInt32
  capabilityFlags : UInt32
  deriving DecidableEq, Repr

namespace OtaResponse

def putU16Le (w : UInt16) : List UInt8 := [w.toUInt8, (w >>> 8).toUInt8]

/-- The byte that stands for a state in an answer. -/
def stateByte (state : UpdateState) : UInt8 := state.code.toUInt8

def buildStatus (request : OtaPacket) (status : OtaStatus) (info : OtaResponseInfo) :
    OtaPacket where
  command := if status = .ok then OtaCommand.ack.code else OtaCommand.nack.code
  updateId := request.updateId
  offset := info.nextExpectedOffset
  sequence := request.sequence
  payload := [status.code, stateByte info.updateState] ++ putU16Le request.sequence ++
    le32 info.nextExpectedOffset ++ le32 info.receivedSize ++ le32 info.expectedSize ++
    le32 info.lastErrorDetail

def buildAck (request : OtaPacket) (info : OtaResponseInfo) : OtaPacket :=
  buildStatus request .ok info

def buildNack (request : OtaPacket) (status : OtaStatus) (info : OtaResponseInfo) : OtaPacket :=
  buildStatus request status info

/-- The answer to a query; `applicationVersion` is the version the node is compiled with. -/
def buildHelloQuery (applicationVersion : UInt32) (request : OtaPacket) (info : OtaResponseInfo) :
    OtaPacket where
  command := OtaCommand.ack.code
  updateId := request.updateId
  offset := info.nextExpectedOffset
  sequence := request.sequence
  payload := [otaProtocolVersion] ++ le32 bootloaderVersion ++ le32 applicationVersion ++
    le32 FirmwareContainer.productId ++ le32 FirmwareContainer.hardwareRevision ++
    le32 info.capabilityFlags ++ [stateByte info.updateState, info.lastStatus.code] ++
    putU16Le 0 ++ le32 info.activeUpdateId ++ le32 info.nextExpectedOffset ++
    le32 info.expectedSize

/-- Only a positive answer is an `ACK`. -/
theorem buildStatus_isAck {request : OtaPacket} {status : OtaStatus} {info : OtaResponseInfo} :
    (buildStatus request status info).command = OtaCommand.ack.code ↔ status = .ok := by
  unfold buildStatus
  by_cases h : status = .ok
  · simp [h]
  · simp only [h, if_false, iff_false]
    decide

end OtaResponse

end SecureDeltaOta
