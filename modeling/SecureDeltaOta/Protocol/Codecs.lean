import SecureDeltaOta.App.OtaPacket
import SecureDeltaOta.Shared.Digest
import SecureDeltaOta.Standard.Python

/-!
# The three codecs of the wire protocol

A packet is a header of 16 bytes, a payload and a CRC; on the wire it is stuffed
and followed by a zero byte. There are three programs for this: `cobs.c`,
`ota_packet.c` and `ota_parser.c` of the node, `uart_ota_protocol.c` of the
gateway and `ota_uart_protocol.py` of the tools.

A buffer that is filled from its start is the list of the bytes in it, so its
write index is the length of the list. A slot that is reserved for a code holds
zero until the code is stored.
-/

namespace SecureDeltaOta

open Memory

def otaPacketMagic : UInt16 := 0xA55A
def otaPacketHeaderSize : Nat := 16
def otaPacketCrcSize : Nat := 4
def otaPacketMinRawSize : Nat := otaPacketHeaderSize + otaPacketCrcSize
def otaPacketMaxRawSize : Nat := otaPacketHeaderSize + otaMaxPayloadSize + otaPacketCrcSize
def otaMaxEncodedFrame : Nat := 320

/-! ## Byte stuffing in C

The node and the gateway have the same two loops, over `uint32_t` and `size_t`.
-/

namespace CobsBuffer

/-- The local variables of the encoder; the output is written up to the write index. -/
structure Encoder where
  output : List UInt8
  codeIndex : Nat
  code : UInt8
  deriving DecidableEq, Repr

namespace Encoder

def start : Encoder where
  output := [0]
  codeIndex := 0
  code := 1

/-- The output with the pending code in its slot. -/
def store (e : Encoder) : List UInt8 := e.output.set e.codeIndex e.code

/-- Store the code and reserve a slot for the next one. -/
def nextCode (capacity : Nat) (e : Encoder) : Option Encoder :=
  if capacity ≤ e.store.length then none
  else some { output := e.store ++ [0], codeIndex := e.store.length, code := 1 }

/-- The body of the loop. -/
def push (capacity : Nat) (e : Encoder) (byte : UInt8) : Option Encoder :=
  if byte = 0 then e.nextCode capacity
  else if capacity ≤ e.output.length then none
  else
    let e := { e with output := e.output ++ [byte], code := e.code + 1 }
    if e.code = 0xFF then e.nextCode capacity else some e

end Encoder

def encode (capacity : Nat) (input : List UInt8) : Option (List UInt8) :=
  if capacity = 0 then none
  else (input.foldlM (Encoder.push capacity) Encoder.start).map Encoder.store

/-- Every turn of the loop reads a code, so `fuel` above the input length is enough. -/
def decodeLoop (input : List UInt8) (capacity : Nat) : Nat → Nat → List UInt8 →
    Option (List UInt8)
  | 0, _, _ => none
  | fuel + 1, readIndex, output =>
      if input.length ≤ readIndex then some output
      else
        let code := input.getD readIndex 0
        let readIndex := readIndex + 1
        let count := code.toNat - 1
        if code = 0 then none
        else if count > input.length - readIndex then none
        else if count > capacity - output.length then none
        else
          let output := output ++ (input.drop readIndex).take count
          let readIndex := readIndex + count
          if code ≠ 0xFF ∧ readIndex < input.length then
            if capacity ≤ output.length then none
            else decodeLoop input capacity fuel readIndex (output ++ [0])
          else decodeLoop input capacity fuel readIndex output

def decode (capacity : Nat) (input : List UInt8) : Option (List UInt8) :=
  if input.length = 0 then none else decodeLoop input capacity (input.length + 1) 0 []

end CobsBuffer

/-! ## The node -/

namespace Cobs

def encode (input : List UInt8) (outputCapacity : Nat) : Option (List UInt8) :=
  CobsBuffer.encode outputCapacity input

def decode (input : List UInt8) (outputCapacity : Nat) : Option (List UInt8) :=
  CobsBuffer.decode outputCapacity input

end Cobs

/-- `OtaPacket_t` with all of its fields; `payload_length` is the length of the payload. -/
structure WirePacket extends OtaPacket where
  magic : UInt16
  protocolVersion : UInt8
  packetCrc32 : UInt32
  deriving DecidableEq, Repr

inductive OtaPacketStatus where
  | tooShort
  | badMagic
  | badVersion
  | badLength
  deriving DecidableEq, Repr

/-- The status of `OtaPacket_Deserialize`, with the packet where the caller looks at it. -/
inductive Deserialized where
  | ok (packet : WirePacket)
  | badCrc (packet : WirePacket)
  | failed (status : OtaPacketStatus)
  deriving DecidableEq, Repr

namespace WirePacket

/-- The bytes the packet CRC covers. -/
def crcInput (packet : WirePacket) : List UInt8 :=
  le16 packet.magic ++ [packet.protocolVersion, packet.command] ++ le32 packet.updateId ++
    le32 packet.offset ++ le16 packet.sequence ++ le16 (UInt16.ofNat packet.payload.length) ++
    packet.payload

/-- `OtaPacket_Serialize`. -/
def serialize (packet : WirePacket) (rawCapacity : Nat) : Option (List UInt8) :=
  if packet.payload.length > otaMaxPayloadSize then none
  else if rawCapacity < otaPacketHeaderSize + packet.payload.length + otaPacketCrcSize then none
  else some (packet.crcInput ++ le32 (Crc32.calculate packet.crcInput))

/-- `OtaPacket_Deserialize`. -/
def deserialize (raw : List UInt8) : Deserialized :=
  if raw.length < otaPacketMinRawSize then .failed .tooShort
  else
    let payloadLength := (readLe16 raw 14).toNat
    let packet : WirePacket :=
      { magic := readLe16 raw 0
        protocolVersion := raw.getD 2 0
        command := raw.getD 3 0
        updateId := readLe32 raw 4
        offset := readLe32 raw 8
        sequence := readLe16 raw 12
        payload := (raw.drop otaPacketHeaderSize).take payloadLength
        packetCrc32 := readLe32 raw (otaPacketHeaderSize + payloadLength) }
    if packet.magic ≠ otaPacketMagic then .failed .badMagic
    else if packet.protocolVersion ≠ otaProtocolVersion then .failed .badVersion
    else if payloadLength > otaMaxPayloadSize then .failed .badLength
    else if raw.length ≠ otaPacketHeaderSize + payloadLength + otaPacketCrcSize then
      .failed .badLength
    else
      let computedCrc := Crc32.calculate (raw.take (otaPacketHeaderSize + payloadLength))
      if packet.packetCrc32 ≠ computedCrc then .badCrc packet else .ok packet

end WirePacket

namespace OtaAgent

/-- The bytes `SendPacket` hands to the UART. -/
def sendPacket (packet : WirePacket) : Option (List UInt8) := do
  let raw ← packet.serialize otaPacketMaxRawSize
  let encoded ← Cobs.encode raw otaMaxEncodedFrame
  return encoded ++ [0]

end OtaAgent

/-- The encoded bytes since the last delimiter. -/
structure OtaParser where
  encoded : List UInt8
  overflowed : Bool
  deriving DecidableEq, Repr

inductive OtaParserEvent where
  | none
  | packet (packet : WirePacket)
  | invalidFrame
  | packetCrcError (packet : WirePacket)
  deriving DecidableEq, Repr

namespace OtaParser

def reset : OtaParser where
  encoded := []
  overflowed := false

def init : OtaParser := reset

/-- What the parser reports of the bytes before a delimiter. -/
def frameEvent (encoded : List UInt8) : OtaParserEvent :=
  match Cobs.decode encoded otaPacketMaxRawSize with
  | Option.none => .invalidFrame
  | some raw =>
      match WirePacket.deserialize raw with
      | .ok packet => .packet packet
      | .badCrc packet => .packetCrcError packet
      | .failed _ => .invalidFrame

def pushByte (parser : OtaParser) (byte : UInt8) : OtaParser × OtaParserEvent :=
  if byte ≠ 0 then
    if parser.overflowed then (parser, .none)
    else if otaMaxEncodedFrame ≤ parser.encoded.length then
      ({ parser with overflowed := true }, .none)
    else ({ parser with encoded := parser.encoded ++ [byte] }, .none)
  else if parser.encoded.length = 0 ∧ parser.overflowed = false then (parser, .none)
  else if parser.overflowed then (reset, .invalidFrame)
  else (reset, frameEvent parser.encoded)

/-- The read loop of `OtaAgent_Process`: the parser after some bytes, and its events. -/
def feed : OtaParser → List UInt8 → OtaParser × List OtaParserEvent
  | parser, [] => (parser, [])
  | parser, byte :: bytes =>
      let (parser, event) := parser.pushByte byte
      let (parser, events) := parser.feed bytes
      (parser, event :: events)

end OtaParser

/-! ## The gateway -/

namespace UartOta

def magic : UInt16 := 0xA55A
def protocolVersion : UInt8 := 1
def maxPayload : Nat := 256
def headerSize : Nat := 16
def crcSize : Nat := 4
def maxRawPacket : Nat := 276
def maxEncodedFrame : Nat := 320

/-- The inner loop of `UartOta_Crc32`, for one byte. -/
def crcByte (crc : UInt32) (byte : UInt8) : UInt32 :=
  Nat.repeat (fun crc : UInt32 =>
    let mask := 0 - (crc &&& 1)
    (crc >>> 1) ^^^ (0xEDB88320 &&& mask)) 8 (crc ^^^ byte.toUInt32)

/-- `UartOta_Crc32`: the initial value and the final complement are inside. -/
def crc32 (data : List UInt8) : UInt32 :=
  data.foldl crcByte 0xFFFFFFFF ^^^ 0xFFFFFFFF

def cobsEncode (input : List UInt8) (outputCapacity : Nat) : Option (List UInt8) :=
  CobsBuffer.encode outputCapacity input

def cobsDecode (input : List UInt8) (outputCapacity : Nat) : Option (List UInt8) :=
  CobsBuffer.decode outputCapacity input

/-- `UartOtaPacket_t` has no magic and no version; they are constants of the codec. -/
def serialize (packet : OtaPacket) (rawCapacity : Nat) : Option (List UInt8) :=
  if packet.payload.length > maxPayload then none
  else if rawCapacity < headerSize + packet.payload.length + crcSize then none
  else
    let body := le16 magic ++ [protocolVersion, packet.command] ++ le32 packet.updateId ++
      le32 packet.offset ++ le16 packet.sequence ++
      le16 (UInt16.ofNat packet.payload.length) ++ packet.payload
    some (body ++ le32 (crc32 body))

def deserialize (raw : List UInt8) : Option OtaPacket :=
  if raw.length < headerSize + crcSize then none
  else if readLe16 raw 0 ≠ magic ∨ raw.getD 2 0 ≠ protocolVersion then none
  else
    let payloadLength := (readLe16 raw 14).toNat
    if payloadLength > maxPayload then none
    else if raw.length ≠ headerSize + payloadLength + crcSize then none
    else
      let storedCrc := readLe32 raw (headerSize + payloadLength)
      let computedCrc := crc32 (raw.take (headerSize + payloadLength))
      if storedCrc ≠ computedCrc then none
      else
        some
          { command := raw.getD 3 0
            updateId := readLe32 raw 4
            offset := readLe32 raw 8
            sequence := readLe16 raw 12
            payload := (raw.drop headerSize).take payloadLength }

def encodeFrame (packet : OtaPacket) (frameCapacity : Nat) : Option (List UInt8) :=
  if frameCapacity < 2 then none
  else do
    let raw ← serialize packet maxRawPacket
    let encoded ← cobsEncode raw (frameCapacity - 1)
    if encoded.length ≥ frameCapacity then none else some (encoded ++ [0])

def decodeFrame (frame : List UInt8) : Option OtaPacket :=
  if frame.length = 0 then none
  else
    let frameLength := if frame.getD (frame.length - 1) 0 = 0 then frame.length - 1
      else frame.length
    if frameLength = 0 then none
    else do
      let raw ← cobsDecode (frame.take frameLength) maxRawPacket
      deserialize raw

end UartOta

/-! ## The tools -/

namespace OtaUartProtocol

open Python (Value pack unpackFrom calcsize)
open Python.Field (B H I)

def MAGIC : Int := 0xA55A
def PROTOCOL_VERSION : Int := 1
def MAX_PAYLOAD : Nat := 256
def MAX_ENCODED_FRAME : Nat := 320

def HEADER : List Python.Field := [H, B, B, I, I, H, H]
def CRC : List Python.Field := [I]

/-- `ProtocolError`, one constructor for each place that raises it. -/
inductive ProtocolError where
  | emptyCobsFrame
  | zeroCobsCode
  | truncatedCobsFrame
  | payloadTooLarge
  | packetTooShort
  | badMagic (magic : Int)
  | badVersion (version : Int)
  | payloadLengthTooLarge
  | packetLengthMismatch
  | crcMismatch (stored computed : Int)
  | encodedFrameTooLarge
  deriving DecidableEq, Repr

def ProtocolError.message : ProtocolError → String
  | emptyCobsFrame => "empty COBS frame"
  | zeroCobsCode => "zero COBS code"
  | truncatedCobsFrame => "truncated COBS frame"
  | payloadTooLarge => "payload too large"
  | packetTooShort => "packet too short"
  | badMagic magic => "bad magic 0x" ++ Python.hexUpper 4 magic
  | badVersion version => "bad version " ++ toString version
  | payloadLengthTooLarge => "payload length too large"
  | packetLengthMismatch => "packet length mismatch"
  | crcMismatch stored computed =>
      "CRC mismatch stored=0x" ++ Python.hexUpper 8 stored ++ " computed=0x" ++
        Python.hexUpper 8 computed
  | encodedFrameTooLarge => "encoded frame too large"

/-- What the codec raises: its own errors, and `struct.error` of a number out of range. -/
inductive Error where
  | protocol (error : ProtocolError)
  | struct
  deriving DecidableEq, Repr

structure Packet where
  command : Int
  updateId : Int
  offset : Int
  sequence : Int
  payload : List UInt8
  deriving DecidableEq, Repr

def crc32 (data : List UInt8) : Nat :=
  (Python.crc32 data).toNat &&& 0xFFFFFFFF

/-- The variables of `cobs_encode`; the code is at most `0xFF` when it is stored. -/
structure Encoder where
  out : List UInt8
  codeIndex : Nat
  code : Nat
  deriving DecidableEq, Repr

namespace Encoder

def store (e : Encoder) : List UInt8 := e.out.set e.codeIndex (UInt8.ofNat e.code)

def nextCode (e : Encoder) : Encoder where
  out := e.store ++ [0]
  codeIndex := e.out.length
  code := 1

def push (e : Encoder) (byte : UInt8) : Encoder :=
  if byte = 0 then e.nextCode
  else
    let e := { e with out := e.out ++ [byte], code := e.code + 1 }
    if e.code = 0xFF then e.nextCode else e

end Encoder

def cobsEncode (data : List UInt8) : List UInt8 :=
  (data.foldl Encoder.push { out := [0], codeIndex := 0, code := 1 }).store

/-- Every turn of the loop reads a code, so the fuel does not run out. -/
def cobsDecodeLoop (data : List UInt8) : Nat → Nat → List UInt8 →
    Except Error (List UInt8)
  | 0, _, _ => .error (.protocol .truncatedCobsFrame)
  | fuel + 1, index, out =>
      if data.length ≤ index then .ok out
      else
        let code := (data.getD index 0).toNat
        if code = 0 then .error (.protocol .zeroCobsCode)
        else
          let index := index + 1
          let stop := index + code - 1
          if stop > data.length then .error (.protocol .truncatedCobsFrame)
          else
            let out := out ++ (data.take stop).drop index
            if code ≠ 0xFF ∧ stop < data.length then
              cobsDecodeLoop data fuel stop (out ++ [0])
            else cobsDecodeLoop data fuel stop out

def cobsDecode (data : List UInt8) : Except Error (List UInt8) :=
  if data = [] then .error (.protocol .emptyCobsFrame)
  else cobsDecodeLoop data (data.length + 1) 0 []

def serializePacket (packet : Packet) : Except Error (List UInt8) :=
  if packet.payload.length > MAX_PAYLOAD then .error (.protocol .payloadTooLarge)
  else
    match pack HEADER [.int MAGIC, .int PROTOCOL_VERSION, .int packet.command,
        .int packet.updateId, .int packet.offset, .int packet.sequence,
        .int packet.payload.length] with
    | none => .error .struct
    | some header =>
        let raw := header ++ packet.payload
        match pack CRC [.int (crc32 raw)] with
        | none => .error .struct
        | some crc => .ok (raw ++ crc)

def deserializePacket (raw : List UInt8) : Except Error Packet :=
  if raw.length < calcsize HEADER + calcsize CRC then .error (.protocol .packetTooShort)
  else
    match unpackFrom HEADER raw with
    | some [.int magic, .int version, .int command, .int updateId, .int offset, .int sequence,
        .int payloadLen] =>
        if magic ≠ MAGIC then .error (.protocol (.badMagic magic))
        else if version ≠ PROTOCOL_VERSION then .error (.protocol (.badVersion version))
        else if payloadLen > MAX_PAYLOAD then .error (.protocol .payloadLengthTooLarge)
        else if (raw.length : Int) ≠ calcsize HEADER + payloadLen + calcsize CRC then
          .error (.protocol .packetLengthMismatch)
        else
          let stop := calcsize HEADER + payloadLen.toNat
          let payload := (raw.take stop).drop (calcsize HEADER)
          match unpackFrom CRC (raw.drop stop) with
          | some [.int stored] =>
              let computed := crc32 (raw.take stop)
              if stored ≠ computed then .error (.protocol (.crcMismatch stored computed))
              else
                .ok
                  { command := command
                    updateId := updateId
                    offset := offset
                    sequence := sequence
                    payload := payload }
          | _ => .error .struct
    | _ => .error .struct

def encodeFrame (packet : Packet) : Except Error (List UInt8) :=
  match serializePacket packet with
  | .error error => .error error
  | .ok raw =>
      let encoded := cobsEncode raw
      if encoded.length > MAX_ENCODED_FRAME then .error (.protocol .encodedFrameTooLarge)
      else .ok (encoded ++ [0])

def decodeFrame (frame : List UInt8) : Except Error Packet :=
  let frame := if frame.getLast? = some 0 then frame.dropLast else frame
  match cobsDecode frame with
  | .error error => .error error
  | .ok raw => deserializePacket raw

end OtaUartProtocol

end SecureDeltaOta
