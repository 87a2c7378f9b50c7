import SecureDeltaOta.Memory.Struct
import SecureDeltaOta.Protocol.Stuffing

/-!
# The codecs agree

The buffer limits of the codecs never decide: a packet has at most 276 bytes, its
frame 278, and no frame that is longer decodes to a packet, also none that an
encoder would not produce. What a frame means is `received`, for the parser of
the node, for the gateway and for the tools.
-/

namespace SecureDeltaOta

open Memory ByteStuffing
open CobsBuffer.Encoder (within)

/-! ## Packets -/

/-- The packet of the tools with the fields of a packet. -/
def OtaUartProtocol.Packet.ofOta (packet : OtaPacket) : OtaUartProtocol.Packet where
  command := packet.command.toNat
  updateId := packet.updateId.toNat
  offset := packet.offset.toNat
  sequence := packet.sequence.toNat
  payload := packet.payload

/-- The packet that the node accepts. -/
def Deserialized.accepted : Deserialized → Option OtaPacket
  | .ok packet => some packet.toOtaPacket
  | .badCrc _ => none
  | .failed _ => none

/-- The packet in the raw bytes. -/
def packetOf (raw : List UInt8) : OtaPacket where
  command := raw.getD 3 0
  updateId := readLe32 raw 4
  offset := readLe32 raw 8
  sequence := readLe16 raw 12
  payload := (raw.drop 16).take (readLe16 raw 14).toNat

/-- What the decoders require of the raw bytes. -/
structure PacketWellFormed (raw : List UInt8) : Prop where
  length_ge : 20 ≤ raw.length
  magic : readLe16 raw 0 = otaPacketMagic
  version : raw.getD 2 0 = otaProtocolVersion
  payload_le : (readLe16 raw 14).toNat ≤ 256
  length_eq : raw.length = 16 + (readLe16 raw 14).toNat + 4
  crc : readLe32 raw (16 + (readLe16 raw 14).toNat) =
    Crc32.calculate (raw.take (16 + (readLe16 raw 14).toNat))

theorem PacketWellFormed.length_le {raw : List UInt8} (h : PacketWellFormed raw) : raw.length ≤ 276 := by
  have hlength := h.length_eq
  have hpayload := h.payload_le
  omega

theorem packetWellFormed_iff {raw : List UInt8} {p : OtaPacket} :
    PacketWellFormed raw ∧ p = packetOf raw ↔
    20 ≤ raw.length ∧ readLe16 raw 0 = otaPacketMagic ∧ raw.getD 2 0 = otaProtocolVersion ∧
      (readLe16 raw 14).toNat ≤ 256 ∧ raw.length = 16 + (readLe16 raw 14).toNat + 4 ∧
      readLe32 raw (16 + (readLe16 raw 14).toNat) =
        Crc32.calculate (raw.take (16 + (readLe16 raw 14).toNat)) ∧ packetOf raw = p := by
  constructor
  · rintro ⟨⟨h₁, h₂, h₃, h₄, h₅, h₆⟩, rfl⟩
    exact ⟨h₁, h₂, h₃, h₄, h₅, h₆, rfl⟩
  · rintro ⟨h₁, h₂, h₃, h₄, h₅, h₆, rfl⟩
    exact ⟨⟨h₁, h₂, h₃, h₄, h₅, h₆⟩, rfl⟩

theorem WirePacket.deserialize_accepted {raw : List UInt8} {p : OtaPacket} :
    (WirePacket.deserialize raw).accepted = some p ↔ PacketWellFormed raw ∧ p = packetOf raw := by
  rw [packetWellFormed_iff]
  simp only [WirePacket.deserialize, apply_ite Deserialized.accepted]
  simp only [Deserialized.accepted, Option.ite_none_left_eq_some, not_lt, ne_eq, not_not,
    gt_iff_lt, Option.some.injEq]
  rfl

theorem UartOta.deserialize_eq_some {raw : List UInt8} {p : OtaPacket} :
    UartOta.deserialize raw = some p ↔ PacketWellFormed raw ∧ p = packetOf raw := by
  rw [packetWellFormed_iff]
  simp only [UartOta.deserialize, Option.ite_none_left_eq_some, not_lt, not_or, ne_eq, not_not,
    gt_iff_lt, Option.some.injEq, and_assoc]
  rfl

/-- The header of a packet, unpacked. -/
theorem OtaUartProtocol.unpackFrom_header {raw : List UInt8} (h : 20 ≤ raw.length) :
    Python.unpackFrom HEADER raw = some [.int (readLe16 raw 0).toNat, .int (raw.getD 2 0).toNat,
      .int (raw.getD 3 0).toNat, .int (readLe32 raw 4).toNat, .int (readLe32 raw 8).toNat,
      .int (readLe16 raw 12).toNat, .int (readLe16 raw 14).toNat] := by
  rw [← List.drop_zero (l := raw), HEADER, unpackFrom_le16 (by omega), unpackFrom_byte (by omega),
    unpackFrom_byte (by omega), unpackFrom_le32 (by omega), unpackFrom_le32 (by omega),
    unpackFrom_le16 (by omega), unpackFrom_le16 (by omega)]
  rfl

theorem OtaUartProtocol.deserializePacket_toOption {raw : List UInt8}
    {p : OtaUartProtocol.Packet} :
    (deserializePacket raw).toOption = some p ↔ PacketWellFormed raw ∧ p = .ofOta (packetOf raw) := by
  have hsize : Python.calcsize HEADER = 16 := rfl
  have hsizeCrc : Python.calcsize CRC = 4 := rfl
  by_cases hshort : raw.length < 20
  · rw [deserializePacket, if_pos (by rw [hsize, hsizeCrc]; omega)]
    refine ⟨fun h => (by cases h), fun h => ?_⟩
    have hlength := h.1.length_ge
    omega
  rw [deserializePacket, if_neg (by rw [hsize, hsizeCrc]; omega), unpackFrom_header (by omega)]
  dsimp only
  rw [hsize, hsizeCrc, Int.toNat_natCast]
  by_cases htotal : raw.length = 16 + (readLe16 raw 14).toNat + 4
  · have hcrc : Python.unpackFrom CRC (raw.drop (16 + (readLe16 raw 14).toNat)) =
        some [.int (readLe32 raw (16 + (readLe16 raw 14).toNat)).toNat] := by
      rw [CRC, unpackFrom_le32 (by omega)]
      rfl
    have hmagic : ((readLe16 raw 0).toNat : Int) = MAGIC ↔ readLe16 raw 0 = otaPacketMagic := by
      rw [← UInt16.toNat_inj]
      exact Int.ofNat_inj
    have hversion : ((raw.getD 2 0).toNat : Int) = PROTOCOL_VERSION ↔
        raw.getD 2 0 = otaProtocolVersion := by
      rw [← UInt8.toNat_inj]
      exact Int.ofNat_inj
    have hpayload : (raw.take (16 + (readLe16 raw 14).toNat)).drop 16 = (packetOf raw).payload := by
      rw [List.drop_take, Nat.add_sub_cancel_left]
      rfl
    rw [hcrc]
    dsimp only
    rw [Crc32.tool_crc32_eq, hpayload]
    simp only [apply_ite Except.toOption]
    simp only [Except.toOption, Option.ite_none_left_eq_some, ne_eq, not_not, not_lt, gt_iff_lt,
      Option.some.injEq, hmagic, hversion, Int.ofNat_inj, UInt32.toNat_inj]
    constructor
    · rintro ⟨hm, hv, hp, -, hc, rfl⟩
      exact ⟨⟨by omega, hm, hv, by exact_mod_cast hp, htotal, hc⟩, rfl⟩
    · rintro ⟨hw, rfl⟩
      exact ⟨hw.magic, hw.version, by exact_mod_cast hw.payload_le, by omega, hw.crc, rfl⟩
  · refine ⟨fun h => ?_, fun h => absurd h.1.length_eq htotal⟩
    have hint : (raw.length : Int) ≠ ((16 : Nat) : Int) + ((readLe16 raw 14).toNat : Int) + ((4 : Nat) : Int) := by omega
    rw [if_pos hint] at h
    split_ifs at h <;> cases h

/-- The bytes of a packet before its CRC. -/
def bodyOf (packet : OtaPacket) : List UInt8 :=
  le16 otaPacketMagic ++ [otaProtocolVersion, packet.command] ++ le32 packet.updateId ++
    le32 packet.offset ++ le16 packet.sequence ++ le16 (UInt16.ofNat packet.payload.length) ++
    packet.payload

/-- The raw bytes of a packet. -/
def rawOf (packet : OtaPacket) : List UInt8 :=
  bodyOf packet ++ le32 (Crc32.calculate (bodyOf packet))

theorem rawOf_length (packet : OtaPacket) : (rawOf packet).length = packet.payload.length + 20 := by
  simp only [rawOf, bodyOf, List.length_append, le16_length, le32_length, List.length_cons,
    List.length_nil]
  omega

theorem WirePacket.serialize_eq {packet : WirePacket} (hmagic : packet.magic = otaPacketMagic)
    (hversion : packet.protocolVersion = otaProtocolVersion)
    (hpayload : packet.payload.length ≤ 256) :
    packet.serialize otaPacketMaxRawSize = some (rawOf packet.toOtaPacket) := by
  have hroom : ¬ otaPacketMaxRawSize <
      otaPacketHeaderSize + packet.payload.length + otaPacketCrcSize := by
    unfold otaPacketMaxRawSize otaPacketHeaderSize otaMaxPayloadSize otaPacketCrcSize
    omega
  have hfits : ¬ packet.payload.length > otaMaxPayloadSize := not_lt.2 hpayload
  rw [WirePacket.serialize, if_neg hfits, if_neg hroom, rawOf, bodyOf, crcInput,
    hmagic, hversion]

theorem UartOta.serialize_eq {packet : OtaPacket} (hpayload : packet.payload.length ≤ 256) :
    UartOta.serialize packet maxRawPacket = some (rawOf packet) := by
  have hfits : ¬ packet.payload.length > maxPayload := not_lt.2 hpayload
  have hroom : ¬ maxRawPacket < headerSize + packet.payload.length + crcSize := by
    unfold maxRawPacket headerSize crcSize
    omega
  rw [UartOta.serialize, if_neg hfits, if_neg hroom]
  rfl

/-- A header of numbers in range is packed word by word. -/
theorem OtaUartProtocol.pack_header {length sequence : UInt16} {command : UInt8}
    {updateId offset : UInt32} {payloadLen : Int} (hlength : payloadLen = length.toNat) :
    Python.pack HEADER [.int MAGIC, .int PROTOCOL_VERSION, .int command.toNat,
      .int updateId.toNat, .int offset.toNat, .int sequence.toNat, .int payloadLen] =
      some (le16 otaPacketMagic ++ [otaProtocolVersion, command] ++ le32 updateId ++
        le32 offset ++ le16 sequence ++ le16 length) := by
  have hmagic : MAGIC = (otaPacketMagic.toNat : Int) := by decide
  have hversion : PROTOCOL_VERSION = (otaProtocolVersion.toNat : Int) := by decide
  rw [HEADER, hmagic, hversion, hlength, pack_cons_eq (packField_le16 _),
    pack_cons_eq (packField_byte _), pack_cons_eq (packField_byte _),
    pack_cons_eq (packField_le32 _), pack_cons_eq (packField_le32 _),
    pack_cons_eq (packField_le16 _), pack_cons_eq (packField_le16 _)]
  simp [Python.pack]

theorem OtaUartProtocol.pack_crc (data : List UInt8) :
    Python.pack CRC [.int (crc32 data)] = some (le32 (Crc32.calculate data)) := by
  rw [CRC, Crc32.tool_crc32_eq, pack_cons_eq (packField_le32 _)]
  simp [Python.pack]

theorem payloadLength_toNat {payload : List UInt8} (h : payload.length ≤ 256) :
    (payload.length : Int) = ((UInt16.ofNat payload.length).toNat : Int) := by
  rw [UInt16.toNat_ofNat', Nat.mod_eq_of_lt (by omega)]

theorem OtaUartProtocol.serializePacket_eq {packet : OtaPacket}
    (hpayload : packet.payload.length ≤ 256) :
    serializePacket (.ofOta packet) = .ok (rawOf packet) := by
  have hfits : ¬ (Packet.ofOta packet).payload.length > MAX_PAYLOAD := not_lt.2 hpayload
  -- the CRC item first: evaluating the packing of a CRC is out of reach of the kernel
  rw [serializePacket, if_neg hfits]
  simp only [pack_crc]
  dsimp only [Packet.ofOta]
  rw [pack_header (payloadLength_toNat hpayload), rawOf, bodyOf]

/-! ## The parser of the node -/

namespace OtaParser

theorem feed_append (parser : OtaParser) (xs ys : List UInt8) :
    parser.feed (xs ++ ys) = (((parser.feed xs).1.feed ys).1,
      (parser.feed xs).2 ++ ((parser.feed xs).1.feed ys).2) := by
  induction xs generalizing parser with
  | nil => rfl
  | cons x xs ih => simp only [List.cons_append, feed, ih]

theorem feed_overflowed {parser : OtaParser} (h : parser.overflowed = true) {bytes : List UInt8}
    (hbytes : (0 : UInt8) ∉ bytes) :
    parser.feed bytes = (parser, List.replicate bytes.length .none) := by
  induction bytes with
  | nil => rfl
  | cons b bs ih =>
      rw [List.mem_cons, not_or] at hbytes
      have hpush : parser.pushByte b = (parser, .none) := by
        rw [pushByte, if_pos (Ne.symm hbytes.1), if_pos h]
      simp only [feed, hpush, ih hbytes.2]
      rfl

/-- The bytes up to a delimiter are collected, or the parser has overflowed. -/
theorem feed_nonzero {encoded bytes : List UInt8} (hbytes : (0 : UInt8) ∉ bytes)
    (hroom : encoded.length ≤ otaMaxEncodedFrame) :
    ∃ parser : OtaParser, feed { encoded := encoded, overflowed := false } bytes =
        (parser, List.replicate bytes.length .none) ∧
      (encoded.length + bytes.length ≤ otaMaxEncodedFrame →
        parser = { encoded := encoded ++ bytes, overflowed := false }) ∧
      (otaMaxEncodedFrame < encoded.length + bytes.length → parser.overflowed = true) := by
  induction bytes generalizing encoded with
  | nil =>
      refine ⟨_, rfl, fun _ => by rw [List.append_nil], fun h => ?_⟩
      rw [List.length_nil] at h
      omega
  | cons b bs ih =>
      rw [List.mem_cons, not_or] at hbytes
      by_cases hfull : otaMaxEncodedFrame ≤ encoded.length
      · have hpush : pushByte { encoded := encoded, overflowed := false } b =
            ({ encoded := encoded, overflowed := true }, .none) := by
          rw [pushByte, if_pos (Ne.symm hbytes.1), if_neg (by simp), if_pos hfull]
        have hrest : feed { encoded := encoded, overflowed := true } bs =
            ({ encoded := encoded, overflowed := true }, List.replicate bs.length .none) :=
          feed_overflowed rfl hbytes.2
        refine ⟨{ encoded := encoded, overflowed := true }, ?_, fun h => ?_, fun _ => rfl⟩
        · simp only [feed, hpush, hrest]
          rfl
        · rw [List.length_cons] at h
          omega
      · have hpush : pushByte { encoded := encoded, overflowed := false } b =
            ({ encoded := encoded ++ [b], overflowed := false }, .none) := by
          rw [pushByte, if_pos (Ne.symm hbytes.1), if_neg (by simp), if_neg hfull]
        have hlength : (encoded ++ [b]).length + bs.length = encoded.length + (b :: bs).length := by
          simp only [List.length_append, List.length_cons, List.length_nil]
          omega
        have hnext : (encoded ++ [b]).length ≤ otaMaxEncodedFrame := by
          rw [List.length_append, List.length_singleton]
          omega
        obtain ⟨parser, hfeed, hkept, hover⟩ := ih hbytes.2 hnext
        rw [hlength] at hkept hover
        refine ⟨parser, ?_, fun h => ?_, hover⟩
        · simp only [feed, hpush, hfeed]
          rfl
        · rw [hkept h, List.append_assoc]
          rfl

/-- What a delimiter makes of the bytes before it. -/
def delimited (encoded : List UInt8) : OtaParserEvent :=
  if encoded = [] then .none
  else if encoded.length ≤ otaMaxEncodedFrame then frameEvent encoded
  else .invalidFrame

/-- A frame is reported at its delimiter, and the parser is ready for the next one. -/
theorem feed_frame {encoded : List UInt8} (h : (0 : UInt8) ∉ encoded) :
    init.feed (encoded ++ [0]) =
      (init, List.replicate encoded.length .none ++ [delimited encoded]) := by
  obtain ⟨parser, hfeed, hkept, hover⟩ := @feed_nonzero [] encoded h (Nat.zero_le _)
  have hlast : parser.pushByte 0 = (init, delimited encoded) := by
    rw [List.length_nil, Nat.zero_add] at hkept hover
    unfold delimited
    by_cases hempty : encoded = []
    · rw [hkept (by rw [hempty]; exact Nat.zero_le _), if_pos hempty, hempty]
      rfl
    · rw [if_neg hempty]
      have hpos := List.length_pos_iff.2 hempty
      by_cases hroom : encoded.length ≤ otaMaxEncodedFrame
      · rw [hkept hroom, if_pos hroom, pushByte, if_neg (by simp), if_neg (by simp [hempty]),
          if_neg (by simp)]
        rfl
      · have hflag := hover (not_le.1 hroom)
        rw [if_neg hroom, pushByte, if_neg (by simp), if_neg (by simp [hflag]), if_pos hflag]
        rfl
  rw [feed_append]
  have hinit : init.feed encoded = (parser, List.replicate encoded.length .none) := hfeed
  rw [hinit]
  simp only [feed, hlast]

end OtaParser

/-! ## What is received -/

def OtaParserEvent.accepted : OtaParserEvent → Option OtaPacket
  | .packet p => some p.toOtaPacket
  | .none => Option.none
  | .invalidFrame => Option.none
  | .packetCrcError _ => Option.none

/-- The packet in a frame, without the buffers of the decoders. -/
def received (encoded : List UInt8) : Option OtaPacket :=
  (unstuff encoded).bind UartOta.deserialize

/-- A buffer of 276 bytes loses no packet. -/
theorem bind_within (encoded : List UInt8) :
    ((unstuff encoded).bind (within 276)).bind UartOta.deserialize = received encoded := by
  rw [received, Option.bind_assoc]
  congr 1
  funext raw
  by_cases hlength : raw.length ≤ 276
  · rw [within, if_pos hlength, Option.bind_some]
  · rw [within_none (not_le.1 hlength), Option.bind_none]
    symm
    rw [Option.eq_none_iff_forall_ne_some]
    intro p hp
    exact hlength (UartOta.deserialize_eq_some.1 hp).1.length_le

/-- Nor does one of 320 encoded bytes. -/
theorem received_of_long {encoded : List UInt8} (h : otaMaxEncodedFrame < encoded.length) :
    received encoded = none := by
  rw [Option.eq_none_iff_forall_ne_some]
  intro p hp
  obtain ⟨raw, hraw, hpacket⟩ := Option.bind_eq_some_iff.1 hp
  have hframe := length_le_of_unstuff hraw
  have hlength := (UartOta.deserialize_eq_some.1 hpacket).1.length_le
  unfold otaMaxEncodedFrame at h
  unfold fullRun at hframe
  omega

theorem WirePacket.accepted_eq (raw : List UInt8) :
    (WirePacket.deserialize raw).accepted = UartOta.deserialize raw := by
  ext p
  rw [WirePacket.deserialize_accepted, UartOta.deserialize_eq_some]

theorem OtaParserEvent.accepted_eq_some {event : OtaParserEvent} {q : OtaPacket}
    (h : event.accepted = some q) : ∃ p, event = .packet p ∧ p.toOtaPacket = q := by
  cases event with
  | packet p => exact ⟨p, rfl, Option.some.inj h⟩
  | none => cases h
  | invalidFrame => cases h
  | packetCrcError p => cases h

theorem OtaParser.frameEvent_accepted (encoded : List UInt8) :
    (frameEvent encoded).accepted = received encoded := by
  have hdecode : Cobs.decode encoded otaPacketMaxRawSize = (unstuff encoded).bind (within 276) :=
    CobsBuffer.decode_eq 276 encoded
  rw [← bind_within, ← hdecode, frameEvent]
  cases Cobs.decode encoded otaPacketMaxRawSize with
  | none => rfl
  | some raw =>
      rw [Option.bind_some, ← WirePacket.accepted_eq]
      dsimp only
      cases WirePacket.deserialize raw <;> rfl

theorem OtaParser.delimited_accepted (encoded : List UInt8) :
    (delimited encoded).accepted = received encoded := by
  unfold delimited
  split_ifs with hempty hroom
  · rw [hempty]
    rfl
  · exact frameEvent_accepted encoded
  · exact (received_of_long (not_le.1 hroom)).symm

theorem UartOta.decodeFrame_eq (encoded : List UInt8) :
    UartOta.decodeFrame (encoded ++ [0]) = received encoded := by
  have hlast : (encoded ++ [0]).getD ((encoded ++ [0]).length - 1) 0 = (0 : UInt8) := by
    simp
  rw [UartOta.decodeFrame, if_neg (by simp), if_pos hlast]
  have hlength : (encoded ++ [(0 : UInt8)]).length - 1 = encoded.length := by simp
  dsimp only
  rw [hlength, List.take_left]
  by_cases hempty : encoded = []
  · rw [if_pos (by rw [hempty]; rfl), hempty]
    rfl
  · rw [if_neg (by simpa using hempty), ← bind_within]
    exact congrArg (Option.bind · UartOta.deserialize) (CobsBuffer.decode_eq 276 encoded)

theorem OtaUartProtocol.deserializePacket_eq (raw : List UInt8) :
    (deserializePacket raw).toOption = (UartOta.deserialize raw).map .ofOta := by
  ext p
  simp only [deserializePacket_toOption, Option.map_eq_some_iff, UartOta.deserialize_eq_some]
  constructor
  · rintro ⟨hw, rfl⟩
    exact ⟨_, ⟨hw, rfl⟩, rfl⟩
  · rintro ⟨_, ⟨hw, rfl⟩, rfl⟩
    exact ⟨hw, rfl⟩

theorem OtaUartProtocol.decodeFrame_eq (encoded : List UInt8) :
    (decodeFrame (encoded ++ [0])).toOption = (received encoded).map .ofOta := by
  have hstrip : (if (encoded ++ [0]).getLast? = some 0 then (encoded ++ [0]).dropLast
      else encoded ++ [0]) = encoded := by
    simp
  rw [decodeFrame, hstrip, received, ← cobsDecode_eq]
  cases cobsDecode encoded with
  | error error => rfl
  | ok raw => exact deserializePacket_eq raw

/-! ## Agreement -/

theorem frame_length_le {packet : OtaPacket} (h : packet.payload.length ≤ 256) :
    (stuff (rawOf packet)).length ≤ 278 := by
  have hframe := stuff_length_le (rawOf packet)
  rw [rawOf_length] at hframe
  unfold fullRun at hframe
  omega

theorem OtaAgent.sendPacket_eq {packet : WirePacket} (hmagic : packet.magic = otaPacketMagic)
    (hversion : packet.protocolVersion = otaProtocolVersion)
    (hpayload : packet.payload.length ≤ 256) :
    sendPacket packet = some (stuff (rawOf packet.toOtaPacket) ++ [0]) := by
  have hfits : (stuff (rawOf packet.toOtaPacket)).length ≤ otaMaxEncodedFrame :=
    (frame_length_le hpayload).trans (by decide)
  have hencode : Cobs.encode (rawOf packet.toOtaPacket) otaMaxEncodedFrame =
      some (stuff (rawOf packet.toOtaPacket)) := by
    rw [Cobs.encode, CobsBuffer.encode_eq (by decide), within, if_pos hfits]
  rw [sendPacket, WirePacket.serialize_eq hmagic hversion hpayload]
  simp only [Option.bind_eq_bind, Option.bind_some, hencode, Option.pure_def]

theorem UartOta.encodeFrame_eq {packet : OtaPacket} (hpayload : packet.payload.length ≤ 256)
    {capacity : Nat} (hcapacity : 279 ≤ capacity) :
    encodeFrame packet capacity = some (stuff (rawOf packet) ++ [0]) := by
  have hlength := frame_length_le hpayload
  have hencode : cobsEncode (rawOf packet) (capacity - 1) = some (stuff (rawOf packet)) := by
    rw [cobsEncode, CobsBuffer.encode_eq (by omega), within, if_pos (by omega)]
  rw [encodeFrame, if_neg (by omega), serialize_eq hpayload]
  simp only [Option.bind_eq_bind, Option.bind_some, hencode]
  rw [if_neg (by omega)]

theorem OtaUartProtocol.encodeFrame_eq {packet : OtaPacket}
    (hpayload : packet.payload.length ≤ 256) :
    encodeFrame (.ofOta packet) = .ok (stuff (rawOf packet) ++ [0]) := by
  have hfits : ¬ (stuff (rawOf packet)).length > MAX_ENCODED_FRAME :=
    not_lt.2 ((frame_length_le hpayload).trans (by decide))
  rw [encodeFrame, serializePacket_eq hpayload]
  dsimp only
  rw [cobsEncode_eq, if_neg hfits]

/-- The encoders produce the same frame, and the decoders accept the same frames. -/
theorem wire_codecs_agree (packet : WirePacket) (hmagic : packet.magic = otaPacketMagic)
    (hversion : packet.protocolVersion = otaProtocolVersion)
    (hpayload : packet.payload.length ≤ 256) (frame : List UInt8) (hframe : (0 : UInt8) ∉ frame) :
    (∃ body, OtaAgent.sendPacket packet = some (body ++ [0]) ∧
      (∀ capacity ≥ 279, UartOta.encodeFrame packet.toOtaPacket capacity = some (body ++ [0])) ∧
      OtaUartProtocol.encodeFrame (.ofOta packet.toOtaPacket) = .ok (body ++ [0]) ∧
      (0 : UInt8) ∉ body ∧ body.length ≤ 278) ∧
    ((∃ p, OtaParser.init.feed (frame ++ [0]) =
        (OtaParser.init, List.replicate frame.length .none ++ [.packet p]) ∧
      UartOta.decodeFrame (frame ++ [0]) = some p.toOtaPacket ∧
      OtaUartProtocol.decodeFrame (frame ++ [0]) = .ok (.ofOta p.toOtaPacket)) ∨
     ((∀ p, OtaParserEvent.packet p ∉ (OtaParser.init.feed (frame ++ [0])).2) ∧
      UartOta.decodeFrame (frame ++ [0]) = none ∧
      ∃ error, OtaUartProtocol.decodeFrame (frame ++ [0]) = .error error)) := by
  refine ⟨⟨stuff (rawOf packet.toOtaPacket), OtaAgent.sendPacket_eq hmagic hversion hpayload,
    fun capacity hcapacity => UartOta.encodeFrame_eq hpayload hcapacity,
    OtaUartProtocol.encodeFrame_eq hpayload, stuff_nonzero _, frame_length_le hpayload⟩, ?_⟩
  have hnode := OtaParser.delimited_accepted frame
  have htool := OtaUartProtocol.decodeFrame_eq frame
  rw [UartOta.decodeFrame_eq, OtaParser.feed_frame hframe]
  cases hreceived : received frame with
  | some q =>
      left
      rw [hreceived] at hnode htool
      obtain ⟨p, hevent, rfl⟩ := OtaParserEvent.accepted_eq_some hnode
      refine ⟨p, by rw [hevent], rfl, ?_⟩
      cases hdecoded : OtaUartProtocol.decodeFrame (frame ++ [0]) with
      | ok p' =>
          rw [hdecoded] at htool
          exact congrArg Except.ok (Option.some.inj htool)
      | error error =>
          rw [hdecoded] at htool
          cases htool
  | none =>
      right
      rw [hreceived] at hnode htool
      refine ⟨fun p hp => ?_, rfl, ?_⟩
      · rw [List.mem_append, List.mem_replicate, List.mem_singleton] at hp
        rcases hp with ⟨-, hnone⟩ | hevent
        · cases hnone
        · rw [← hevent] at hnode
          cases hnode
      · cases hdecoded : OtaUartProtocol.decodeFrame (frame ++ [0]) with
        | ok p' =>
            rw [hdecoded] at htool
            cases htool
        | error error => exact ⟨error, rfl⟩

/-- A query of update 7. -/
def sampleQuery : WirePacket where
  command := OtaCommand.query.code
  updateId := 7
  offset := 0
  sequence := 3
  payload := []
  magic := otaPacketMagic
  protocolVersion := otaProtocolVersion
  packetCrc32 := 0

theorem wire_codecs_agree_query :
    sampleQuery.payload.length ≤ 256 ∧ (0 : UInt8) ∉ [(2 : UInt8), 17] ∧
      ∃ body, OtaAgent.sendPacket sampleQuery = some (body ++ [0]) ∧ body.length ≤ 278 := by
  have hagree := wire_codecs_agree sampleQuery rfl rfl (by decide) [2, 17] (by decide)
  obtain ⟨body, hnode, -, -, -, hlength⟩ := hagree.1
  exact ⟨by decide, by decide, body, hnode, hlength⟩

/-! ## Round trip -/

/-- The fields of a header, whatever follows it. -/
theorem packetOf_header (magic sequence length : UInt16) (version command : UInt8)
    (updateId offset : UInt32) (rest : List UInt8) :
    let raw := le16 magic ++ [version, command] ++ le32 updateId ++ le32 offset ++
      le16 sequence ++ le16 length ++ rest
    readLe16 raw 0 = magic ∧ raw.getD 2 0 = version ∧ raw.getD 3 0 = command ∧
      readLe32 raw 4 = updateId ∧ readLe32 raw 8 = offset ∧ readLe16 raw 12 = sequence ∧
      readLe16 raw 14 = length ∧ raw.drop 16 = rest :=
  ⟨ofLe16_bytes magic, rfl, rfl, ofLe32_bytes updateId, ofLe32_bytes offset,
    ofLe16_bytes sequence, ofLe16_bytes length, rfl⟩

theorem bodyOf_length (packet : OtaPacket) :
    (bodyOf packet).length = 16 + packet.payload.length := by
  simp only [bodyOf, List.length_append, le16_length, le32_length, List.length_cons,
    List.length_nil]

theorem wellFormed_rawOf {packet : OtaPacket} (h : packet.payload.length ≤ 256) :
    PacketWellFormed (rawOf packet) ∧ packet = packetOf (rawOf packet) := by
  have hlength : (UInt16.ofNat packet.payload.length).toNat = packet.payload.length := by
    exact_mod_cast (payloadLength_toNat h).symm
  have hbody := bodyOf_length packet
  have hraw : rawOf packet = le16 otaPacketMagic ++ [otaProtocolVersion, packet.command] ++
      le32 packet.updateId ++ le32 packet.offset ++ le16 packet.sequence ++
      le16 (UInt16.ofNat packet.payload.length) ++
      (packet.payload ++ le32 (Crc32.calculate (bodyOf packet))) := by
    rw [← List.append_assoc]
    rfl
  have hheader := packetOf_header otaPacketMagic packet.sequence
    (UInt16.ofNat packet.payload.length) otaProtocolVersion packet.command packet.updateId
    packet.offset (packet.payload ++ le32 (Crc32.calculate (bodyOf packet)))
  dsimp only at hheader
  rw [← hraw] at hheader
  obtain ⟨hmagic, hversion, hcommand, hid, hoffset, hsequence, hpayload, hrest⟩ := hheader
  refine ⟨⟨?_, hmagic, hversion, ?_, ?_, ?_⟩, ?_⟩
  · rw [rawOf_length]
    omega
  · rw [hpayload, hlength]
    exact h
  · rw [hpayload, hlength, rawOf_length]
    omega
  · rw [hpayload, hlength, ← hbody, rawOf, readLe32_append_right le_rfl, Nat.sub_self,
      readLe32_le32, List.take_left]
  · rw [packetOf, hcommand, hid, hoffset, hsequence, hrest, hpayload, hlength, List.take_left]

end SecureDeltaOta
