import SecureDeltaOta.Protocol.CodecAgreement

/-!
# The parser resynchronises

A delimiter brings the parser of the node back to its initial state from every
state it can be in.  What follows the delimiter is then parsed as if nothing had
been received before: one event for each frame, with the packet that was sent.
-/

namespace SecureDeltaOta

open Memory ByteStuffing
open CobsBuffer.Encoder (within)

/-! ## One packet -/

namespace WirePacket

/-- The packet with the CRC field the receiver finds in it. -/
def sealed (packet : WirePacket) : WirePacket :=
  { packet with packetCrc32 := Crc32.calculate packet.crcInput }

theorem deserialize_of_wellFormed {raw : List UInt8} (h : PacketWellFormed raw) :
    deserialize raw = .ok
      { toOtaPacket := packetOf raw
        magic := otaPacketMagic
        protocolVersion := otaProtocolVersion
        packetCrc32 := Crc32.calculate (raw.take (16 + (readLe16 raw 14).toNat)) } := by
  obtain ⟨hlength, hmagic, hversion, hpayload, hsize, hcrc⟩ := h
  unfold deserialize otaPacketMinRawSize otaPacketHeaderSize otaPacketCrcSize otaMaxPayloadSize
  dsimp only
  rw [if_neg (not_lt.2 hlength), if_neg (not_not.2 hmagic), if_neg (not_not.2 hversion),
    if_neg (not_lt.2 hpayload), if_neg (not_not.2 hsize), if_neg (not_not.2 hcrc), hmagic,
    hversion, hcrc]
  rfl

theorem crcInput_eq {packet : WirePacket} (hmagic : packet.magic = otaPacketMagic)
    (hversion : packet.protocolVersion = otaProtocolVersion) :
    packet.crcInput = bodyOf packet.toOtaPacket := by
  rw [crcInput, hmagic, hversion, bodyOf]

/-- Deserialising what was serialised gives the packet back. -/
theorem deserialize_rawOf {packet : WirePacket} (hmagic : packet.magic = otaPacketMagic)
    (hversion : packet.protocolVersion = otaProtocolVersion)
    (hpayload : packet.payload.length ≤ 256) :
    deserialize (rawOf packet.toOtaPacket) = .ok packet.sealed := by
  obtain ⟨hformed, hpacket⟩ := wellFormed_rawOf hpayload
  have hsize := hformed.length_eq
  rw [rawOf_length] at hsize
  have hbody : (rawOf packet.toOtaPacket).take
      (16 + (readLe16 (rawOf packet.toOtaPacket) 14).toNat) = bodyOf packet.toOtaPacket := by
    have hlength : 16 + (readLe16 (rawOf packet.toOtaPacket) 14).toNat =
        (bodyOf packet.toOtaPacket).length := by
      rw [bodyOf_length]
      omega
    rw [hlength]
    exact List.take_left
  rw [deserialize_of_wellFormed hformed, hbody, ← hpacket, sealed, crcInput_eq hmagic hversion]
  cases packet
  subst hmagic hversion
  rfl

end WirePacket

/-- A packet of this protocol, small enough to be sent. -/
structure WirePacket.Sendable (packet : WirePacket) : Prop where
  magic : packet.magic = otaPacketMagic
  version : packet.protocolVersion = otaProtocolVersion
  payload : packet.payload.length ≤ 256

/-! ## One frame -/

namespace OtaParser

/-- The events while a frame is received: nothing until its delimiter, then the packet. -/
def frameEvents (frame : List UInt8) (packet : WirePacket) : List OtaParserEvent :=
  List.replicate (frame.length - 1) .none ++ [.packet packet.sealed]

theorem frameEvents_heard (frame : List UInt8) (packet : WirePacket) :
    (frameEvents frame packet).filter (· ≠ .none) = [.packet packet.sealed] := by
  simp [frameEvents]

theorem feed_sent {packet : WirePacket} (h : packet.Sendable) {frame : List UInt8}
    (hframe : OtaAgent.sendPacket packet = some frame) :
    init.feed frame = (init, frameEvents frame packet) := by
  obtain ⟨hmagic, hversion, hpayload⟩ := h
  rw [OtaAgent.sendPacket_eq hmagic hversion hpayload] at hframe
  cases hframe
  have hnonempty : stuff (rawOf packet.toOtaPacket) ≠ [] := stuffRun_ne_nil [] _
  have hlength := frame_length_le hpayload
  have hraw := rawOf_length packet.toOtaPacket
  have hdecode : Cobs.decode (stuff (rawOf packet.toOtaPacket)) otaPacketMaxRawSize =
      some (rawOf packet.toOtaPacket) := by
    have hfits : (rawOf packet.toOtaPacket).length ≤ 276 := by omega
    rw [Cobs.decode, CobsBuffer.decode_eq, unstuff_stuff, Option.bind_some, within]
    exact if_pos hfits
  have hevent : delimited (stuff (rawOf packet.toOtaPacket)) = .packet packet.sealed := by
    rw [delimited, if_neg hnonempty, if_pos (hlength.trans (by decide)), frameEvent, hdecode]
    dsimp only
    rw [WirePacket.deserialize_rawOf hmagic hversion hpayload]
  rw [feed_frame (stuff_nonzero _), hevent, frameEvents, List.length_append,
    List.length_singleton, Nat.add_sub_cancel]

/-! ## Any stream -/

theorem pushByte_zero (parser : OtaParser) : (parser.pushByte 0).1 = init := by
  obtain ⟨encoded, overflowed⟩ := parser
  cases encoded <;> cases overflowed <;> rfl

theorem feed_length (parser : OtaParser) (bytes : List UInt8) :
    (parser.feed bytes).2.length = bytes.length := by
  induction bytes generalizing parser with
  | nil => rfl
  | cons byte bytes ih => simp only [feed, List.length_cons, ih]

/-- After a delimiter the parser is as it was at the start. -/
theorem feed_delimiter (parser : OtaParser) (garbage : List UInt8) :
    (parser.feed (garbage ++ [0])).1 = init := by
  rw [feed_append]
  exact pushByte_zero _

/-- The frames of a list of packets, one after the other. -/
theorem feed_frames {packets : List WirePacket} (h : ∀ packet ∈ packets, packet.Sendable)
    {frames : List (List UInt8)} (hframes : packets.map OtaAgent.sendPacket = frames.map some) :
    init.feed frames.flatten = (init, (List.zipWith frameEvents frames packets).flatten) := by
  induction packets generalizing frames with
  | nil =>
      cases frames with
      | nil => rfl
      | cons frame frames => cases hframes
  | cons packet packets ih =>
      cases frames with
      | nil => cases hframes
      | cons frame frames =>
          simp only [List.map_cons, List.cons.injEq] at hframes
          have hfirst := feed_sent (h packet List.mem_cons_self) hframes.1
          have hrest := ih (fun p hp => h p (List.mem_cons_of_mem packet hp)) hframes.2
          rw [List.flatten_cons, feed_append, hfirst, hrest, List.zipWith_cons_cons,
            List.flatten_cons]

theorem frames_heard {packets : List WirePacket} {frames : List (List UInt8)}
    (h : packets.length = frames.length) :
    ((List.zipWith frameEvents frames packets).flatten).filter (· ≠ .none) =
      packets.map fun packet => .packet packet.sealed := by
  induction packets generalizing frames with
  | nil => simp
  | cons packet packets ih =>
      cases frames with
      | nil => cases h
      | cons frame frames =>
          simp only [List.length_cons, Nat.add_right_cancel_iff] at h
          rw [List.zipWith_cons_cons, List.flatten_cons, List.filter_append, frameEvents_heard,
            ih h]
          rfl

/-- The index into the buffer of encoded bytes. -/
theorem pushByte_bounded {parser : OtaParser} (h : parser.encoded.length ≤ otaMaxEncodedFrame)
    (byte : UInt8) : (parser.pushByte byte).1.encoded.length ≤ otaMaxEncodedFrame := by
  by_cases hzero : byte = 0
  · rw [hzero, pushByte_zero]
    exact Nat.zero_le _
  · rw [pushByte, if_pos hzero]
    by_cases hover : parser.overflowed = true
    · rwa [if_pos hover]
    · rw [if_neg hover]
      by_cases hfull : otaMaxEncodedFrame ≤ parser.encoded.length
      · rwa [if_pos hfull]
      · rw [if_neg hfull]
        simp only [List.length_append, List.length_singleton]
        omega

theorem feed_bounded {parser : OtaParser} (h : parser.encoded.length ≤ otaMaxEncodedFrame)
    (bytes : List UInt8) : (parser.feed bytes).1.encoded.length ≤ otaMaxEncodedFrame := by
  induction bytes generalizing parser with
  | nil => exact h
  | cons byte bytes ih => exact ih (pushByte_bounded h byte)

end OtaParser

/--
From every state the parser can reach, garbage of any length, a delimiter and the frames of some
packets: after the delimiter there is one packet event for each frame, at its own delimiter, with
the packet that was sent, and nothing else.  The index never passes the end of the buffer.
-/
theorem parser_resynchronises (received garbage : List UInt8) (packets : List WirePacket)
    (h : ∀ packet ∈ packets, packet.magic = otaPacketMagic ∧
      packet.protocolVersion = otaProtocolVersion ∧ packet.payload.length ≤ 256) :
    ∃ frames : List (List UInt8),
      packets.map OtaAgent.sendPacket = frames.map some ∧
      (let parser := (OtaParser.init.feed received).1
        let events := (parser.feed (garbage ++ [0] ++ frames.flatten)).2
        events.drop (garbage.length + 1) =
            (List.zipWith OtaParser.frameEvents frames packets).flatten ∧
          (events.drop (garbage.length + 1)).filter (· ≠ .none) =
            packets.map fun packet => .packet packet.sealed) ∧
      ∀ bytes, (OtaParser.init.feed bytes).1.encoded.length ≤ 320 := by
  have hsendable (packet : WirePacket) (hp : packet ∈ packets) : packet.Sendable :=
    ⟨(h packet hp).1, (h packet hp).2.1, (h packet hp).2.2⟩
  have hframes : packets.map OtaAgent.sendPacket =
      (packets.map fun packet => stuff (rawOf packet.toOtaPacket) ++ [0]).map some := by
    rw [List.map_map]
    refine List.map_congr_left fun packet hp => ?_
    exact OtaAgent.sendPacket_eq (h packet hp).1 (h packet hp).2.1 (h packet hp).2.2
  refine ⟨_, hframes, ?_, fun bytes => OtaParser.feed_bounded (Nat.zero_le _) bytes⟩
  generalize hall : (packets.map fun packet => stuff (rawOf packet.toOtaPacket) ++ [0]) = frames
    at hframes
  intro parser events
  have hevents : events.drop (garbage.length + 1) =
      (List.zipWith OtaParser.frameEvents frames packets).flatten := by
    have hlength : (parser.feed (garbage ++ [0])).2.length = garbage.length + 1 := by
      rw [OtaParser.feed_length, List.length_append, List.length_singleton]
    simp only [events]
    rw [OtaParser.feed_append, OtaParser.feed_delimiter, OtaParser.feed_frames hsendable hframes,
      List.drop_left' hlength]
  refine ⟨hevents, ?_⟩
  rw [hevents, OtaParser.frames_heard (by rw [← hall, List.length_map])]

/-- Nine bytes of garbage with a delimiter among them, then a query. -/
theorem parser_resynchronises_query :
    ∃ frame, OtaAgent.sendPacket sampleQuery = some frame ∧
      (((OtaParser.init.feed [7, 7]).1.feed
        ([1, 2, 3, 0, 5, 6, 7, 8, 9] ++ [0] ++ frame)).2.drop 10).filter (· ≠ .none) =
        [.packet sampleQuery.sealed] := by
  obtain ⟨frames, hframes, ⟨-, hheard⟩, -⟩ :=
    parser_resynchronises [7, 7] [1, 2, 3, 0, 5, 6, 7, 8, 9] [sampleQuery]
      (by intro packet hp; rw [List.mem_singleton] at hp; subst hp; decide)
  cases frames with
  | nil => cases hframes
  | cons frame frames =>
      cases frames with
      | nil =>
          rw [List.flatten_cons, List.flatten_nil, List.append_nil] at hheard
          exact ⟨frame, (List.cons.inj hframes).1, hheard⟩
      | cons frame' frames => cases (List.cons.inj hframes).2

end SecureDeltaOta
