import SecureDeltaOta.Boot.PowerLoss

/-!
# Runs on a small release

When container and image fit into one buffer each, the number of flash operations
of a boot is known, and with it the operation that a given outcome of the
environment strikes.
-/

namespace SecureDeltaOta

open Memory Crash MetadataStorage

/-! ## Answers of the external flash -/

section Answers

variable {d : Device} {spi : SpiState} {status : SpiFlashStatus} {rest : List Outcome}
  {atomicCommit : Bool} {writer : Writer}

theorem init_answers :
    ExternalFlashStorage.init ⟨d, spi, .ok :: rest, atomicCommit, writer⟩ =
      .done true ⟨d, ⟨true, .ok⟩, rest, atomicCommit, writer⟩ :=
  rfl

theorem read_answers {p : ExternalPartition} {offset length : Nat} (hpos : 0 < length)
    (hle : offset + length ≤ p.size) :
    ExternalFlashStorage.read p offset length
        ⟨d, ⟨true, status⟩, .ok :: rest, atomicCommit, writer⟩ =
      .done (some (d.slice p offset length)) ⟨d, ⟨true, .ok⟩, rest, atomicCommit, writer⟩ := by
  have hend := p.end_le_extFlashSize
  have hvalid : ExtFlash.isAbsoluteRangeValid (p.address + offset) length = true :=
    ExtFlash.isRangeValid_iff.2 (by omega)
  unfold ExternalFlashStorage.read
  rw [resolveRange_of_le hle]
  dsimp only
  unfold SpiFlash.read
  refine (done_bind (m := SpiFlash.isInitialized) rfl).trans ?_
  rw [hvalid, if_neg (by simp), if_neg (by simp), if_neg (by omega)]
  rfl

/-- The old header of a backup is not erased when the erase command fails. -/
theorem invalidateHeader_answers {failure : SpiFlashStatus} {junk : Nat → UInt8} :
    BackupImageStorage.invalidateHeader
        ⟨d, ⟨true, status⟩, .externalFault failure junk :: rest, atomicCommit, writer⟩ =
      .done .eraseFailed
        ⟨d.withExternal ExternalPartition.backup.address extFlashSectorSize junk,
          ⟨true, failure⟩, rest, atomicCommit, writer⟩ := by
  have herase : ExternalFlashStorage.eraseRange .backup 0 extFlashSectorSize
      ⟨d, ⟨true, status⟩, .externalFault failure junk :: rest, atomicCommit, writer⟩ =
      .done false ⟨d.withExternal ExternalPartition.backup.address extFlashSectorSize junk,
        ⟨true, failure⟩, rest, atomicCommit, writer⟩ :=
    loopThen_leave (by decide) rfl
  exact done_bind herase

/-- A range of one chunk is read at once. -/
theorem foldChunks_single {σ α : Type} {readChunk : Nat → Nat → Prog Machine (Option (List UInt8))}
    {absorb : σ → List UInt8 → σ} {chunkSize length : Nat} {start : σ} {failure : α}
    {finish : σ → α} {s t : Machine} {buffer : List UInt8} (hpos : 0 < length)
    (hle : length ≤ chunkSize) (hread : readChunk 0 length s = .done (some buffer) t) :
    ExternalFlashStorage.foldChunks readChunk absorb chunkSize length start failure finish s =
      .done (finish (absorb start buffer)) t := by
  obtain ⟨n, rfl⟩ : ∃ n, length = n + 1 := ⟨length - 1, by omega⟩
  have hchunk : min (n + 1 - 0) chunkSize = n + 1 := by omega
  unfold ExternalFlashStorage.foldChunks
  rw [loopThen_step (c := (n + 1, absorb start buffer)) (t := t) (decide_eq_true hpos)]
  · rw [loopThen_exit (by simp)]
    rfl
  · dsimp only
    rw [hchunk, done_bind hread, Nat.zero_add]
    rfl

end Answers

namespace SecureContainer

open FirmwareContainer (Info headerSize signatureSize)

variable {key : TrustedKey} {d : Device} {info : Info} {artifactSize : UInt32} {spi : SpiState}
  {status : SpiFlashStatus} {rest : List SecureDeltaOta.Outcome} {atomicCommit : Bool}
  {writer : Writer}

/-- The digests of a payload that fits into the buffer are computed from one read. -/
theorem hashAndCrcPayload_answers {raw : List UInt8} (hpos : 0 < info.header.payloadSize.toNat)
    (hsmall : info.header.payloadSize.toNat ≤ ioBufferSize)
    (hrange : info.payloadOffset + info.header.payloadSize.toNat ≤
      ExternalPartition.incoming.size) :
    hashAndCrcPayload info raw ⟨d, ⟨true, status⟩, .ok :: rest, atomicCommit, writer⟩ =
      .done (.ok (Sha256.calculate (raw ++ payload d info), Sha256.calculate (payload d info),
        Crc32.calculate (payload d info))) ⟨d, ⟨true, .ok⟩, rest, atomicCommit, writer⟩ := by
  have hread : ExternalFlashStorage.read .incoming (info.payloadOffset + 0)
      info.header.payloadSize.toNat ⟨d, ⟨true, status⟩, .ok :: rest, atomicCommit, writer⟩ =
      .done (some (payload d info)) ⟨d, ⟨true, .ok⟩, rest, atomicCommit, writer⟩ :=
    read_answers hpos hrange
  refine (foldChunks_single hpos hsmall hread).trans ?_
  simp only [PayloadDigest.update, PayloadDigest.start, Sha256.calculate, Crc32.calculate,
    Sha256.update_append Sha256.init_open]

/-- A small authentic container is accepted after four operations of the external flash. -/
theorem loadVerifiedInfo_answers (h : Authentic key d artifactSize info)
    (hpos : 0 < info.header.payloadSize.toNat)
    (hsmall : info.header.payloadSize.toNat ≤ ioBufferSize) :
    loadVerifiedInfo key artifactSize
        ⟨d, spi, .ok :: .ok :: .ok :: .ok :: rest, atomicCommit, writer⟩ =
      .done (.ok info) ⟨d, ⟨true, .ok⟩, rest, atomicCommit, writer⟩ := by
  obtain ⟨hoffset, hsignature, hrange⟩ := parse_ranges h.parsed
  have hread : ExternalFlashStorage.read .incoming 0 headerSize
      ⟨d, ⟨true, .ok⟩, .ok :: .ok :: .ok :: rest, atomicCommit, writer⟩ =
      .done (some (rawHeader d)) ⟨d, ⟨true, .ok⟩, .ok :: .ok :: rest, atomicCommit, writer⟩ :=
    read_answers (by decide) (by decide)
  have hheader : readHeader artifactSize
      ⟨d, ⟨true, .ok⟩, .ok :: .ok :: .ok :: rest, atomicCommit, writer⟩ =
      .done (.ok (info, rawHeader d))
        ⟨d, ⟨true, .ok⟩, .ok :: .ok :: rest, atomicCommit, writer⟩ := by
    unfold readHeader
    rw [done_bind hread]
    dsimp only
    rw [h.parsed]
    rfl
  have hsigned : ExternalFlashStorage.read .incoming info.signatureOffset signatureSize
      ⟨d, ⟨true, .ok⟩, .ok :: rest, atomicCommit, writer⟩ =
      .done (some (signature d info)) ⟨d, ⟨true, .ok⟩, rest, atomicCommit, writer⟩ :=
    read_answers (by decide) (by omega)
  unfold loadVerifiedInfo
  rw [done_bind init_answers, if_neg (by decide), if_neg (by rw [h.provisioned]; decide),
    done_bind hheader]
  unfold verifyContents
  dsimp only
  rw [if_neg (not_not.2 h.keyId), done_bind (hashAndCrcPayload_answers hpos hsmall (by omega))]
  dsimp only
  rw [if_neg (not_not.2 h.payloadCrc), done_bind hsigned]
  dsimp only
  rw [if_neg (not_not.2 h.signed), if_neg (fun hbad => hbad.2 (h.fullHash hbad.1))]
  rfl

end SecureContainer

namespace BootManager

open ImageInstaller

/-! ## The selection of a candidate -/

section Selection

variable {key : TrustedKey} {m : BootMetadata} {d : Device} {info : FirmwareContainer.Info}
  {spi : SpiState} {status : SpiFlashStatus} {rest : List SecureDeltaOta.Outcome}
  {atomicCommit : Bool} {writer : Writer}

/-- A small container whose image is reconstructed. -/
structure SmallRelease (key : TrustedKey) (m : BootMetadata) (d : Device)
    (info : FirmwareContainer.Info) : Prop where
  installable : Installable key m d info
  payload_pos : 0 < info.header.payloadSize.toNat
  payload_le : info.header.payloadSize.toNat ≤ SecureContainer.ioBufferSize
  image_le : info.header.targetImageSize.toNat ≤ installCrcBufferSize

theorem loadCandidateSource_answers (h : SmallRelease key m d info) :
    loadCandidateSource key m ⟨d, ⟨true, status⟩,
        .ok :: .ok :: .ok :: .ok :: .ok :: rest, atomicCommit, writer⟩ =
      .done (.ok (candidateOf m info)) ⟨d, ⟨true, .ok⟩, rest, atomicCommit, writer⟩ := by
  have hauthentic := h.installable.authentic
  have hsource : sourceOf m info = .ok (candidateOf m info) := by
    rcases sourceOf_holds m info with hok | hbad
    · exact hok.1
    · exact absurd h.installable.matching hbad.2
  unfold loadCandidateSource
  rw [done_bind (read_answers (by decide) (by decide))]
  dsimp only
  rw [if_pos hauthentic.magic,
    done_bind (SecureContainer.loadVerifiedInfo_answers hauthentic h.payload_pos h.payload_le)]
  dsimp only
  rw [hsource]
  rfl

theorem validateExternalSource_answers (h : SmallRelease key m d info) :
    validateExternalSource (candidateOf m info)
        ⟨d, ⟨true, status⟩, .ok :: .ok :: rest, atomicCommit, writer⟩ =
      .done .ok ⟨d, ⟨true, .ok⟩, rest, atomicCommit, writer⟩ := by
  have hpos : 0 < info.header.targetImageSize.toNat :=
    lt_of_lt_of_le (by decide) h.installable.authentic.wellFormed.targetSize_ge
  have hle : 0 + info.header.targetImageSize.toNat ≤ ExternalPartition.reconstructed.size := by
    rw [Nat.zero_add]
    exact h.installable.authentic.wellFormed.targetSize_le.trans (by decide)
  have hread : ExternalFlashStorage.read .reconstructed 0 8
      ⟨d, ⟨true, status⟩, .ok :: .ok :: rest, atomicCommit, writer⟩ =
      .done (some (d.slice .reconstructed 0 8))
        ⟨d, ⟨true, .ok⟩, .ok :: rest, atomicCommit, writer⟩ :=
    read_answers (by decide) (by decide)
  have hcrc : calculateExternalCrc .reconstructed info.header.targetImageSize.toNat
      ⟨d, ⟨true, .ok⟩, .ok :: rest, atomicCommit, writer⟩ =
      .done (.ok (Crc32.calculate (d.slice .reconstructed 0 info.header.targetImageSize.toNat)))
        ⟨d, ⟨true, .ok⟩, rest, atomicCommit, writer⟩ := by
    unfold calculateExternalCrc calculateCrc
    exact foldChunks_single hpos h.image_le (read_answers hpos hle)
  have hvector : FullImage.validateVector info.header.targetImageSize.toNat
      (FirmwareContainer.getU32Le (d.slice .reconstructed 0 8) 0).toNat
      (FirmwareContainer.getU32Le (d.slice .reconstructed 0 8) 4).toNat = .valid := by
    rw [Device.slice_eq_window]
    exact FullImage.validateVector_eq_valid.2 h.installable.vectors
  unfold validateExternalSource
  refine (done_bind hread).trans ?_
  dsimp only
  split
  · next hbad => exact absurd hvector hbad
  · refine (done_bind hcrc).trans ?_
    dsimp only
    split
    · next hbad => exact absurd h.installable.crc hbad
    · rfl

end Selection

end BootManager

end SecureDeltaOta
