import SecureDeltaOta.Boot.SecureContainer

/-!
# What an authenticated container is

`Authentic` says of the bytes in the incoming partition what the bootloader
checks before it trusts them. Loading the container answers exactly this
question, unless the external flash fails.
-/

namespace SecureDeltaOta

open Memory Crash

namespace SecureContainer

open FirmwareContainer (Info headerSize signatureSize imageFull imageDelta)

/-- The header bytes in the incoming partition. -/
def rawHeader (d : Device) : List UInt8 := d.slice .incoming 0 headerSize

/-- The payload behind the header. -/
def payload (d : Device) (info : Info) : List UInt8 :=
  d.slice .incoming info.payloadOffset info.header.payloadSize.toNat

/-- The signature behind the payload. -/
def signature (d : Device) (info : Info) : List UInt8 :=
  d.slice .incoming info.signatureOffset signatureSize

/-- The incoming partition holds a container with this header that the trusted key signed. -/
structure Authentic (key : TrustedKey) (d : Device) (artifactSize : UInt32) (info : Info) :
    Prop where
  provisioned : key.provisioned = true
  parsed : FirmwareContainer.parse (rawHeader d) artifactSize = .ok info
  keyId : info.extension.keyId = key.keyId
  payloadCrc : Crc32.calculate (payload d info) = info.header.payloadCrc32
  signed : EcdsaP256.verifyDigest key.publicKey
    (Sha256.calculate (rawHeader d ++ payload d info)) (signature d info) = .valid
  fullHash : info.header.imageType = imageFull →
    Sha256.calculate (payload d info) = info.header.targetImageSha256

instance (key : TrustedKey) (d : Device) (artifactSize : UInt32) (info : Info) :
    Decidable (Authentic key d artifactSize info) :=
  decidable_of_iff
    (key.provisioned = true ∧ FirmwareContainer.parse (rawHeader d) artifactSize = .ok info ∧
      info.extension.keyId = key.keyId ∧
      Crc32.calculate (payload d info) = info.header.payloadCrc32 ∧
      EcdsaP256.verifyDigest key.publicKey (Sha256.calculate (rawHeader d ++ payload d info))
        (signature d info) = .valid ∧
      (info.header.imageType = imageFull →
        Sha256.calculate (payload d info) = info.header.targetImageSha256))
    ⟨fun ⟨h₁, h₂, h₃, h₄, h₅, h₆⟩ => ⟨h₁, h₂, h₃, h₄, h₅, h₆⟩,
      fun ⟨h₁, h₂, h₃, h₄, h₅, h₆⟩ => ⟨h₁, h₂, h₃, h₄, h₅, h₆⟩⟩

section Facts

variable {key : TrustedKey} {d : Device} {artifactSize : UInt32} {info : Info}

/-- What the header of an authentic container satisfies. -/
theorem Authentic.wellFormed (h : Authentic key d artifactSize info) :
    FirmwareContainer.WellFormed info.header info.extension := by
  obtain ⟨hw, rfl, -⟩ := FirmwareContainer.parse_eq_ok.1 h.parsed
  exact hw

/-- A device holds at most one authentic container. -/
theorem Authentic.unique {info' : Info} (h : Authentic key d artifactSize info)
    (h' : Authentic key d artifactSize info') : info' = info := by
  have hsame := h'.parsed
  rw [h.parsed] at hsame
  exact (Except.ok.inj hsame).symm

/-- An authentic container starts with the magic number. -/
theorem Authentic.magic (h : Authentic key d artifactSize info) :
    FirmwareContainer.getU32Le (d.slice .incoming 0 4) 0 = FirmwareContainer.magic := by
  obtain ⟨hw, -, -⟩ := FirmwareContainer.parse_eq_ok.1 h.parsed
  rw [← hw.magic]
  refine readLe32_congr fun i hi => ?_
  have hheader : i < headerSize := lt_of_lt_of_le hi (by decide)
  rw [Nat.zero_add, rawHeader, Device.slice, Device.slice, window_getD hi, window_getD hheader]

/-- The payload and the signature lie in the incoming partition. -/
theorem parse_ranges {raw : List UInt8} (h : FirmwareContainer.parse raw artifactSize = .ok info) :
    info.payloadOffset = headerSize ∧
      info.signatureOffset = headerSize + info.header.payloadSize.toNat ∧
      headerSize + info.header.payloadSize.toNat + signatureSize ≤
        ExternalPartition.incoming.size := by
  obtain ⟨hw, rfl, -⟩ := FirmwareContainer.parse_eq_ok.1 h
  have hle := hw.payloadSize_le
  have hsize : headerSize + signatureSize ≤ extIncomingSize := by decide
  have hpartition : ExternalPartition.incoming.size = extIncomingSize := rfl
  refine ⟨rfl, rfl, ?_⟩
  simp only [FirmwareContainer.infoOf]
  omega

/-- Whether a container is authentic depends on the incoming partition only. -/
theorem authentic_congr {d' : Device}
    (h : ∀ i < ExternalPartition.incoming.size, d'.part .incoming i = d.part .incoming i) :
    Authentic key d' artifactSize info ↔ Authentic key d artifactSize info := by
  have hslice : ∀ offset length, offset + length ≤ ExternalPartition.incoming.size →
      d'.slice .incoming offset length = d.slice .incoming offset length := by
    intro offset length hle
    rw [Device.slice_eq_window, Device.slice_eq_window, window_eq_iff]
    exact fun i hi => h _ (by omega)
  have hheader : rawHeader d' = rawHeader d := hslice _ _ (by decide)
  constructor
  · intro ha
    obtain ⟨hoffset, hsignature, hrange⟩ := parse_ranges ha.parsed
    have hpayload : payload d' info = payload d info := hslice _ _ (by omega)
    have hsigned : signature d' info = signature d info := hslice _ _ (by omega)
    exact ⟨ha.provisioned, hheader ▸ ha.parsed, ha.keyId, hpayload ▸ ha.payloadCrc,
      by rw [← hheader, ← hpayload, ← hsigned]; exact ha.signed,
      fun hfull => hpayload ▸ ha.fullHash hfull⟩
  · intro ha
    obtain ⟨hoffset, hsignature, hrange⟩ := parse_ranges ha.parsed
    have hpayload : payload d' info = payload d info := hslice _ _ (by omega)
    have hsigned : signature d' info = signature d info := hslice _ _ (by omega)
    exact ⟨ha.provisioned, hheader.symm ▸ ha.parsed, ha.keyId, hpayload.symm ▸ ha.payloadCrc,
      by rw [hheader, hpayload, hsigned]; exact ha.signed,
      fun hfull => hpayload.symm ▸ ha.fullHash hfull⟩

end Facts

section Specs

variable {μ : Mode} {up : Bool} {s : Machine} {key : TrustedKey}

theorem PayloadDigest.update_append (raw xs ys : List UInt8) :
    ((PayloadDigest.start raw).update xs).update ys = (PayloadDigest.start raw).update (xs ++ ys) := by
  have hopen := Sha256.update_open Sha256.init_open raw
  simp only [PayloadDigest.update, PayloadDigest.start, Sha256.update_append hopen,
    Sha256.update_append Sha256.init_open, Crc32.update_append]

theorem PayloadDigest.update_nil (raw : List UInt8) :
    (PayloadDigest.start raw).update [] = PayloadDigest.start raw := by
  have hopen := Sha256.update_open Sha256.init_open raw
  simp only [PayloadDigest.update, PayloadDigest.start, Sha256.update_nil hopen,
    Sha256.update_nil Sha256.init_open]
  rfl

theorem hashAndCrcPayload_holds (hs : Env μ up s) (hup : μ.Usable up) {artifactSize : UInt32}
    {info : Info} (hparsed : FirmwareContainer.parse (rawHeader s.device) artifactSize = .ok info) :
    Holds μ up (hashAndCrcPayload info (rawHeader s.device) s)
      (fun r d => d = s.device ∧
        (r = .ok (Sha256.calculate (rawHeader s.device ++ payload s.device info),
            Sha256.calculate (payload s.device info), Crc32.calculate (payload s.device info)) ∨
          r = .error .payloadReadFailed ∧ μ.Faulty))
      (fun d => d = s.device) := by
  obtain ⟨hoffset, -, hrange⟩ := parse_ranges hparsed
  have hslice : ∀ offset len, s.device.slice .incoming (info.payloadOffset + offset) len =
      window (fun i => s.device.part .incoming (info.payloadOffset + i)) offset len := by
    intro offset len
    rw [Device.slice_eq_window, window_eq_iff]
    exact fun i _ => congrArg (s.device.part .incoming) (Nat.add_assoc _ _ _)
  refine (foldChunks_holds μ.Faulty (fun i => s.device.part .incoming (info.payloadOffset + i)) hs
    (by decide) (PayloadDigest.update_nil _) (PayloadDigest.update_append _) ?_).mono ?_
    (fun _ hd => hd)
  · intro t offset len ht hd hle
    refine (storageRead_holds ht hup .incoming _ len).mono ?_ (fun _ hd' => hd'.trans hd)
    rintro r d ⟨hd', ⟨rfl, -⟩ | ⟨rfl, hbad⟩⟩
    · exact ⟨hd'.trans hd, .inl (by rw [hd, hslice])⟩
    · exact ⟨hd'.trans hd, .inr ⟨rfl, hbad.resolve_right (by omega)⟩⟩
  · rintro r d ⟨hd, rfl | hbad⟩
    · refine ⟨hd, .inl ?_⟩
      have hwhole := hslice 0 info.header.payloadSize.toNat
      rw [Nat.add_zero] at hwhole
      rw [← hwhole]
      simp only [PayloadDigest.update, PayloadDigest.start, Sha256.calculate, Crc32.calculate,
        Sha256.update_append Sha256.init_open]
      rfl
    · exact ⟨hd, .inr hbad⟩

theorem isIncoming_holds (hs : Env μ up s) :
    Holds μ μ.ready (isIncoming s)
      (fun b d => d = s.device ∧
        (b = true ↔ FirmwareContainer.getU32Le (s.device.slice .incoming 0 4) 0 =
          FirmwareContainer.magic) ∨ d = s.device ∧ b = false ∧ μ.Faulty)
      (fun d => d = s.device) := by
  refine init_bind_holds hs rfl ?_
  intro ok t hok ht hd
  split
  · next hfail =>
      refine Holds.pure ht (.inr ⟨hd, rfl, hok.resolve_left ?_⟩)
      rintro rfl
      cases hfail
  · refine Holds.bind (storageRead_holds ht μ.usable_ready .incoming 0 4) ?_
      (fun _ hd' => hd'.trans hd)
    rintro r u hu ⟨hd', ⟨rfl, -⟩ | ⟨rfl, hbad⟩⟩
    · exact Holds.pure hu (.inl ⟨hd'.trans hd, by rw [hd, decide_eq_true_eq]⟩)
    · exact Holds.pure hu (.inr ⟨hd'.trans hd, rfl, hbad.resolve_right (by decide)⟩)

/-- The answer to whether the incoming partition holds an authentic container. -/
def AuthenticationAnswer (μ : Mode) (key : TrustedKey) (d : Device) (artifactSize : UInt32)
    (r : Except SecureContainerStatus Info) : Prop :=
  (∃ info, r = .ok info ∧ Authentic key d artifactSize info) ∨
    (∃ status, r = .error status ∧ status ≠ .ok) ∧
      (μ.Faulty ∨ ∀ info, ¬ Authentic key d artifactSize info)

theorem verifyContents_holds (hs : Env μ up s) (hup : μ.Usable up) {artifactSize : UInt32}
    {info : Info} (hkey : key.provisioned = true)
    (hparsed : FirmwareContainer.parse (rawHeader s.device) artifactSize = .ok info) :
    Holds μ up (verifyContents key info (rawHeader s.device) s)
      (fun r d => d = s.device ∧ AuthenticationAnswer μ key s.device artifactSize r)
      (fun d => d = s.device) := by
  obtain ⟨-, hsignature, hrange⟩ := parse_ranges hparsed
  -- only the parsed header can be the authentic one
  have hno : (¬ Authentic key s.device artifactSize info) →
      ∀ info', ¬ Authentic key s.device artifactSize info' := by
    intro hbad info' hauthentic
    have hsame := hauthentic.parsed
    rw [hparsed] at hsame
    cases hsame
    exact hbad hauthentic
  unfold verifyContents
  split
  · next hid =>
      exact Holds.pure hs ⟨rfl, .inr ⟨⟨_, rfl, by decide⟩, .inr (hno fun h => hid h.keyId)⟩⟩
  next hid =>
  refine Holds.bind (hashAndCrcPayload_holds hs hup hparsed) ?_ (fun _ hd => hd)
  rintro r t ht ⟨hd, rfl | ⟨rfl, hfaulty⟩⟩
  swap
  · exact Holds.pure ht ⟨hd, .inr ⟨⟨_, rfl, by decide⟩, .inl hfaulty⟩⟩
  dsimp only
  split
  · next hcrc =>
      exact Holds.pure ht ⟨hd, .inr ⟨⟨_, rfl, by decide⟩, .inr (hno fun h => hcrc h.payloadCrc)⟩⟩
  next hcrc =>
  refine Holds.bind (storageRead_holds ht hup .incoming _ signatureSize) ?_
    (fun _ hd' => hd'.trans hd)
  rintro r u hu ⟨hd', ⟨rfl, -⟩ | ⟨rfl, hbad⟩⟩
  swap
  · exact Holds.pure hu ⟨hd'.trans hd, .inr ⟨⟨_, rfl, by decide⟩,
      .inl (hbad.resolve_right (by omega))⟩⟩
  rw [hd]
  dsimp only
  split
  · next hinvalid =>
      exact Holds.pure hu ⟨hd'.trans hd, .inr ⟨⟨_, rfl, by decide⟩,
        .inr (hno fun h => hinvalid h.signed)⟩⟩
  next hvalid =>
  split
  · next hhash =>
      exact Holds.pure hu ⟨hd'.trans hd, .inr ⟨⟨_, rfl, by decide⟩,
        .inr (hno fun h => hhash.2 (h.fullHash hhash.1))⟩⟩
  · next hhash =>
      refine Holds.pure hu ⟨hd'.trans hd, .inl ⟨info, rfl, hkey, hparsed, not_not.1 hid,
        not_not.1 hcrc, not_not.1 hvalid, ?_⟩⟩
      intro hfull
      by_contra hne
      exact hhash ⟨hfull, hne⟩

theorem readHeader_holds (hs : Env μ up s) (hup : μ.Usable up) (artifactSize : UInt32) :
    Holds μ up (readHeader artifactSize s)
      (fun r d => d = s.device ∧
        ((∃ info, r = .ok (info, rawHeader s.device) ∧
            FirmwareContainer.parse (rawHeader s.device) artifactSize = .ok info) ∨
          (∃ status, r = .error status ∧ status ≠ .ok) ∧ (μ.Faulty ∨
            ∀ info, FirmwareContainer.parse (rawHeader s.device) artifactSize ≠ .ok info)))
      (fun d => d = s.device) := by
  refine Holds.bind (storageRead_holds hs hup .incoming 0 headerSize) ?_ (fun _ hd => hd)
  rintro r t ht ⟨hd, ⟨rfl, -⟩ | ⟨rfl, hbad⟩⟩
  swap
  · exact Holds.pure ht ⟨hd, .inr ⟨⟨_, rfl, by decide⟩, .inl (hbad.resolve_right (by decide))⟩⟩
  cases hparse : FirmwareContainer.parse (rawHeader s.device) artifactSize with
  | error status =>
      rw [rawHeader] at hparse
      simp only [hparse]
      exact Holds.pure ht ⟨hd, .inr ⟨⟨_, rfl, by decide⟩, .inr (by simp)⟩⟩
  | ok info =>
      rw [rawHeader] at hparse
      simp only [hparse]
      exact Holds.pure ht ⟨hd, .inl ⟨info, rfl, rfl⟩⟩

/-- Loading the container tells whether it is authentic. -/
theorem loadVerifiedInfo_holds (hs : Env μ up s) (key : TrustedKey) (artifactSize : UInt32) :
    Holds μ μ.ready (loadVerifiedInfo key artifactSize s)
      (fun r d => d = s.device ∧ AuthenticationAnswer μ key s.device artifactSize r)
      (fun d => d = s.device) := by
  refine init_bind_holds hs rfl ?_
  intro ok t hok ht hd
  split
  · next hfail =>
      refine Holds.pure ht ⟨hd, .inr ⟨⟨_, rfl, by decide⟩, .inl (hok.resolve_left ?_)⟩⟩
      rintro rfl
      cases hfail
  split
  · next hkey =>
      refine Holds.pure ht ⟨hd, .inr ⟨⟨_, rfl, by decide⟩, .inr fun info h => ?_⟩⟩
      rw [h.provisioned] at hkey
      cases hkey
  next hkey =>
  refine Holds.bind (readHeader_holds ht μ.usable_ready artifactSize) ?_
    (fun _ hd' => hd'.trans hd)
  rintro r u hu ⟨hd', ⟨info, rfl, hparsed⟩ | ⟨⟨status, rfl, hstatus⟩, hbad⟩⟩
  · have hkey' : key.provisioned = true := by simpa using hkey
    rw [← hd'] at hparsed ⊢
    rw [← hd, ← hd']
    exact verifyContents_holds hu μ.usable_ready hkey' hparsed
  · refine Holds.pure hu ⟨hd'.trans hd, .inr ⟨⟨status, rfl, hstatus⟩, ?_⟩⟩
    rw [← hd]
    exact hbad.imp_right fun hparse info h => hparse info h.parsed

end Specs

section Frames

variable {R : Device → Device → Prop} [IsPreorder Device R]

end Frames

end SecureContainer

end SecureDeltaOta
