import SecureDeltaOta.Boot.ContainerAuthentication

/-!
# Rebuilding an image

The image of an authentic container is copied or patched into the erased
reconstructed partition and verified there. What a container makes of an
installed application is a function of the two, `rebuilt`, and the streaming
code computes it unless the flash fails.
-/

namespace SecureDeltaOta

open Memory Crash

namespace SecureContainer

open FirmwareContainer (Info WellFormed headerSize signatureSize imageFull imageDelta)

/-- The first bytes of the reconstructed partition, as many as the target has. -/
def reconstructed (d : Device) (info : Info) : List UInt8 :=
  d.slice .reconstructed 0 info.header.targetImageSize.toNat

/-- An image is the one the header names. -/
structure Verified (info : Info) (image : List UInt8) : Prop where
  hash : Sha256.calculate image = info.header.targetImageSha256
  crc : Crc32.calculate image = info.extension.targetImageCrc32
  vector : FullImage.validateVector info.header.targetImageSize.toNat
    (FirmwareContainer.getU32Le (image.take 8) 0).toNat
    (FirmwareContainer.getU32Le (image.take 8) 4).toNat = .valid

/-- The image a container and an installed application make, if they make one. -/
def rebuilt (d : Device) (info : Info) : Option (List UInt8) :=
  if info.header.imageType = imageDelta then
    JanpatchPort.targetOf (patchStream info)
      (window d.app 0 info.extension.baseImageSize.toNat) (payload d info)
  else some (payload d info)

/-- The installed application is the base of a delta container. -/
def BaseMatches (d : Device) (info : Info) : Prop :=
  info.header.imageType = imageDelta →
    Sha256.calculate (window d.app 0 info.extension.baseImageSize.toNat) =
      info.header.baseImageSha256

section Specs

variable {μ : Mode} {up : Bool} {s : Machine} {info : Info}

/-- The relation allows changes of the reconstructed partition. -/
abbrev AllowsReconstructed (R : Device → Device → Prop) : Prop :=
  JanpatchPort.AllowsReconstructed R

/-- Nothing but the reconstructed partition changes. -/
abbrev ReconstructedFrame : Device → Device → Prop :=
  OutsideFrame ExternalPartition.reconstructed.address
    (ExternalPartition.reconstructed.address + ExternalPartition.reconstructed.size)

theorem eraseSize_bounds {targetSize : Nat} (hpos : 0 < targetSize)
    (hle : targetSize ≤ applicationMaxSize) :
    targetSize ≤ eraseSize targetSize ∧ eraseSize targetSize % extFlashSectorSize = 0 ∧
      eraseSize targetSize ≤ ExternalPartition.reconstructed.size := by
  have hsize : ExternalPartition.reconstructed.size = 0x20000 := rfl
  unfold applicationMaxSize at hle
  unfold eraseSize extFlashSectorSize
  omega

theorem eraseReconstructed_holds (hs : Env μ up s) (hup : μ.Usable up) {targetSize : Nat}
    (hpos : 0 < targetSize) (hle : targetSize ≤ applicationMaxSize) :
    Holds μ up (eraseReconstructed targetSize s)
      (fun r d => r = .ok ∧ (∀ i < targetSize, d.part .reconstructed i = 0xFF) ∨
        r = .targetEraseFailed ∧ μ.Faulty)
      (fun _ => True) := by
  obtain ⟨hcover, hwhole, hfits⟩ := eraseSize_bounds hpos hle
  unfold eraseReconstructed
  rw [if_neg (by omega)]
  refine Holds.bind (eraseRange_holds hs hup (by omega) (by omega) (by decide) hwhole) ?_
    (fun _ _ => trivial)
  rintro ok t ht (⟨rfl, herased⟩ | ⟨rfl, hfaulty⟩)
  · exact Holds.pure ht (.inl ⟨rfl, fun i hi => by simpa using herased i (by omega)⟩)
  · exact Holds.pure ht (.inr ⟨rfl, hfaulty⟩)

theorem copyFullPayload_holds (hs : Env μ up s) (hup : μ.Usable up)
    (hoffset : info.payloadOffset + info.header.payloadSize.toNat ≤
      ExternalPartition.incoming.size)
    (hfits : info.header.payloadSize.toNat ≤ ExternalPartition.reconstructed.size)
    (herased : ∀ i < info.header.payloadSize.toNat, s.device.part .reconstructed i = 0xFF) :
    Holds μ up (copyFullPayload info s)
      (fun r d => r = .ok ∧
          d.slice .reconstructed 0 info.header.payloadSize.toNat = payload s.device info ∨
        r ≠ .ok ∧ μ.Faulty)
      (fun _ => True) := by
  have hdisjoint : ExternalPartition.incoming.address + ExternalPartition.incoming.size ≤
      ExternalPartition.reconstructed.address := by decide
  refine Holds.loopThen (I := fun offset d => offset ≤ info.header.payloadSize.toNat ∧
      ReconstructedFrame s.device d ∧
      (∀ i < offset, d.part .reconstructed i =
        s.device.part .incoming (info.payloadOffset + i)) ∧
      ∀ i, offset ≤ i → i < info.header.payloadSize.toNat → d.part .reconstructed i = 0xFF)
    (fun offset => info.header.payloadSize.toNat - offset) ?_ ?_ ?_ hs le_rfl
    ⟨Nat.zero_le _, refl_of ReconstructedFrame _, by simp, fun i _ => herased i⟩
  · intro offset d hguard _
    simp only [decide_eq_true_eq] at hguard
    omega
  · rintro offset t ht hguard ⟨hle, hframe, hbelow, habove⟩
    simp only [decide_eq_true_eq] at hguard
    have hbuffer : 0 < ioBufferSize := by decide
    refine Holds.bind (storageRead_holds ht hup .incoming _ _) ?_ (fun _ _ => trivial)
    rintro r u hu ⟨hd, ⟨rfl, -⟩ | ⟨rfl, hbad⟩⟩
    swap
    · exact Holds.pure hu (.inr ⟨by decide, hbad.resolve_right (by omega)⟩)
    dsimp only
    generalize hchunk : min (info.header.payloadSize.toNat - offset) ioBufferSize = chunk
    have hlength : (t.device.slice .incoming (info.payloadOffset + offset) chunk).length = chunk :=
      window_length _ _ _
    have hprogrammable : Programmable u.device
        (ExternalPartition.reconstructed.address + offset)
        (t.device.slice .incoming (info.payloadOffset + offset) chunk) := by
      refine programmable_of_erased fun i hi => ?_
      rw [hd, Nat.add_assoc]
      exact habove _ (by omega) (by omega)
    refine Holds.bind ((storageWrite_holds hu hup (by omega)).and_keeps
      (storageWrite_keeps fun _ => allows_outsideFrame le_rfl le_rfl)) ?_ (fun _ _ => trivial)
    rintro ok v hv ⟨⟨rfl, hwritten⟩ | ⟨rfl, hbad⟩, hwrite⟩
    swap
    · exact Holds.pure hv (.inr ⟨by decide, hbad.resolve_right (not_not.2 hprogrammable)⟩)
    rw [hlength] at hwritten hwrite
    rw [hd] at hwrite
    refine Holds.pure hv ⟨⟨by omega, ?_, ?_, ?_⟩, by omega⟩
    · refine trans_of ReconstructedFrame hframe ⟨fun a _ => hwrite.internal a trivial, ?_⟩
      intro a ha
      exact hwrite.external a (by omega)
    · intro i hi
      rcases Nat.lt_or_ge i offset with hlow | hhigh
      · rw [Device.part, hwrite.external _ (by omega)]
        exact hbelow i hlow
      · rw [Device.slice_eq_window, Device.slice_eq_window, window_eq_iff] at hwritten
        have hbyte := hwritten (i - offset) (by omega)
        rw [show offset + (i - offset) = i by omega,
          show info.payloadOffset + offset + (i - offset) = info.payloadOffset + i by omega]
          at hbyte
        rw [hbyte, Device.part, hframe.external _ (by omega)]
        rfl
    · intro i hi hlt
      rw [Device.part, hwrite.external _ (by omega)]
      exact habove i (by omega) hlt
  · rintro offset t ht hguard ⟨hle, -, hbelow, -⟩
    simp only [decide_eq_false_iff_not, not_lt] at hguard
    refine Holds.pure ht (.inl ⟨rfl, ?_⟩)
    rw [payload, Device.slice_eq_window, Device.slice_eq_window, window_eq_iff]
    intro i hi
    rw [Nat.zero_add]
    exact hbelow i (by omega)

theorem applyDeltaPayload_holds (hs : Env μ up s) (hup : μ.Usable up)
    (hfits : (patchStream info).Fits)
    (hsizes : ¬ ((patchStream info).baseImageSize = 0 ∨ (patchStream info).patchSize = 0 ∨
      (patchStream info).targetImageSize = 0))
    (herased : ∀ i < info.header.targetImageSize.toNat, s.device.part .reconstructed i = 0xFF) :
    Holds μ up (applyDeltaPayload info s)
      (fun r d => (r = .ok ∧ JanpatchPort.targetOf (patchStream info)
            (window s.device.app 0 info.extension.baseImageSize.toNat) (payload s.device info) =
          some (reconstructed d info)) ∨
        r ≠ .ok ∧ (μ.Faulty ∨ JanpatchPort.targetOf (patchStream info)
            (window s.device.app 0 info.extension.baseImageSize.toNat)
            (payload s.device info) = none))
      (fun _ => True) := by
  have hworking : JanpatchPort.Working (patchStream info)
      (window s.device.app 0 info.extension.baseImageSize.toNat) (payload s.device info) []
      s.device :=
    ⟨rfl, rfl, Nat.zero_le _, rfl, fun i _ hi => herased i hi⟩
  refine Holds.bind (JanpatchPort.applyStream_holds hs hup hfits hsizes hworking) ?_
    (fun _ _ => trivial)
  intro r t ht hanswer
  cases r with
  | error status => exact Holds.pure ht (.inr ⟨by decide, hanswer⟩)
  | ok ctx =>
      obtain ⟨output, htarget, hworked, hpatch, hposition, -⟩ := hanswer
      have hlength : output.length = info.header.targetImageSize.toNat := by
        rw [JanpatchPort.targetOf, Option.filter_eq_some_iff] at htarget
        exact of_decide_eq_true htarget.2
      dsimp only
      rw [if_neg (by simp [hpatch, hposition])]
      refine Holds.pure ht (.inl ⟨rfl, ?_⟩)
      rw [htarget, reconstructed, ← hlength, hworked.written]

/-- The sizes a delta header has passed with are those the patcher asks for. -/
theorem patchStream_of_wellFormed (hw : WellFormed info.header info.extension)
    (hoffset : info.payloadOffset = headerSize) (hdelta : info.header.imageType = imageDelta) :
    (patchStream info).Fits ∧ ¬ ((patchStream info).baseImageSize = 0 ∨
      (patchStream info).patchSize = 0 ∨ (patchStream info).targetImageSize = 0) := by
  obtain ⟨-, hbase, hbaseMax, -⟩ := hw.delta hdelta
  have hpayload := hw.payloadSize_le
  have hpositive : info.header.payloadSize.toNat ≠ 0 := fun h =>
    hw.payloadSize_pos (UInt32.toNat_inj.1 h)
  have htarget := hw.targetSize_ge
  have hmax : applicationMaxSize ≤ ExternalPartition.reconstructed.size := by decide
  have hsize : headerSize + signatureSize ≤ extIncomingSize := by decide
  have hpartition : ExternalPartition.incoming.size = extIncomingSize := rfl
  have hrange : headerSize + info.header.payloadSize.toNat ≤ ExternalPartition.incoming.size := by
    omega
  simp only [patchStream, hoffset]
  exact ⟨⟨hbaseMax, hrange, hw.targetSize_le.trans hmax⟩, by omega⟩

theorem hashReconstructed_holds (hs : Env μ up s) (hup : μ.Usable up) {length : Nat}
    (hle : length ≤ ExternalPartition.reconstructed.size) :
    Holds μ up (hashReconstructed length s)
      (fun r d => d = s.device ∧
        (r = .ok (Sha256.calculate (s.device.slice .reconstructed 0 length),
            Crc32.calculate (s.device.slice .reconstructed 0 length)) ∨
          r = .error .targetReadFailed ∧ μ.Faulty))
      (fun d => d = s.device) := by
  refine (foldChunks_holds μ.Faulty (s.device.part .reconstructed) hs (by decide)
    (by simp only [Sha256.update_nil Sha256.init_open]; rfl)
    (fun xs ys => by simp only [Sha256.update_append Sha256.init_open, Crc32.update_append]) ?_).mono
    ?_ (fun _ hd => hd)
  · intro t offset len ht hd hin
    refine (storageRead_holds ht hup .reconstructed _ len).mono ?_ (fun _ hd' => hd'.trans hd)
    rintro r d ⟨hd', ⟨rfl, -⟩ | ⟨rfl, hbad⟩⟩
    · exact ⟨hd'.trans hd, .inl (by rw [hd, Device.slice_eq_window])⟩
    · exact ⟨hd'.trans hd, .inr ⟨rfl, hbad.resolve_right (by omega)⟩⟩
  · rintro r d ⟨hd, rfl | hbad⟩
    · refine ⟨hd, .inl ?_⟩
      rw [Device.slice_eq_window]
      rfl
    · exact ⟨hd, .inr hbad⟩

theorem verifyReconstructed_holds (hs : Env μ up s) (hup : μ.Usable up)
    (hge : 8 ≤ info.header.targetImageSize.toNat)
    (hle : info.header.targetImageSize.toNat ≤ applicationMaxSize) :
    Holds μ up (verifyReconstructed info s)
      (fun r d => d = s.device ∧
        (r = .ok ∧ Verified info (reconstructed s.device info) ∨
          r ≠ .ok ∧ (μ.Faulty ∨ ¬ Verified info (reconstructed s.device info))))
      (fun d => d = s.device) := by
  have hmax : applicationMaxSize ≤ ExternalPartition.reconstructed.size := by decide
  have hvector : s.device.slice .reconstructed 0 8 = (reconstructed s.device info).take 8 := by
    rw [reconstructed, Device.slice, Device.slice, window_take hge]
  refine Holds.bind (hashReconstructed_holds hs hup (hle.trans hmax)) ?_ (fun _ hd => hd)
  rintro r t ht ⟨hd, rfl | ⟨rfl, hfaulty⟩⟩
  swap
  · exact Holds.pure ht ⟨hd, .inr ⟨by decide, .inl hfaulty⟩⟩
  dsimp only
  split
  · next hhash => exact Holds.pure ht ⟨hd, .inr ⟨by decide, .inr fun h => hhash h.hash⟩⟩
  next hhash =>
  split
  · next hcrc => exact Holds.pure ht ⟨hd, .inr ⟨by decide, .inr fun h => hcrc h.crc⟩⟩
  next hcrc =>
  refine Holds.bind (storageRead_holds ht hup .reconstructed 0 8) ?_ (fun _ hd' => hd'.trans hd)
  rintro r u hu ⟨hd', ⟨rfl, -⟩ | ⟨rfl, hbad⟩⟩
  swap
  · exact Holds.pure hu ⟨hd'.trans hd, .inr ⟨by decide, .inl (hbad.resolve_right (by decide))⟩⟩
  rw [hd, hvector]
  dsimp only
  split
  · next hinvalid =>
      exact Holds.pure hu ⟨hd'.trans hd, .inr ⟨by decide, .inr fun h => hinvalid h.vector⟩⟩
  · next hvalid =>
      exact Holds.pure hu ⟨hd'.trans hd, .inl ⟨rfl, not_not.1 hhash, not_not.1 hcrc,
        not_not.1 hvalid⟩⟩

section Frames

variable {R : Device → Device → Prop} [IsPreorder Device R]

theorem eraseReconstructed_keeps (h : AllowsReconstructed R) (size : Nat) :
    Keeps R (eraseReconstructed size) :=
  Keeps.ite (Keeps.pure _) (Keeps.bind (eraseRange_keeps fun _ =>
    h.mono (by omega) (by omega)) fun _ => Keeps.ite (Keeps.pure _) (Keeps.pure _))

theorem copyFullPayload_keeps (h : AllowsReconstructed R) (info : Info) :
    Keeps R (copyFullPayload info) := by
  refine Keeps.loopThen (fun offset _ => Keeps.bind (storageRead_keeps _ _ _) fun r => ?_)
    (fun _ => Keeps.pure _) _ _
  cases r with
  | none => exact Keeps.pure _
  | some buffer =>
      exact Keeps.bind (storageWrite_keeps fun _ => h.mono (by omega) (by omega))
        fun _ => Keeps.ite (Keeps.pure _) (Keeps.pure _)

theorem applyDeltaPayload_keeps (h : AllowsReconstructed R) (info : Info) :
    Keeps R (applyDeltaPayload info) := by
  refine Keeps.bind (JanpatchPort.applyStream_keeps (JanpatchPort.AllowsReconstructed.target h)) fun r => ?_
  cases r with
  | error status => exact Keeps.pure _
  | ok ctx => exact Keeps.ite (Keeps.pure _) (Keeps.pure _)

theorem rebuild_keeps (h : AllowsReconstructed R) (info : Info) : Keeps R (rebuild info) :=
  Keeps.ite (applyDeltaPayload_keeps h info) (copyFullPayload_keeps h info)

end Frames

/-- Only the reconstructed partition changes. -/
abbrev RebuildFrame : Device → Device → Prop :=
  PartFrame (fun _ => True) fun p => p = .incoming ∨ p = .backup

theorem allows_rebuild : AllowsReconstructed RebuildFrame :=
  allows_partFrame (by decide)

/-- The image is rebuilt in the erased partition, or there is no image to rebuild. -/
theorem rebuild_holds (hs : Env μ up s) (hup : μ.Usable up) {size : UInt32}
    (hauthentic : Authentic key s.device size info)
    (herased : ∀ i < info.header.targetImageSize.toNat, s.device.part .reconstructed i = 0xFF) :
    Holds μ up (rebuild info s)
      (fun r d => RebuildFrame s.device d ∧
        (r = .ok ∧ rebuilt s.device info = some (reconstructed d info) ∨
          r ≠ .ok ∧ (μ.Faulty ∨ rebuilt s.device info = none)))
      (fun d => RebuildFrame s.device d) := by
  obtain ⟨hoffset, -, hrange⟩ := parse_ranges hauthentic.parsed
  have hw := hauthentic.wellFormed
  unfold rebuild
  split
  · next hdelta =>
    obtain ⟨hfits, hsizes⟩ := patchStream_of_wellFormed hw hoffset hdelta
    refine ((applyDeltaPayload_holds hs hup hfits hsizes herased).and_keeps
      (applyDeltaPayload_keeps allows_rebuild info)).mono ?_ (fun d hd => hd.2)
    rintro r d ⟨hresult, hframe⟩
    rw [rebuilt, if_pos hdelta]
    exact ⟨hframe, hresult⟩
  · next hfull =>
    have hsame : info.header.payloadSize = info.header.targetImageSize :=
      (hw.full (hw.imageType.resolve_right hfull)).2.2.2
    have hmax : applicationMaxSize ≤ ExternalPartition.reconstructed.size := by decide
    have htarget := hw.targetSize_le
    rw [← hsame] at herased htarget
    refine ((copyFullPayload_holds hs hup (by omega) (htarget.trans hmax) herased).and_keeps
      (copyFullPayload_keeps allows_rebuild info)).mono ?_ (fun d hd => hd.2)
    rintro r d ⟨⟨rfl, hcopied⟩ | ⟨hbad, hfaulty⟩, hframe⟩
    · refine ⟨hframe, .inl ⟨rfl, ?_⟩⟩
      rw [rebuilt, if_neg hfull, reconstructed, ← hsame, hcopied]
    · exact ⟨hframe, .inr ⟨hbad, .inl hfaulty⟩⟩

end Specs

end SecureContainer

end SecureDeltaOta
