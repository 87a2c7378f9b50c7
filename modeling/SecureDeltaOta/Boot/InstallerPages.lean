import SecureDeltaOta.Boot.ContainerAuthentication
import SecureDeltaOta.Boot.ImageInstaller

/-!
# The parts of the installer

What the checks of the installer decide and what one page, one backup sector and
one commit do to the device.
-/

namespace SecureDeltaOta

open Memory Crash

/-! ## Vectors -/

/-- The first word of an application region. -/
def stackPointerOf (image : Nat → UInt8) : Nat :=
  (readLe32 (window image 0 8) 0).toNat

/-- The second word of an application region. -/
def resetHandlerOf (image : Nat → UInt8) : Nat :=
  (readLe32 (window image 0 8) 4).toNat

/-- An image of some size starts with a vector table the bootloader accepts. -/
def VectorsValid (imageSize : Nat) (image : Nat → UInt8) : Prop :=
  FullImage.VectorValid imageSize (stackPointerOf image) (resetHandlerOf image)

theorem Device.internalWord_app (d : Device) :
    d.internalWord applicationStartAddress = stackPointerOf d.app ∧
      d.internalWord (applicationStartAddress + 4) = resetHandlerOf d.app := by
  unfold internalWord stackPointerOf resetHandlerOf
  constructor
  · refine congrArg UInt32.toNat (readLe32_congr fun j hj => ?_)
    rw [window_getD (by omega), window_getD (by omega), Nat.zero_add, Nat.zero_add]
    rfl
  · refine congrArg UInt32.toNat (readLe32_congr fun j hj => ?_)
    rw [window_getD (by omega), window_getD (by omega), Nat.zero_add, Nat.zero_add, app,
      Nat.add_assoc]

theorem vectorsValid_congr {imageSize : Nat} {image image' : Nat → UInt8}
    (h : ∀ i < 8, image' i = image i) :
    VectorsValid imageSize image' ↔ VectorsValid imageSize image := by
  have hwindow : window image' 0 8 = window image 0 8 := by
    rw [window_eq_iff]
    simpa using h
  unfold VectorsValid stackPointerOf resetHandlerOf
  rw [hwindow]

theorem VectorsValid.weaken {imageSize : Nat} {image : Nat → UInt8}
    (h : VectorsValid imageSize image) : VectorsValid applicationMaxSize image := by
  have hmax := h.maxSize
  have hreset := h.resetHigh
  exact ⟨by decide, le_rfl, h.stackLow, h.stackHigh, h.stackAligned, h.thumb, h.resetLow, by omega⟩

/-- An application may be started when its vectors are those of an image of the full region. -/
theorem applicationJump_validate (d : Device) :
    (∃ vector, ApplicationJump.validate d applicationStartAddress = .ok vector) ↔
      VectorsValid applicationMaxSize d.app := by
  obtain ⟨hstack, hreset⟩ := d.internalWord_app
  have hend : bootMetadataAddress = applicationStartAddress + applicationMaxSize := rfl
  unfold ApplicationJump.validate VectorsValid
  rw [if_neg (by decide), if_neg (by decide)]
  dsimp only
  rw [hstack, hreset, hend]
  constructor
  · rintro ⟨vector, hvector⟩
    split_ifs at hvector with h₁ h₂ h₃ h₄
    exact ⟨by decide, le_rfl, by omega, by omega, not_not.1 h₂, h₃, by omega, by omega⟩
  · intro h
    have hlow := h.stackLow
    have hhigh := h.stackHigh
    have hresetLow := h.resetLow
    have hresetHigh := h.resetHigh
    have haligned : stackPointerOf d.app % ApplicationJump.requiredStackAlignment = 0 :=
      h.stackAligned
    exact ⟨_, by rw [if_neg (by omega), if_neg (not_not.2 haligned), if_neg h.thumb,
      if_neg (by omega)]⟩

namespace ImageInstaller

section Specs

variable {μ : Mode} [μ.Sound] {up : Bool} {s : Machine}

/-! ## Checksums -/

omit [μ.Sound] in
theorem calculateCrc_holds {readChunk : Nat → Nat → Prog Machine (Option (List UInt8))}
    {failure : ImageInstallerStatus} {length : Nat} (mem : Nat → UInt8) (hs : Env μ up s)
    (hread : ∀ t offset len, Env μ up t → t.device = s.device → offset + len ≤ length →
      Holds μ up (readChunk offset len t)
        (fun r d => d = s.device ∧ (r = some (window mem offset len) ∨ r = none ∧ μ.Faulty))
        (fun d => d = s.device)) :
    Holds μ up (calculateCrc readChunk failure length s)
      (fun r d => d = s.device ∧
        (r = .ok (Crc32.calculate (window mem 0 length)) ∨ r = .error failure ∧ μ.Faulty))
      (fun d => d = s.device) :=
  foldChunks_holds μ.Faulty mem hs (by decide) rfl
    (fun xs ys => (Crc32.update_append _ xs ys).symm) hread

omit [μ.Sound] in
theorem calculateExternalCrc_holds (hs : Env μ up s) (hup : μ.Usable up) {p : ExternalPartition}
    {length : Nat} (hle : length ≤ p.size) :
    Holds μ up (calculateExternalCrc p length s)
      (fun r d => d = s.device ∧
        (r = .ok (Crc32.calculate (s.device.slice p 0 length)) ∨
          r = .error .sourceReadFailed ∧ μ.Faulty))
      (fun d => d = s.device) := by
  rw [Device.slice_eq_window]
  refine calculateCrc_holds (s.device.part p) hs fun t offset len ht hd hin => ?_
  refine (storageRead_holds ht hup p offset len).mono ?_ (fun _ hd' => hd'.trans hd)
  rintro r d ⟨hd', ⟨rfl, -⟩ | ⟨rfl, hbad⟩⟩
  · exact ⟨hd'.trans hd, .inl (by rw [hd, Device.slice_eq_window])⟩
  · exact ⟨hd'.trans hd, .inr ⟨rfl, hbad.resolve_right (by omega)⟩⟩

omit [μ.Sound] in
theorem calculateBackupCrc_holds (hs : Env μ up s) (hup : μ.Usable up) :
    Holds μ up (calculateBackupCrc s)
      (fun r d => d = s.device ∧
        (r = .ok (Crc32.calculate (window s.device.backupImage 0 applicationMaxSize)) ∨
          r = .error .backupVerifyFailed ∧ μ.Faulty))
      (fun d => d = s.device) := by
  refine calculateCrc_holds s.device.backupImage hs fun t offset len ht hd hin => ?_
  refine (backupRead_holds ht hup hin).mono ?_ (fun _ hd' => hd'.trans hd)
  rintro r d ⟨hd', hr⟩
  rw [hd] at hr
  exact ⟨hd'.trans hd, hr⟩

omit [μ.Sound] in
theorem calculateInternalCrc_holds (hs : Env μ up s) (length : Nat) :
    Holds μ up (calculateInternalCrc length s)
      (fun r d => d = s.device ∧ r = Crc32.calculate (window s.device.app 0 length))
      (fun d => d = s.device) := by
  refine (foldChunks_holds False s.device.app hs (by decide) rfl
    (fun xs ys => (Crc32.update_append _ xs ys).symm) ?_).mono ?_ (fun _ hd => hd)
  · intro t offset len ht hd _
    exact Holds.read ht ⟨hd, .inl (by rw [Device.internal_window, hd])⟩
  · rintro r d ⟨hd, rfl | ⟨-, hfalse⟩⟩
    · exact ⟨hd, rfl⟩
    · exact hfalse.elim

/-! ## The candidate -/

open FirmwareContainer (Info imageDelta) in
/-- The record is about the update a header describes. -/
structure Matches (m : BootMetadata) (info : Info) : Prop where
  state : m.state ≠ UpdateState.artifactReady.code
  pendingVersion : m.pendingVersion = info.header.targetVersion
  activeUpdateId : m.activeUpdateId ≠ 0
  receivedSize : m.receivedSize = info.header.targetImageSize
  expectedSize : m.expectedSize = info.header.targetImageSize
  baseVersion : info.header.imageType = imageDelta → m.activeVersion = info.header.baseVersion

/-- The device holds a signed container for the record and the image it describes. -/
structure Installable (key : TrustedKey) (m : BootMetadata) (d : Device)
    (info : FirmwareContainer.Info) : Prop where
  authentic : SecureContainer.Authentic key d 0 info
  matching : Matches m info
  vectors : VectorsValid info.header.targetImageSize.toNat (d.part .reconstructed)
  crc : Crc32.calculate (d.slice .reconstructed 0 info.header.targetImageSize.toNat) =
    info.extension.targetImageCrc32

theorem sourceOf_holds (m : BootMetadata) (info : FirmwareContainer.Info) :
    sourceOf m info = .ok (candidateOf m info) ∧ Matches m info ∨
      sourceOf m info = .error .handoffMismatch ∧ ¬ Matches m info := by
  unfold sourceOf
  split_ifs with h₁ h₂
  · refine .inr ⟨rfl, fun h => ?_⟩
    rcases h₁ with hbad | hbad | hbad | hbad | hbad
    · exact h.state hbad
    · exact hbad h.pendingVersion
    · exact h.activeUpdateId hbad
    · exact hbad h.receivedSize
    · exact hbad h.expectedSize
  · exact .inr ⟨rfl, fun h => h₂.2 (h.baseVersion h₂.1)⟩
  · simp only [not_or, ne_eq, not_not] at h₁
    refine .inl ⟨rfl, h₁.1, h₁.2.1, h₁.2.2.1, h₁.2.2.2.1, h₁.2.2.2.2, fun hdelta => ?_⟩
    by_contra hne
    exact h₂ ⟨hdelta, hne⟩

omit [μ.Sound] in
theorem loadCandidateSource_holds (hs : Env μ μ.ready s) (key : TrustedKey) (m : BootMetadata) :
    Holds μ μ.ready (loadCandidateSource key m s)
      (fun r d => d = s.device ∧
        ((∃ info, r = .ok (candidateOf m info) ∧ SecureContainer.Authentic key s.device 0 info ∧
            Matches m info) ∨
          (∃ status, r = .error status) ∧ (μ.Faulty ∨
            ∀ info, ¬ (SecureContainer.Authentic key s.device 0 info ∧ Matches m info))))
      (fun d => d = s.device) := by
  refine Holds.bind (storageRead_holds hs μ.usable_ready .incoming 0 4) ?_ (fun _ hd => hd)
  rintro r t ht ⟨hd, ⟨rfl, -⟩ | ⟨rfl, hbad⟩⟩
  swap
  · exact Holds.pure ht ⟨hd, .inr ⟨⟨_, rfl⟩, .inl (hbad.resolve_right (by decide))⟩⟩
  dsimp only
  split
  swap
  · next hmagic =>
    exact Holds.pure ht ⟨hd, .inr ⟨⟨_, rfl⟩, .inr fun info h => hmagic h.1.magic⟩⟩
  refine Holds.bind (SecureContainer.loadVerifiedInfo_holds ht key 0) ?_
    (fun _ hd' => hd'.trans hd)
  rw [hd]
  rintro r u hu ⟨hd', ⟨info, rfl, hauthentic⟩ | ⟨⟨status, rfl, -⟩, hbad⟩⟩
  · rcases sourceOf_holds m info with ⟨hsource, hmatches⟩ | ⟨hsource, hmatches⟩
    · exact Holds.pure hu ⟨hd', .inl ⟨info, hsource, hauthentic, hmatches⟩⟩
    · refine Holds.pure hu ⟨hd', .inr ⟨⟨_, hsource⟩, .inr fun info' h => hmatches ?_⟩⟩
      have hsame := hauthentic.unique h.1
      exact hsame ▸ h.2
  · exact Holds.pure hu ⟨hd', .inr ⟨⟨_, rfl⟩, hbad.imp_right fun hnot info h => hnot info h.1⟩⟩

omit [μ.Sound] in
theorem validateExternalSource_holds (hs : Env μ up s) (hup : μ.Usable up) (m : BootMetadata)
    {info : FirmwareContainer.Info}
    (hle : info.header.targetImageSize.toNat ≤ applicationMaxSize) :
    Holds μ up (validateExternalSource (candidateOf m info) s)
      (fun r d => d = s.device ∧
        (r = .ok ∧ VectorsValid info.header.targetImageSize.toNat (s.device.part .reconstructed) ∧
            Crc32.calculate (s.device.slice .reconstructed 0 info.header.targetImageSize.toNat) =
              info.extension.targetImageCrc32 ∨
          r ≠ .ok ∧ (μ.Faulty ∨ ¬ (VectorsValid info.header.targetImageSize.toNat
              (s.device.part .reconstructed) ∧
            Crc32.calculate (s.device.slice .reconstructed 0 info.header.targetImageSize.toNat) =
              info.extension.targetImageCrc32))))
      (fun d => d = s.device) := by
  have hmax : applicationMaxSize ≤ ExternalPartition.reconstructed.size := by decide
  refine Holds.bind (storageRead_holds hs hup .reconstructed 0 8) ?_ (fun _ hd => hd)
  rintro r t ht ⟨hd, ⟨rfl, -⟩ | ⟨rfl, hbad⟩⟩
  swap
  · exact Holds.pure ht ⟨hd, .inr ⟨by decide, .inl (hbad.resolve_right (by decide))⟩⟩
  rw [Device.slice_eq_window]
  dsimp only
  split
  · next hinvalid =>
    refine Holds.pure ht ⟨hd, .inr ⟨by decide, .inr fun h => hinvalid ?_⟩⟩
    exact FullImage.validateVector_eq_valid.2 h.1
  next hvalid =>
  have hvectors : VectorsValid info.header.targetImageSize.toNat (s.device.part .reconstructed) :=
    FullImage.validateVector_eq_valid.1 (not_not.1 hvalid)
  refine Holds.bind (calculateExternalCrc_holds (p := .reconstructed) ht hup (hle.trans hmax)) ?_
    (fun _ hd' => hd'.trans hd)
  rw [hd]
  rintro r u hu ⟨hd', rfl | ⟨rfl, hfaulty⟩⟩
  swap
  · exact Holds.pure hu ⟨hd', .inr ⟨by decide, .inl hfaulty⟩⟩
  dsimp only
  split
  · next hcrc => exact Holds.pure hu ⟨hd', .inr ⟨by decide, .inr fun h => hcrc h.2⟩⟩
  · next hcrc => exact Holds.pure hu ⟨hd', .inl ⟨rfl, hvectors, not_not.1 hcrc⟩⟩

/-! ## The backup -/

/-- The backup partition holds an image under a header that describes it. -/
structure BackupHolds (record : BackupImageRecord) (image : Nat → UInt8) (d : Device) : Prop where
  header : d.backupHeader = record
  valid : BackupImage.validate record = .valid
  crc : record.imageCrc32 = Crc32.calculate (window image 0 applicationMaxSize)
  image : ∀ i < applicationMaxSize, d.backupImage i = image i

omit [μ.Sound] in
theorem validateBackupImage_holds (hs : Env μ up s) (hup : μ.Usable up) {image : Nat → UInt8}
    {record : BackupImageRecord} (h : BackupHolds record image s.device) :
    Holds μ up (validateBackupImage s)
      (fun r d => d = s.device ∧ (r = .ok record ∨ (∃ status, r = .error status) ∧ μ.Faulty))
      (fun d => d = s.device) := by
  have himage : window s.device.backupImage 0 applicationMaxSize =
      window image 0 applicationMaxSize := by
    rw [window_eq_iff]
    simpa using h.image
  refine Holds.bind (loadHeader_holds hs hup) ?_ (fun _ hd => hd)
  rintro r t ht ⟨hd, ⟨rfl, -⟩ | ⟨⟨status, rfl⟩, hbad⟩⟩
  swap
  · refine Holds.pure ht ⟨hd, .inr ⟨⟨_, rfl⟩, hbad.resolve_right (not_not.2 ?_)⟩⟩
    rw [h.header, h.valid]
  refine Holds.bind (calculateBackupCrc_holds ht hup) ?_ (fun _ hd' => hd'.trans hd)
  rw [hd]
  rintro r u hu ⟨hd', rfl | ⟨rfl, hfaulty⟩⟩
  swap
  · exact Holds.pure hu ⟨hd', .inr ⟨⟨_, rfl⟩, hfaulty⟩⟩
  dsimp only
  rw [himage, h.header, if_neg (not_not.2 h.crc.symm)]
  exact Holds.pure hu ⟨hd', .inl rfl⟩

/-! ## Application pages -/

/-- The device with an application page replaced. -/
def withPage (d : Device) (pageOffset : Nat) (bytes : Nat → UInt8) : Device :=
  d.withInternal (applicationStartAddress + pageOffset) internalFlashPageSize bytes

theorem withPage_self {d : Device} {pageOffset : Nat} :
    withPage d pageOffset d.internal = d := by
  refine Device.ext (funext fun a => ?_) rfl rfl
  by_cases ha : applicationStartAddress + pageOffset ≤ a ∧
      a < applicationStartAddress + pageOffset + internalFlashPageSize
  · rw [withPage, Device.withInternal_inside ha]
  · rw [withPage, Device.withInternal_outside (by omega)]

/-- The bytes of an erased page after the first `n` bytes of a buffer were programmed. -/
def pageBytes (pageOffset : Nat) (buffer : List UInt8) (n : Nat) (a : Nat) : UInt8 :=
  if a - (applicationStartAddress + pageOffset) < n then
    buffer.getD (a - (applicationStartAddress + pageOffset)) 0xFF
  else 0xFF

theorem withPage_step {d : Device} {pageOffset i : Nat} {buffer : List UInt8}
    (hi : i + 2 ≤ internalFlashPageSize) :
    (withPage d pageOffset (pageBytes pageOffset buffer i)).withInternal
        (applicationStartAddress + pageOffset + i) 2
        (fun a => if a = applicationStartAddress + pageOffset + i then buffer.getD i 0xFF
          else buffer.getD (i + 1) 0xFF) =
      withPage d pageOffset (pageBytes pageOffset buffer (i + 2)) := by
  refine Device.ext (funext fun a => ?_) rfl rfl
  generalize hstart : applicationStartAddress + pageOffset = start
  unfold withPage
  rw [hstart]
  by_cases hhere : start + i ≤ a ∧ a < start + i + 2
  · rw [Device.withInternal_inside hhere, Device.withInternal_inside (by omega), pageBytes, hstart]
    rcases (by omega : a = start + i ∨ a = start + i + 1) with rfl | rfl
    · have hoffset : start + i - start = i := by omega
      rw [hoffset, if_pos rfl, if_pos (by omega)]
    · have hoffset : start + i + 1 - start = i + 1 := by omega
      rw [hoffset, if_neg (by omega), if_pos (by omega)]
  · rw [Device.withInternal_outside (by omega)]
    by_cases hpage : start ≤ a ∧ a < start + internalFlashPageSize
    · rw [Device.withInternal_inside hpage, Device.withInternal_inside hpage, pageBytes, pageBytes,
        hstart]
      by_cases hlow : a - start < i
      · rw [if_pos hlow, if_pos (by omega)]
      · rw [if_neg hlow, if_neg (by omega)]
    · rw [Device.withInternal_outside (by omega), Device.withInternal_outside (by omega)]

/-- The loop programs an erased page; a cut leaves some contents of the page. -/
theorem programHalfWords_holds (hs : Env μ up s) {pageOffset : Nat} {buffer : List UInt8}
    {d : Device} (hle : buffer.length ≤ internalFlashPageSize)
    (hd : s.device = withPage d pageOffset (pageBytes pageOffset buffer 0)) :
    Holds μ up (programHalfWords (applicationStartAddress + pageOffset) buffer s)
      (fun ok d' => ok = true ∧ ∃ n, buffer.length ≤ n ∧
        d' = withPage d pageOffset (pageBytes pageOffset buffer n))
      (fun d' => ∃ bytes, d' = withPage d pageOffset bytes) := by
  refine Holds.loopThen (I := fun i d' => i % 2 = 0 ∧ i ≤ buffer.length + 1 ∧
      d' = withPage d pageOffset (pageBytes pageOffset buffer i))
    (fun i => buffer.length - i) ?_ ?_ ?_ hs le_rfl ⟨rfl, Nat.zero_le _, hd⟩
  · intro i d' hguard _
    simp only [decide_eq_true_eq] at hguard
    omega
  · rintro i t ht hguard ⟨heven, -, hdev⟩
    simp only [decide_eq_true_eq] at hguard
    have hroom : i + 2 ≤ internalFlashPageSize := by
      unfold internalFlashPageSize at *
      omega
    have herased : ∀ j, i ≤ j → j < internalFlashPageSize →
        t.device.internal (applicationStartAddress + pageOffset + j) = 0xFF := by
      intro j hj hpage
      rw [hdev, withPage, Device.withInternal_inside (by omega), pageBytes, Nat.add_sub_cancel_left,
        if_neg (by omega)]
    refine Holds.bind (programHalfWord_holds ht _ _ (herased i le_rfl (by omega))
      (herased (i + 1) (by omega) (by omega))) ?_ ?_
    · rintro complete u hu ⟨rfl, hdone⟩
      refine Holds.pure hu ⟨⟨by omega, by omega, ?_⟩, by omega⟩
      rw [hdone, hdev, withPage_step hroom]
    · rintro d' rfl
      exact ⟨_, hdev⟩
  · rintro i t ht hguard ⟨-, -, hdev⟩
    simp only [decide_eq_false_iff_not, not_lt] at hguard
    exact Holds.pure ht ⟨rfl, i, hguard, hdev⟩

/-- A programmed page holds the buffer and is erased behind it. -/
theorem programBufferedApplicationPage_holds (hs : Env μ up s) (pageOffset : Nat)
    {buffer : List UInt8} (hle : buffer.length ≤ internalFlashPageSize) :
    Holds μ up (programBufferedApplicationPage pageOffset buffer s)
      (fun r d => r = .ok ∧ d = withPage s.device pageOffset
        fun a => buffer.getD (a - (applicationStartAddress + pageOffset)) 0xFF)
      (fun d => ∃ bytes, d = withPage s.device pageOffset bytes) := by
  refine Holds.bind (erasePage_holds hs _) ?_ ?_
  swap
  · rintro d rfl
    exact ⟨s.device.internal, withPage_self.symm⟩
  rintro erased t ht ⟨rfl, hd⟩
  have hpage : t.device = withPage s.device pageOffset (pageBytes pageOffset buffer 0) := by
    rw [hd, withPage]
    congr 1
  refine Holds.bind (programHalfWords_holds ht hle hpage) ?_ (fun _ h => h)
  rintro ok u hu ⟨rfl, n, hn, hdev⟩
  have hfinal : u.device = withPage s.device pageOffset
      fun a => buffer.getD (a - (applicationStartAddress + pageOffset)) 0xFF := by
    rw [hdev]
    congr 1
    funext a
    rw [pageBytes]
    split
    · rfl
    · next hge => rw [List.getD_eq_default _ _ (by omega)]
  refine Holds.read_bind ?_
  have hverified : window u.device.internal (applicationStartAddress + pageOffset) buffer.length =
      buffer := by
    refine window_eq_list_iff.2 fun i hi => ?_
    rw [hfinal, withPage, Device.withInternal_inside (by omega), Nat.add_sub_cancel_left,
      List.getD_eq_getElem _ _ hi, List.getD_eq_getElem _ _ hi]
  rw [if_neg (not_not.2 hverified)]
  exact Holds.pure hu ⟨rfl, hfinal⟩

/-! ## Verification and commits -/

omit [μ.Sound] in
theorem verifyApplication_holds (hs : Env μ up s) {imageSize : Nat} {imageCrc32 : UInt32}
    (crcFailure vectorFailure : ImageInstallerStatus)
    (hcrc : Crc32.calculate (window s.device.app 0 imageSize) = imageCrc32)
    (hvectors : VectorsValid imageSize s.device.app) :
    Holds μ up (verifyApplication imageSize imageCrc32 crcFailure vectorFailure s)
      (fun r d => d = s.device ∧ r = .ok) (fun d => d = s.device) := by
  refine Holds.bind (calculateInternalCrc_holds hs imageSize) ?_ (fun _ hd => hd)
  rintro crc t ht ⟨hd, rfl⟩
  rw [if_neg (not_not.2 hcrc)]
  refine Holds.read ht ⟨hd, ?_⟩
  rw [hd]
  obtain ⟨hstack, hreset⟩ := s.device.internalWord_app
  have hvalid : FullImage.validateVector imageSize
      (s.device.internalWord applicationStartAddress)
      (s.device.internalWord (applicationStartAddress + 4)) = .valid := by
    rw [hstack, hreset]
    exact FullImage.validateVector_eq_valid.2 hvectors
  obtain ⟨vector, hjump⟩ := (applicationJump_validate s.device).2 hvectors.weaken
  rw [if_neg (not_not.2 hvalid), hjump]

/-- What a commit of the installer does with an acceptable record. -/
theorem commitMetadata_holds (hs : Env μ up s) {m : BootMetadata} (h : m.Acceptable) :
    Holds μ up (commitMetadata m s)
      (fun r d => ∃ c, r = (true, c) ∧ c.Stores m ∧ MetadataStorage.Persisted d c ∧
        MetadataStorage.MetadataFrame s.device d)
      (fun d => MetadataStorage.MetadataFrame s.device d ∧
        (MetadataStorage.persisted d = MetadataStorage.persisted s.device ∨
          μ.atomicCommit = false ∧ ∃ c, MetadataStorage.Persisted d c ∧ c.Agrees m)) := by
  refine Holds.bind (MetadataStorage.commit_holds hs h) ?_ (fun d hd => ⟨hd.1, hd.2.2⟩)
  rintro r t ht ⟨c, rfl, hstores, hpersisted, hframe, -⟩
  exact Holds.pure ht ⟨c, rfl, hstores, hpersisted, hframe⟩

theorem commitOr_holds (hs : Env μ up s) (status : ImageInstallerStatus) {m : BootMetadata}
    (h : m.Acceptable) :
    Holds μ up (commitOr status m s)
      (fun r d => ∃ c, r = (.ok, c) ∧ c.Stores m ∧ MetadataStorage.Persisted d c ∧
        MetadataStorage.MetadataFrame s.device d)
      (fun d => MetadataStorage.MetadataFrame s.device d ∧
        (MetadataStorage.persisted d = MetadataStorage.persisted s.device ∨
          μ.atomicCommit = false ∧ ∃ c, MetadataStorage.Persisted d c ∧ c.Agrees m)) := by
  refine Holds.bind (commitMetadata_holds hs h) ?_ (fun _ hd => hd)
  rintro r t ht ⟨c, rfl, hrest⟩
  exact Holds.pure ht ⟨c, rfl, hrest⟩

/-! ## Loading pages -/

omit [μ.Sound] in
theorem loadCandidatePage_holds (hs : Env μ up s) (hup : μ.Usable up) {source : CandidateSource}
    {pageOffset : Nat} (hsource : source.partition = .reconstructed)
    (hvalid : InstallProgress.validate source.imageSize.toNat pageOffset = .valid)
    (hlt : pageOffset < source.imageSize.toNat) :
    Holds μ up (loadCandidatePage source pageOffset s)
      (fun r d => d = s.device ∧
        (r = .ok (s.device.slice .reconstructed pageOffset
            (min internalFlashPageSize (source.imageSize.toNat - pageOffset))) ∨
          r = .error .sourceReadFailed ∧ μ.Faulty))
      (fun d => d = s.device) := by
  have hlength := InstallProgress.pageLength_eq hvalid hlt
  have hpage : 0 < internalFlashPageSize := by decide
  have hmax : applicationMaxSize ≤ ExternalPartition.reconstructed.size := by decide
  have hsize := (InstallProgress.validate_eq_valid.1 hvalid).2.1
  unfold loadCandidatePage
  rw [hlength, if_neg (by omega), hsource]
  refine Holds.bind (storageRead_holds hs hup .reconstructed pageOffset _) ?_ (fun _ hd => hd)
  rintro r t ht ⟨hd, ⟨rfl, -⟩ | ⟨rfl, hbad⟩⟩
  · exact Holds.pure ht ⟨hd, .inl rfl⟩
  · exact Holds.pure ht ⟨hd, .inr ⟨rfl, hbad.resolve_right (by omega)⟩⟩

omit [μ.Sound] in
theorem loadBackupPage_holds (hs : Env μ up s) (hup : μ.Usable up) {pageOffset : Nat}
    (hvalid : InstallProgress.validate applicationMaxSize pageOffset = .valid)
    (hlt : pageOffset < applicationMaxSize) :
    Holds μ up (loadBackupPage pageOffset s)
      (fun r d => d = s.device ∧
        (r = .ok (window s.device.backupImage pageOffset
            (min internalFlashPageSize (applicationMaxSize - pageOffset))) ∨
          r = .error .rollbackReadFailed ∧ μ.Faulty))
      (fun d => d = s.device) := by
  have hlength := InstallProgress.pageLength_eq hvalid hlt
  have hpage : 0 < internalFlashPageSize := by decide
  unfold loadBackupPage
  rw [hlength, if_neg (by omega)]
  refine Holds.bind (backupRead_holds hs hup (by omega)) ?_ (fun _ hd => hd)
  rintro r t ht ⟨hd, rfl | ⟨rfl, hfaulty⟩⟩
  · exact Holds.pure ht ⟨hd, .inl rfl⟩
  · exact Holds.pure ht ⟨hd, .inr ⟨rfl, hfaulty⟩⟩

/-! ## Backup sectors -/

/-- Outside the backup sector at an offset of the image nothing changes. -/
abbrev BackupSectorFrame (offset : Nat) : Device → Device → Prop :=
  OutsideFrame (ExternalPartition.backup.address + (BackupImage.dataOffset + offset))
    (ExternalPartition.backup.address + (BackupImage.dataOffset + offset) + extFlashSectorSize)

theorem copyActiveImageToBackupChunk_keeps {R : Device → Device → Prop} [IsPreorder Device R]
    {offset length : Nat} (hle : length ≤ extFlashSectorSize)
    (h : Allows R (ExternalPartition.backup.address + (BackupImage.dataOffset + offset))
      (ExternalPartition.backup.address + (BackupImage.dataOffset + offset) +
        extFlashSectorSize)) :
    Keeps R (copyActiveImageToBackupChunk offset length) := by
  refine Keeps.bind (backupEraseSector_keeps h) fun _ =>
    Keeps.ite (Keeps.pure _) (Keeps.loopThen (fun copied hguard => ?_) (fun _ => Keeps.pure _) _ _)
  simp only [decide_eq_true_eq] at hguard
  intro s
  -- the buffer has the length of the chunk, so the write stays in the sector
  have hwrite : ∀ buffer : List UInt8, copied + buffer.length ≤ length →
      Keeps R (BackupImageStorage.write (offset + copied) buffer) :=
    fun buffer hbuffer => backupWrite_keeps (h.mono (by omega) (by omega))
  have hlength : (window s.device.internal (applicationStartAddress + (offset + copied))
      (min (length - copied) internalFlashPageSize)).length =
        min (length - copied) internalFlashPageSize := window_length _ _ _
  have hbuffer := hwrite _ (by rw [hlength]; omega)
  exact Keeps.bind hbuffer (fun _ => Keeps.ite (Keeps.pure _)
    (Keeps.bind (backupVerify_keeps _ _) fun _ => Keeps.ite (Keeps.pure _) (Keeps.pure _))) s

/-- The statuses of a backup chunk that could not be written. -/
def backupFailures : List ImageInstallerStatus :=
  [.backupEraseFailed, .backupWriteFailed, .backupVerifyFailed]

omit [μ.Sound] in
theorem copyActiveImageToBackupChunk_holds (hs : Env μ up s) (hup : μ.Usable up)
    {offset length : Nat} (hlt : offset < applicationMaxSize)
    (haligned : offset % extFlashSectorSize = 0) (hle : length ≤ extFlashSectorSize)
    (hrange : offset + length ≤ applicationMaxSize) :
    Holds μ up (copyActiveImageToBackupChunk offset length s)
      (fun r d => r = .ok ∧
          (∀ i < length, d.backupImage (offset + i) = s.device.app (offset + i)) ∨
        r ∈ backupFailures ∧ μ.Faulty)
      (fun _ => True) := by
  refine Holds.bind ((backupEraseSector_holds hs hup hlt haligned).and_keeps
    (backupEraseSector_keeps (R := BackupSectorFrame offset) (allows_outsideFrame le_rfl le_rfl)))
    ?_ (fun _ _ => trivial)
  rintro ok t ht ⟨⟨rfl, herased⟩ | ⟨rfl, hfaulty⟩, hframe⟩
  swap
  · exact Holds.pure ht (.inr ⟨by decide, hfaulty⟩)
  have hpage : 0 < internalFlashPageSize := by decide
  refine Holds.loopThen (I := fun copied d => copied ≤ length ∧
      (∀ a, d.internal a = s.device.internal a) ∧
      (∀ i < copied, d.backupImage (offset + i) = s.device.app (offset + i)) ∧
      ∀ i, copied ≤ i → i < extFlashSectorSize → d.backupImage (offset + i) = 0xFF)
    (fun copied => length - copied) ?_ ?_ ?_ ht le_rfl
    ⟨Nat.zero_le _, fun a => hframe.internal a trivial, by simp, fun i _ hi => herased i hi⟩
  · intro copied d hguard _
    simp only [decide_eq_true_eq] at hguard
    omega
  · rintro copied u hu hguard ⟨hcopied, hinternal, hbelow, habove⟩
    simp only [decide_eq_true_eq] at hguard
    refine Holds.read_bind ?_
    rw [Device.internal_window]
    generalize hchunk : min (length - copied) internalFlashPageSize = chunk
    have hbuffer : (window u.device.app (offset + copied) chunk).length = chunk :=
      window_length _ _ _
    refine Holds.bind ((backupWrite_holds hu hup (by omega) ?_).and_keeps
      (backupWrite_keeps (allows_outsideFrame le_rfl le_rfl))) ?_ (fun _ _ => trivial)
    · intro i hi
      rw [Nat.add_assoc]
      exact habove _ (by omega) (by omega)
    rintro ok v hv ⟨⟨rfl, hwritten⟩ | ⟨rfl, hfaulty⟩, hwrite⟩
    swap
    · exact Holds.pure hv (.inr ⟨by decide, hfaulty⟩)
    rw [hbuffer] at hwritten hwrite
    refine Holds.bind (backupVerify_holds hv hup (by omega)) ?_ (fun _ _ => trivial)
    rintro ok w hw ⟨hd, ⟨rfl, -⟩ | ⟨rfl, hbad⟩⟩
    swap
    · refine Holds.pure hw (.inr ⟨by decide, hbad.resolve_right (not_not.2 ?_)⟩)
      rw [hbuffer, hwritten]
    rw [window_eq_iff] at hwritten
    have houtside : ∀ i, i < copied ∨ copied + chunk ≤ i →
        v.device.backupImage (offset + i) = u.device.backupImage (offset + i) := by
      intro i hi
      refine hwrite.external _ ?_
      omega
    refine Holds.pure hw ⟨⟨by omega, ?_, ?_, ?_⟩, by omega⟩
    · intro a
      rw [hd, hwrite.internal a trivial, hinternal a]
    · intro i hi
      rw [hd]
      rcases Nat.lt_or_ge i copied with hlow | hhigh
      · rw [houtside i (.inl hlow), hbelow i hlow]
      · have hbyte := hwritten (i - copied) (by omega)
        rw [show offset + copied + (i - copied) = offset + i by omega] at hbyte
        rw [hbyte, Device.app, hinternal]
        rfl
    · intro i hlow hhigh
      rw [hd, houtside i (.inr hlow)]
      exact habove i (by omega) hhigh
  · rintro copied u hu hguard ⟨hcopied, -, hbelow, -⟩
    simp only [decide_eq_false_iff_not, not_lt] at hguard
    exact Holds.pure hu (.inl ⟨rfl, fun i hi => hbelow i (by omega)⟩)

end Specs

end ImageInstaller

end SecureDeltaOta
