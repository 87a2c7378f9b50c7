import SecureDeltaOta.Boot.InstallerPages

/-!
# Checkpointed copies

A copy persists its progress after each page, so whatever interrupts it, the
pages below the persisted offset are in place and the next run starts with the
first page that may not be. The installation and the rollback are the same loop
over different images.
-/

namespace SecureDeltaOta

open Memory Crash MetadataStorage

namespace ImageInstaller

/-- The end of the last page an image of some size uses. -/
def pageEnd (imageSize : Nat) : Nat :=
  (imageSize + internalFlashPageSize - 1) / internalFlashPageSize * internalFlashPageSize

/-- The first `offset` bytes of an image are in place, and a complete copy fills its last page. -/
structure Copied (image : Nat → UInt8) (imageSize offset : Nat) (app : Nat → UInt8) : Prop where
  image : ∀ i < offset, app i = image i
  padding : offset = imageSize → ∀ i, imageSize ≤ i → i < pageEnd imageSize → app i = 0xFF

/-- What the pages of an image hold at an address: its bytes, and erased flash behind them. -/
def pageOf (image : Nat → UInt8) (imageSize : Nat) (a : Nat) : UInt8 :=
  if a - applicationStartAddress < imageSize then image (a - applicationStartAddress) else 0xFF

section Pages

variable {d : Device} {pageOffset imageSize : Nat} {bytes : Nat → UInt8}

theorem withPage_app {i : Nat} :
    (withPage d pageOffset bytes).app i =
      if pageOffset ≤ i ∧ i < pageOffset + internalFlashPageSize then
        bytes (applicationStartAddress + i)
      else d.app i := by
  unfold withPage Device.app
  split
  · exact Device.withInternal_inside (by omega)
  · exact Device.withInternal_outside (by omega)

theorem withPage_congr {bytes' : Nat → UInt8}
    (h : ∀ i < internalFlashPageSize, bytes' (applicationStartAddress + pageOffset + i) =
      bytes (applicationStartAddress + pageOffset + i)) :
    withPage d pageOffset bytes' = withPage d pageOffset bytes := by
  refine Device.ext (funext fun a => ?_) rfl rfl
  unfold withPage
  by_cases ha : applicationStartAddress + pageOffset ≤ a ∧
      a < applicationStartAddress + pageOffset + internalFlashPageSize
  · obtain ⟨i, rfl⟩ := Nat.exists_eq_add_of_le ha.1
    rw [Device.withInternal_inside ha, Device.withInternal_inside ha]
    exact h i (by omega)
  · rw [Device.withInternal_outside (by omega), Device.withInternal_outside (by omega)]

/-- A page programmed from the bytes of an image at its offset is the page of that image. -/
theorem withPage_buffer {image : Nat → UInt8} (hlt : pageOffset < imageSize) :
    withPage d pageOffset (fun a => (window image pageOffset
        (min internalFlashPageSize (imageSize - pageOffset))).getD
          (a - (applicationStartAddress + pageOffset)) 0xFF) =
      withPage d pageOffset (pageOf image imageSize) := by
  refine withPage_congr fun i hi => ?_
  rw [Nat.add_sub_cancel_left, pageOf, Nat.add_assoc, Nat.add_sub_cancel_left]
  split
  · rw [window_getD (by omega)]
  · rw [List.getD_eq_default _ _ (by rw [window_length]; omega)]

/-- A page at a place to resume lies in the application region. -/
theorem page_in_region (hvalid : InstallProgress.validate imageSize pageOffset = .valid)
    (hlt : pageOffset < imageSize) :
    pageOffset % internalFlashPageSize = 0 ∧
      pageOffset + internalFlashPageSize ≤ applicationMaxSize ∧
      pageOffset + internalFlashPageSize ≤ pageEnd imageSize := by
  rw [InstallProgress.validate_eq_valid] at hvalid
  unfold pageEnd applicationMaxSize internalFlashPageSize at *
  omega

theorem persisted_withPage (h : pageOffset + internalFlashPageSize ≤ applicationMaxSize) :
    persisted (withPage d pageOffset bytes) = persisted d := by
  refine persisted_congr fun a ha => Device.withInternal_outside ?_
  have hend : applicationStartAddress + applicationMaxSize = bootMetadataAAddress := rfl
  unfold Page at ha
  omega

/-- Programming the next page extends the copy to the next checkpoint. -/
theorem Copied.step {image : Nat → UInt8}
    (hvalid : InstallProgress.validate imageSize pageOffset = .valid) (hlt : pageOffset < imageSize)
    (h : Copied image imageSize pageOffset d.app) :
    Copied image imageSize (InstallProgress.nextCheckpoint imageSize pageOffset)
      (withPage d pageOffset (pageOf image imageSize)).app := by
  obtain ⟨haligned, -, -⟩ := page_in_region hvalid hlt
  have hnext := InstallProgress.nextCheckpoint_eq hvalid hlt
  constructor
  · intro i hi
    rw [hnext] at hi
    rw [withPage_app]
    split
    · rw [pageOf, Nat.add_sub_cancel_left, if_pos (by omega)]
    · exact h.image i (by omega)
  · intro hend i hlow hhigh
    rw [hnext] at hend
    have hpage : pageOffset ≤ i ∧ i < pageOffset + internalFlashPageSize := by
      unfold pageEnd internalFlashPageSize at *
      omega
    rw [withPage_app, if_pos hpage, pageOf, Nat.add_sub_cancel_left, if_neg (by omega)]

/-- A page that is being programmed lies above the copied part. -/
theorem Copied.interrupted {image : Nat → UInt8} (hlt : pageOffset < imageSize)
    (h : Copied image imageSize pageOffset d.app) :
    Copied image imageSize pageOffset (withPage d pageOffset bytes).app := by
  refine ⟨fun i hi => ?_, fun hend => by omega⟩
  rw [withPage_app, if_neg (by omega)]
  exact h.image i hi

theorem Copied.congr {image app app' : Nat → UInt8} {offset : Nat}
    (h : Copied image imageSize offset app) (hsame : ∀ i < applicationMaxSize, app' i = app i)
    (hvalid : InstallProgress.validate imageSize offset = .valid) :
    Copied image imageSize offset app' := by
  rw [InstallProgress.validate_eq_valid] at hvalid
  have hend : pageEnd imageSize ≤ applicationMaxSize := by
    unfold pageEnd applicationMaxSize internalFlashPageSize at *
    omega
  refine ⟨fun i hi => (hsame i (by omega)).trans (h.image i hi), fun hfull i hlow hhigh => ?_⟩
  exact (hsame i (by omega)).trans (h.padding hfull i hlow hhigh)

end Pages

/-- The application region is outside the metadata pages. -/
theorem MetadataFrame.app {external : Nat → Prop} {d d' : Device}
    (h : Frame (fun a => ¬ Page a) external d d') {i : Nat}
    (hi : i < applicationMaxSize) : d'.app i = d.app i := by
  refine h.internal _ ?_
  have hend : applicationStartAddress + applicationMaxSize = bootMetadataAAddress := rfl
  unfold Page
  omega

theorem MetadataFrame.part {d d' : Device} (h : MetadataFrame d d') (p : ExternalPartition)
    (i : Nat) : d'.part p i = d.part p i :=
  h.external _ trivial

/-! ## The loop -/

section Loop

variable {μ : Mode} [μ.Sound] {up : Bool} {s : Machine} {image : Nat → UInt8} {imageSize : Nat}
  {programPage : Nat → Prog Machine ImageInstallerStatus}
  {checkpoint : BootMetadata → BootMetadata} {Ctx : Device → Prop} {Rec : BootMetadata → Prop}

/-- How far a copy has come. -/
structure CopyAt (image : Nat → UInt8) (imageSize : Nat) (Ctx : Device → Prop)
    (Rec : BootMetadata → Prop) (c : BootMetadata) (d : Device) : Prop where
  record : Rec c
  persisted : Persisted d c
  context : Ctx d
  progress : InstallProgress.validate imageSize c.copyOffset.toNat = .valid
  copied : Copied image imageSize c.copyOffset.toNat d.app

/-- What the record and the rest of the device have to satisfy for a copy to be resumable. -/
structure Resumable (μ : Mode) (imageSize : Nat) (checkpoint : BootMetadata → BootMetadata)
    (Ctx : Device → Prop) (Rec : BootMetadata → Prop) : Prop where
  page : ∀ {d offset bytes}, Ctx d → offset + internalFlashPageSize ≤ pageEnd imageSize →
    Ctx (withPage d offset bytes)
  commit : ∀ {d d'}, Ctx d → MetadataFrame d d' → Ctx d'
  offset : ∀ c, (checkpoint c).copyOffset = c.copyOffset
  acceptable : ∀ {c offset}, Rec c → c.Valid → InstallProgress.validate imageSize offset = .valid →
    (checkpoint { c with copyOffset := UInt32.ofNat offset }).Acceptable
  done : ∀ {c c' offset}, Rec c → c.Valid →
    c'.Stores (checkpoint { c with copyOffset := offset }) → Rec c'
  torn : ∀ {c c' offset}, μ.atomicCommit = false → Rec c → c.Valid →
    c'.Agrees (checkpoint { c with copyOffset := offset }) → Rec c'

theorem toNat_ofNat_of_backupProgress {offset : Nat}
    (h : BackupProgress.validate offset = .valid) : (UInt32.ofNat offset).toNat = offset := by
  rw [BackupProgress.validate_eq_valid] at h
  refine UInt32.toNat_ofNat_of_lt' ?_
  unfold applicationMaxSize at h
  have hsize : UInt32.size = 4294967296 := rfl
  omega

theorem toNat_ofNat_of_progress {offset : Nat}
    (h : InstallProgress.validate imageSize offset = .valid) :
    (UInt32.ofNat offset).toNat = offset := by
  rw [InstallProgress.validate_eq_valid] at h
  refine UInt32.toNat_ofNat_of_lt' ?_
  unfold applicationMaxSize at h
  have hsize : UInt32.size = 4294967296 := rfl
  omega

/-- Copying from a checkpoint completes; interrupted, it is at some checkpoint. -/
theorem resumeCopy_holds (hs : Env μ up s) {m : BootMetadata}
    (hresume : Resumable μ imageSize checkpoint Ctx Rec)
    (hprogram : ∀ t offset, Env μ up t → Ctx t.device →
      InstallProgress.validate imageSize offset = .valid → offset < imageSize →
      Holds μ up (programPage offset t)
        (fun r d => r = .ok ∧ d = withPage t.device offset (pageOf image imageSize))
        (fun d => ∃ bytes, d = withPage t.device offset bytes))
    (h : CopyAt image imageSize Ctx Rec m s.device) :
    Holds μ up (resumeCopy imageSize programPage checkpoint m s)
      (fun r d => ∃ c, r = (.ok, c) ∧ CopyAt image imageSize Ctx Rec c d ∧
        c.copyOffset.toNat = imageSize)
      (fun d => ∃ c, CopyAt image imageSize Ctx Rec c d) := by
  unfold resumeCopy
  rw [if_neg (not_not.2 h.progress)]
  refine Holds.loopThen (I := fun c d => CopyAt image imageSize Ctx Rec c d)
    (fun c => imageSize - c.copyOffset.toNat) ?_ ?_ ?_ hs (Nat.sub_le _ _) h
  · intro c d hguard _
    simp only [decide_eq_true_eq] at hguard
    omega
  · intro c t ht hguard hc
    simp only [decide_eq_true_eq] at hguard
    obtain ⟨-, hregion, hpage⟩ := page_in_region hc.progress hguard
    refine Holds.bind (hprogram t _ ht hc.context hc.progress hguard) ?_ ?_
    swap
    · rintro d ⟨bytes, rfl⟩
      exact ⟨c, hc.record, (persisted_withPage hregion).trans hc.persisted,
        hresume.page hc.context hpage, hc.progress, hc.copied.interrupted hguard⟩
    rintro r u hu ⟨rfl, hd⟩
    have hold : Persisted u.device c := by
      rw [hd]
      exact (persisted_withPage hregion).trans hc.persisted
    have hcontext : Ctx u.device := by
      rw [hd]
      exact hresume.page hc.context hpage
    have hcopied := hc.copied.step hc.progress hguard
    rw [← hd] at hcopied
    have hnext := InstallProgress.validate_nextCheckpoint hc.progress hguard
    have hoffset := toNat_ofNat_of_progress hnext
    rw [if_neg (not_not.2 rfl)]
    have hacceptable := hresume.acceptable hc.record hc.persisted.valid hnext
    -- what a record that agrees with the checkpoint says about the copy
    have hafter : ∀ c' d, MetadataFrame u.device d → Persisted d c' → Rec c' →
        c'.copyOffset =
          UInt32.ofNat (InstallProgress.nextCheckpoint imageSize c.copyOffset.toNat) →
        c'.copyOffset.toNat = InstallProgress.nextCheckpoint imageSize c.copyOffset.toNat ∧
          CopyAt image imageSize Ctx Rec c' d := by
      intro c' d hframe hpersisted hrecord hcopy
      have hnat : c'.copyOffset.toNat =
          InstallProgress.nextCheckpoint imageSize c.copyOffset.toNat := by
        rw [hcopy, hoffset]
      refine ⟨hnat, hrecord, hpersisted, hresume.commit hcontext hframe, ?_, ?_⟩
      · rw [hnat]
        exact hnext
      · rw [hnat]
        exact hcopied.congr (fun i hi => MetadataFrame.app hframe hi) hnext
    refine Holds.bind (commitOr_holds hu _ hacceptable) ?_ ?_
    · rintro r v hv ⟨c', rfl, hstores, hpersisted, hframe⟩
      obtain ⟨hnat, hat⟩ := hafter c' _ hframe hpersisted
        (hresume.done hc.record hc.persisted.valid hstores)
        (hstores.copyOffset.trans (hresume.offset _))
      have hprogress := InstallProgress.nextCheckpoint_eq hc.progress hguard
      have hpositive : 0 < internalFlashPageSize := by decide
      exact Holds.pure hv ⟨hat, by omega⟩
    · rintro d ⟨hframe, hsame | ⟨hatomic, c', hpersisted, hagrees⟩⟩
      · refine ⟨c, hc.record, hsame.trans hold, hresume.commit hcontext hframe, hc.progress, ?_⟩
        refine Copied.congr ?_ (fun i hi => MetadataFrame.app hframe hi) hc.progress
        rw [hd]
        exact hc.copied.interrupted hguard
      · exact ⟨c', (hafter c' d hframe hpersisted
          (hresume.torn hatomic hc.record hc.persisted.valid hagrees)
          (hagrees.copyOffset.trans (hresume.offset _))).2⟩
  · intro c t ht hguard hc
    simp only [decide_eq_false_iff_not, not_lt] at hguard
    have hle := (InstallProgress.validate_eq_valid.1 hc.progress).2.2.1
    exact Holds.pure ht ⟨c, rfl, hc, by omega⟩

/-- Programming a page that was loaded from an image. -/
theorem programAndVerifyPage_holds {load : Prog Machine (Except ImageInstallerStatus (List UInt8))}
    {pageOffset : Nat} {failure : ImageInstallerStatus} (hfault : ¬ μ.Faulty) (hlt : pageOffset < imageSize)
    (hload : Holds μ up (load s)
      (fun r d => d = s.device ∧ (r = .ok (window image pageOffset
          (min internalFlashPageSize (imageSize - pageOffset))) ∨
        r = .error failure ∧ μ.Faulty))
      (fun d => d = s.device)) :
    Holds μ up (programAndVerifyPage load pageOffset s)
      (fun r d => r = .ok ∧ d = withPage s.device pageOffset (pageOf image imageSize))
      (fun d => ∃ bytes, d = withPage s.device pageOffset bytes) := by
  refine Holds.bind hload ?_ (fun d hd => ⟨_, hd.trans withPage_self.symm⟩)
  rintro r t ht ⟨hd, rfl | ⟨-, hfaulty⟩⟩
  swap
  · exact absurd hfaulty hfault
  refine (programBufferedApplicationPage_holds ht pageOffset
    (by rw [window_length]; omega)).mono ?_ ?_
  · rintro r d ⟨rfl, rfl⟩
    rw [withPage_buffer hlt, hd]
    exact ⟨rfl, rfl⟩
  · rintro d ⟨bytes, rfl⟩
    exact ⟨bytes, by rw [hd]⟩

theorem programAndVerifyCandidatePage_holds (hs : Env μ up s) (hup : μ.Usable up)
    (hfault : ¬ μ.Faulty) {source : CandidateSource} {pageOffset : Nat}
    (hsource : source.partition = .reconstructed)
    (himage : ∀ i < source.imageSize.toNat, s.device.part .reconstructed i = image i)
    (hvalid : InstallProgress.validate source.imageSize.toNat pageOffset = .valid)
    (hlt : pageOffset < source.imageSize.toNat) :
    Holds μ up (programAndVerifyCandidatePage source pageOffset s)
      (fun r d => r = .ok ∧
        d = withPage s.device pageOffset (pageOf image source.imageSize.toNat))
      (fun d => ∃ bytes, d = withPage s.device pageOffset bytes) := by
  have hbuffer : s.device.slice .reconstructed pageOffset
      (min internalFlashPageSize (source.imageSize.toNat - pageOffset)) =
      window image pageOffset (min internalFlashPageSize (source.imageSize.toNat - pageOffset)) := by
    rw [Device.slice_eq_window, window_eq_iff]
    exact fun i hi => himage _ (by omega)
  have hload := loadCandidatePage_holds hs hup hsource hvalid hlt
  rw [hbuffer] at hload
  exact programAndVerifyPage_holds hfault hlt hload

theorem programAndVerifyBackupPage_holds (hs : Env μ up s) (hup : μ.Usable up)
    (hfault : ¬ μ.Faulty) {pageOffset : Nat}
    (himage : ∀ i < applicationMaxSize, s.device.backupImage i = image i)
    (hvalid : InstallProgress.validate applicationMaxSize pageOffset = .valid)
    (hlt : pageOffset < applicationMaxSize) :
    Holds μ up (programAndVerifyBackupPage pageOffset s)
      (fun r d => r = .ok ∧ d = withPage s.device pageOffset (pageOf image applicationMaxSize))
      (fun d => ∃ bytes, d = withPage s.device pageOffset bytes) := by
  have hbuffer : window s.device.backupImage pageOffset
      (min internalFlashPageSize (applicationMaxSize - pageOffset)) =
      window image pageOffset (min internalFlashPageSize (applicationMaxSize - pageOffset)) := by
    rw [window_eq_iff]
    exact fun i hi => himage _ (by omega)
  have hload := loadBackupPage_holds hs hup hvalid hlt
  rw [hbuffer] at hload
  exact programAndVerifyPage_holds hfault hlt hload

end Loop

end ImageInstaller

end SecureDeltaOta
