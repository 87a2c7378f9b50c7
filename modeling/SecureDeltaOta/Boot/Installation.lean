import SecureDeltaOta.Boot.Rollback

/-!
# An installation

An installation is fixed by the container, the image it describes and the
application it replaces. Its states, from a verified image to the trial, say how
much of the backup and of the new application is in place. Every run of the
installer moves along these states, and so does every interrupted run.
-/

namespace SecureDeltaOta

open Memory Crash MetadataStorage

namespace ImageInstaller

open BootMetadata (SameUpdate)
open FirmwareContainer (Info WellFormed)

/-- What is fixed while an update is installed. -/
structure Installation where
  key : TrustedKey
  info : Info
  /-- The application region before the update. -/
  base : Nat → UInt8
  /-- The image to install. -/
  target : Nat → UInt8
  /-- A record of the update. -/
  record : BootMetadata
  wellFormed : WellFormed info.header info.extension
  pendingVersion : record.pendingVersion = info.header.targetVersion
  activeUpdateId : record.activeUpdateId ≠ 0
  receivedSize : record.receivedSize = info.header.targetImageSize
  expectedSize : record.expectedSize = info.header.targetImageSize
  baseVersion : info.header.imageType = FirmwareContainer.imageDelta →
    record.activeVersion = info.header.baseVersion
  vectors : VectorsValid info.header.targetImageSize.toNat target
  crc : Crc32.calculate (window target 0 info.header.targetImageSize.toNat) =
    info.extension.targetImageCrc32

namespace Installation

variable (I : Installation)

/-- The size of the image. -/
def size : Nat := I.info.header.targetImageSize.toNat

/-- The header of the backup of the replaced application. -/
def backup : BackupImageRecord :=
  BackupImage.finalize (BackupImage.init I.record.activeVersion
    (Crc32.calculate (window I.base 0 applicationMaxSize)))

theorem size_ge : 8 ≤ I.size := I.wellFormed.targetSize_ge

theorem size_le : I.size ≤ applicationMaxSize := I.wellFormed.targetSize_le

theorem backup_valid (h : I.record.activeVersion ≠ 0) : BackupImage.validate I.backup = .valid :=
  BackupImage.validate_finalize_init h

variable {I}

theorem complete {c : BootMetadata} (h : SameUpdate c I.record) : c.Complete := by
  refine ⟨?_, ?_, ?_⟩
  · rw [h.activeUpdateId]
    exact I.activeUpdateId
  · rw [h.expectedSize, I.expectedSize]
    intro hzero
    have hge := I.size_ge
    rw [size, hzero] at hge
    exact absurd hge (by decide)
  · rw [h.receivedSize, h.expectedSize, I.receivedSize, I.expectedSize]

theorem pending_ne_zero {c : BootMetadata} (h : SameUpdate c I.record) : c.pendingVersion ≠ 0 := by
  rw [h.pendingVersion, I.pendingVersion]
  exact I.wellFormed.targetVersion

theorem expected_eq {c : BootMetadata} (h : SameUpdate c I.record) :
    c.expectedSize.toNat = I.size := by
  rw [h.expectedSize, I.expectedSize, size]

/-- A record about this update with consistent fields may be committed. -/
theorem acceptable (st : UpdateState) {c : BootMetadata} (h : SameUpdate c I.record)
    (hstate : c.state = st.code) (hcopied : c.copyOffset.toNat ≤ applicationMaxSize)
    (hfields : c.FieldsOf st) : c.Acceptable := by
  refine BootMetadata.acceptable_of hstate ?_ ?_ hcopied hfields
  · rw [(complete h).received]
    exact UInt32.le_refl _
  · rw [expected_eq h]
    exact I.size_le.trans (by decide)

variable (I)

/-- The record of the update in a state. -/
structure Record (st : UpdateState) (c : BootMetadata) : Prop where
  state : c.state = st.code
  update : SameUpdate c I.record

/-- The container and the image are in the external flash. -/
structure Available (d : Device) : Prop where
  authentic : SecureContainer.Authentic I.key d 0 I.info
  image : ∀ i < I.size, d.part .reconstructed i = I.target i

/-- The application is still the replaced one. -/
def Intact (d : Device) : Prop :=
  ∀ i < applicationMaxSize, d.app i = I.base i

/-- The rest of the device while pages are installed. -/
structure Context (d : Device) : Prop where
  available : I.Available d
  backup : BackupHolds I.backup I.base d
  beyond : ∀ i, pageEnd I.size ≤ i → i < applicationMaxSize → d.app i = I.base i

/-- A verified image whose installation has not begun. -/
structure Ready (c : BootMetadata) (d : Device) : Prop where
  record : I.Record .imageReady c
  persisted : Persisted d c
  available : I.Available d
  intact : I.Intact d

/-- The application is backed up to the persisted offset. -/
structure BackingUp (c : BootMetadata) (d : Device) : Prop where
  record : I.Record .backingUp c
  persisted : Persisted d c
  available : I.Available d
  intact : I.Intact d
  copied : ∀ i < c.copyOffset.toNat, d.backupImage i = I.base i

/-- The image is installed to the persisted offset. -/
abbrev Installing (c : BootMetadata) (d : Device) : Prop :=
  CopyAt I.target I.size I.Context (I.Record .installing) c d

/-- The whole image is installed, and the rest of the region is untouched. -/
structure Installed (d : Device) : Prop where
  copied : Copied I.target I.size I.size d.app
  beyond : ∀ i, pageEnd I.size ≤ i → i < applicationMaxSize → d.app i = I.base i

/-- The installed image is to be verified. -/
structure Verifying (c : BootMetadata) (d : Device) : Prop where
  record : I.Record .verifyingInstall c
  persisted : Persisted d c
  context : I.Context d
  copied : Copied I.target I.size I.size d.app

/-- The installed image is on trial. -/
structure Trial (c : BootMetadata) (d : Device) : Prop where
  record : I.Record .trialBoot c
  persisted : Persisted d c
  backup : BackupHolds I.backup I.base d
  installed : I.Installed d

/-- The states of an installation before the trial. -/
inductive Open (c : BootMetadata) (d : Device) : Prop
  | ready (h : I.Ready c d)
  | backingUp (h : I.BackingUp c d)
  | installing (h : I.Installing c d)
  | verifying (h : I.Verifying c d)

/-- No backup has the version zero, so an update of an unversioned application is given up. -/
structure Abandoned (c : BootMetadata) (d : Device) : Prop where
  unversioned : I.record.activeVersion = 0
  state : c.state = UpdateState.idle.code
  activeVersion : c.activeVersion = 0
  persisted : Persisted d c
  intact : I.Intact d

/-- What an interrupted run of the installer leaves behind. -/
def Interrupted (d : Device) : Prop :=
  ∃ c, I.Open c d ∨ I.Trial c d ∨ I.Abandoned c d

variable {I}

section Frames

variable {d d' : Device}

theorem Available.congr (h : I.Available d)
    (hsame : ∀ p, p = .incoming ∨ p = .reconstructed → ∀ i < p.size, d'.part p i = d.part p i) :
    I.Available d' := by
  have hmax : applicationMaxSize ≤ ExternalPartition.reconstructed.size := by decide
  have hle := I.size_le
  refine ⟨(SecureContainer.authentic_congr fun i hi => hsame _ (.inl rfl) i hi).2 h.authentic, ?_⟩
  intro i hi
  rw [hsame _ (.inr rfl) i (by omega)]
  exact h.image i hi

theorem Available.commit (h : I.Available d) (hframe : MetadataFrame d d') : I.Available d' :=
  h.congr fun _ _ _ _ => hframe.external _ trivial

theorem Intact.commit (h : I.Intact d) (hframe : MetadataFrame d d') : I.Intact d' :=
  fun i hi => (MetadataFrame.app hframe hi).trans (h i hi)

theorem Context.commit (h : I.Context d) (hframe : MetadataFrame d d') : I.Context d' :=
  ⟨h.available.commit hframe, h.backup.commit hframe,
    fun i hlow hhigh => (MetadataFrame.app hframe hhigh).trans (h.beyond i hlow hhigh)⟩

theorem Context.page (h : I.Context d) {offset : Nat} {bytes : Nat → UInt8}
    (hpage : offset + internalFlashPageSize ≤ pageEnd I.size) :
    I.Context (withPage d offset bytes) := by
  refine ⟨h.available.congr fun _ _ _ _ => rfl, h.backup.page _ _, fun i hlow hhigh => ?_⟩
  rw [withPage_app, if_neg (by omega)]
  exact h.beyond i hlow hhigh

end Frames

/-! ## The backup -/

section Backup

variable {μ : Mode} [μ.Sound] {up : Bool} {s : Machine} {c : BootMetadata}

/-- Writes to the backup partition touch neither the container nor the image. -/
theorem Available.outside {d d' : Device} {lo hi : Nat} (h : I.Available d)
    (hframe : OutsideFrame lo hi d d') (hlo : ExternalPartition.backup.address ≤ lo) :
    I.Available d' := by
  refine h.congr fun p hp i hi' => hframe.external _ (.inl ?_)
  have hend : p.address + p.size ≤ ExternalPartition.backup.address := by
    rcases hp with rfl | rfl <;> decide
  omega

/-- Changes of the backup above the persisted offset do not matter. -/
theorem BackingUp.outside {d d' : Device} {lo hi : Nat} (h : I.BackingUp c d)
    (hframe : OutsideFrame lo hi d d') (hlo : ExternalPartition.backup.address ≤ lo)
    (hkept : ∀ i < c.copyOffset.toNat,
      ExternalPartition.backup.address + (BackupImage.dataOffset + i) < lo ∨
        hi ≤ ExternalPartition.backup.address + (BackupImage.dataOffset + i)) :
    I.BackingUp c d' := by
  have hpersisted := persisted_congr fun a _ => hframe.internal a trivial
  refine ⟨h.record, hpersisted.trans h.persisted, h.available.outside hframe hlo,
    fun i hi => (hframe.internal _ trivial).trans (h.intact i hi), fun i hi => ?_⟩
  rw [← h.copied i hi]
  exact hframe.external _ (hkept i hi)

theorem BackingUp.progress {d : Device} (h : I.BackingUp c d) :
    BackupProgress.validate c.copyOffset.toNat = .valid := by
  obtain ⟨-, -, -, hle, halign⟩ := h.persisted.valid.fieldsOf h.record.state
  exact BackupProgress.validate_eq_valid.2 ⟨hle, halign⟩

/-- A committed record after an unchanged backup. -/
theorem BackingUp.kept {d d' : Device} (h : I.BackingUp c d) (hframe : MetadataFrame d d')
    (hold : MetadataStorage.persisted d' = MetadataStorage.persisted d) : I.BackingUp c d' :=
  ⟨h.record, hold.trans h.persisted, h.available.commit hframe, h.intact.commit hframe,
    fun i hi => (hframe.external _ trivial).trans (h.copied i hi)⟩

theorem beginBackup_holds (hs : Env μ up s) (hup : μ.Usable up) (hfault : ¬ μ.Faulty)
    (h : I.Ready c s.device) :
    Holds μ up (beginBackup c s) (fun r d => ∃ c', r = (.ok, c') ∧ I.BackingUp c' d)
      I.Interrupted := by
  have hready : ∀ d, OutsideFrame ExternalPartition.backup.address
      (ExternalPartition.backup.address + BackupImage.dataOffset) s.device d → I.Ready c d := by
    intro d hframe
    have hpersisted := persisted_congr fun a _ => hframe.internal a trivial
    exact ⟨h.record, hpersisted.trans h.persisted, h.available.outside hframe le_rfl,
      fun i hi => (hframe.internal _ trivial).trans (h.intact i hi)⟩
  refine Holds.bind ((invalidateHeader_holds hs hup).and_keeps
    (invalidateHeader_keeps (allows_outsideFrame le_rfl le_rfl))) ?_
    (fun d hd => ⟨c, .inl (.ready (hready d hd.2))⟩)
  rintro r t ht ⟨⟨rfl, -⟩ | ⟨-, hfaulty⟩, hframe⟩
  swap
  · exact absurd hfaulty hfault
  have ht' := hready _ hframe
  rw [if_neg (not_not.2 rfl)]
  have hsame : SameUpdate { c with
      state := UpdateState.backingUp.code, copyOffset := 0, bootAttempts := 0, lastError := 0 }
      I.record := h.record.update.modify ⟨rfl, rfl, rfl, rfl, rfl⟩
  have hacceptable := acceptable .backingUp hsame rfl (Nat.zero_le _)
    ⟨complete hsame, pending_ne_zero hsame, rfl, Nat.zero_le _, .inr rfl⟩
  have hafter : ∀ c' d, MetadataFrame t.device d → Persisted d c' → c'.Agrees { c with
      state := UpdateState.backingUp.code, copyOffset := 0, bootAttempts := 0, lastError := 0 } →
      I.BackingUp c' d := by
    intro c' d hcommit hpersisted hagrees
    refine ⟨⟨hagrees.state, hagrees.sameUpdate.trans hsame⟩, hpersisted,
      ht'.available.commit hcommit, ht'.intact.commit hcommit, fun i hi => ?_⟩
    rw [hagrees.copyOffset] at hi
    exact absurd hi (Nat.not_lt_zero i)
  refine (commitOr_holds ht _ hacceptable).mono ?_ ?_
  · rintro r d ⟨c', rfl, hstores, hpersisted, hcommit⟩
    exact ⟨c', rfl, hafter c' d hcommit hpersisted hstores.toAgrees⟩
  · rintro d ⟨hcommit, hold | ⟨-, c', hpersisted, hagrees⟩⟩
    · exact ⟨c, .inl (.ready ⟨h.record, hold.trans ht'.persisted, ht'.available.commit hcommit,
        ht'.intact.commit hcommit⟩)⟩
    · exact ⟨c', .inl (.backingUp (hafter c' d hcommit hpersisted hagrees))⟩

theorem BackingUp.interrupted {d : Device} (h : I.BackingUp c d) : I.Interrupted d :=
  ⟨c, .inl (.backingUp h)⟩

/-- How a backup ends: the installation begins, or the header is refused for its version. -/
def BackedUp (I : Installation) (r : Step) (d : Device) : Prop :=
  (∃ c, r = (.ok, c) ∧ I.Installing c d) ∨
    I.record.activeVersion = 0 ∧ ∃ c, r = (.backupHeaderFailed, c) ∧ I.BackingUp c d

/-- A complete backup gets its header, and the installation begins. -/
theorem completeBackup_holds (hs : Env μ up s) (hup : μ.Usable up) (hfault : ¬ μ.Faulty)
    (h : I.BackingUp c s.device) (hfull : c.copyOffset.toNat = applicationMaxSize) :
    Holds μ up (completeBackup c s) I.BackedUp I.Interrupted := by
  have happ : window s.device.app 0 applicationMaxSize = window I.base 0 applicationMaxSize := by
    rw [window_eq_iff]
    intro i hi
    rw [Nat.zero_add]
    exact h.intact i hi
  have hbackup : window s.device.backupImage 0 applicationMaxSize =
      window I.base 0 applicationMaxSize := by
    have hcopied := h.copied
    rw [hfull] at hcopied
    rw [window_eq_iff]
    simpa using hcopied
  refine Holds.bind (calculateInternalCrc_holds hs applicationMaxSize) ?_
    (by rintro d rfl; exact h.interrupted)
  rintro crc t ht ⟨hd, rfl⟩
  refine Holds.bind (calculateBackupCrc_holds ht hup) ?_ (by rintro d rfl; exact hd ▸ h.interrupted)
  rw [hd, happ, hbackup]
  rintro r u hu ⟨hd', rfl | ⟨-, hfaulty⟩⟩
  swap
  · exact absurd hfaulty hfault
  dsimp only
  rw [if_neg (not_not.2 rfl)]
  have hinit : BackupImage.init c.activeVersion
      (Crc32.calculate (window I.base 0 applicationMaxSize)) =
      BackupImage.init I.record.activeVersion
        (Crc32.calculate (window I.base 0 applicationMaxSize)) := by
    rw [h.record.update.activeVersion]
  rw [hinit]
  rcases eq_or_ne I.record.activeVersion 0 with hzero | hversion
  · unfold BackupImageStorage.commitHeader
    dsimp only
    rw [if_pos (by rw [hzero]; exact BackupImage.validate_finalize_init_zero)]
    exact Holds.pure hu (.inr ⟨hzero, c, rfl, hd' ▸ h⟩)
  -- the header sector lies below the backed up image
  have hheader : ∀ d, OutsideFrame ExternalPartition.backup.address
      (ExternalPartition.backup.address + BackupImage.dataOffset) u.device d →
      I.BackingUp c d := by
    intro d hframe
    rw [hd'] at hframe
    exact h.outside hframe le_rfl fun i _ => .inr (by omega)
  refine Holds.bind ((commitHeader_holds hu hup (I.backup_valid hversion)).and_keeps
    (commitHeader_keeps (allows_outsideFrame le_rfl le_rfl) _)) ?_
    (fun d hd => (hheader d hd.2).interrupted)
  rintro r v hv ⟨⟨rfl, hrecord⟩ | ⟨-, hfaulty⟩, hframe⟩
  swap
  · exact absurd hfaulty hfault
  have hv' := hheader _ hframe
  have hholds : BackupHolds I.backup I.base v.device := by
    refine ⟨hrecord, I.backup_valid hversion, rfl, fun i hi => hv'.copied i ?_⟩
    rwa [hfull]
  have hsame : SameUpdate { c with
      state := UpdateState.installing.code, copyOffset := 0, lastError := 0 } I.record :=
    h.record.update.modify ⟨rfl, rfl, rfl, rfl, rfl⟩
  have hacceptable := acceptable .installing hsame rfl (Nat.zero_le _)
    ⟨complete hsame, Nat.zero_le _, .inr rfl⟩
  have hafter : ∀ c' d, MetadataFrame v.device d → Persisted d c' → c'.Agrees { c with
      state := UpdateState.installing.code, copyOffset := 0, lastError := 0 } →
      I.Installing c' d := by
    intro c' d hcommit hpersisted hagrees
    have hzero : c'.copyOffset.toNat = 0 := by
      rw [hagrees.copyOffset]
      rfl
    have hge := I.size_ge
    refine ⟨⟨hagrees.state, hagrees.sameUpdate.trans hsame⟩, hpersisted,
      ⟨hv'.available.commit hcommit, hholds.commit hcommit,
        fun i _ hi => (hv'.intact.commit hcommit) i hi⟩, ?_, ?_⟩
    · rw [hzero, InstallProgress.validate_eq_valid]
      exact ⟨hge, I.size_le, Nat.zero_le _, .inr rfl⟩
    · rw [hzero]
      exact ⟨fun i hi => absurd hi (Nat.not_lt_zero i), fun hend => by omega⟩
  refine (commitOr_holds hv _ hacceptable).mono ?_ ?_
  · rintro r d ⟨c', rfl, hstores, hpersisted, hcommit⟩
    exact .inl ⟨c', rfl, hafter c' d hcommit hpersisted hstores.toAgrees⟩
  · rintro d ⟨hcommit, hold | ⟨-, c', hpersisted, hagrees⟩⟩
    · exact (hv'.kept hcommit hold).interrupted
    · exact ⟨c', .inl (.installing (hafter c' d hcommit hpersisted hagrees))⟩

/-- One sector of the backup and its checkpoint. -/
theorem backupStep_holds (hs : Env μ up s) (hup : μ.Usable up) (hfault : ¬ μ.Faulty)
    (h : I.BackingUp c s.device) (hlt : c.copyOffset.toNat < applicationMaxSize) :
    Holds μ up (backupStep c s)
      (fun r d => ∃ c', r = .ok c' ∧ I.BackingUp c' d ∧
        c.copyOffset.toNat < c'.copyOffset.toNat)
      I.Interrupted := by
  have hprogress := h.progress
  have hchunk := BackupProgress.chunkLength_eq hprogress hlt
  obtain ⟨hle, halign⟩ := BackupProgress.validate_eq_valid.1 hprogress
  have haligned := halign.resolve_left (by omega)
  have hnext := BackupProgress.validate_nextCheckpoint hprogress hlt
  have hoffset := toNat_ofNat_of_backupProgress hnext
  have hnextEq : BackupProgress.nextCheckpoint c.copyOffset.toNat =
      c.copyOffset.toNat + min extFlashSectorSize (applicationMaxSize - c.copyOffset.toNat) := by
    rw [BackupProgress.nextCheckpoint, hchunk]
  have hsector : 0 < extFlashSectorSize := by decide
  have hkept : ∀ d, BackupSectorFrame c.copyOffset.toNat s.device d → I.BackingUp c d :=
    fun d hframe => h.outside hframe (by omega) fun i hi => .inl (by omega)
  unfold backupStep
  refine Holds.bind ((copyActiveImageToBackupChunk_holds hs hup hlt haligned
      (by rw [hchunk]; omega) (by rw [hchunk]; omega)).and_keeps
    (copyActiveImageToBackupChunk_keeps (by rw [hchunk]; omega)
      (allows_outsideFrame le_rfl le_rfl))) ?_
    (fun d hd => (hkept d hd.2).interrupted)
  rintro r t ht ⟨⟨rfl, hcopied⟩ | ⟨-, hfaulty⟩, hframe⟩
  swap
  · exact absurd hfaulty hfault
  have ht' := hkept _ hframe
  rw [if_neg (not_not.2 rfl)]
  have hsame : SameUpdate { c with
      copyOffset := UInt32.ofNat (BackupProgress.nextCheckpoint c.copyOffset.toNat)
      lastError := 0 } I.record := h.record.update.modify ⟨rfl, rfl, rfl, rfl, rfl⟩
  obtain ⟨-, -, hattempts, -, -⟩ := h.persisted.valid.fieldsOf h.record.state
  have hacceptable := acceptable .backingUp hsame h.record.state
    (by rw [hoffset]; exact (BackupProgress.validate_eq_valid.1 hnext).1)
    ⟨complete hsame, pending_ne_zero hsame, hattempts,
      by rw [hoffset]; exact (BackupProgress.validate_eq_valid.1 hnext).1,
      by rw [hoffset]; exact (BackupProgress.validate_eq_valid.1 hnext).2⟩
  have hafter : ∀ c' d, MetadataFrame t.device d → Persisted d c' → c'.Agrees { c with
      copyOffset := UInt32.ofNat (BackupProgress.nextCheckpoint c.copyOffset.toNat)
      lastError := 0 } → I.BackingUp c' d ∧ c.copyOffset.toNat < c'.copyOffset.toNat := by
    intro c' d hcommit hpersisted hagrees
    have hnat : c'.copyOffset.toNat = BackupProgress.nextCheckpoint c.copyOffset.toNat := by
      rw [hagrees.copyOffset, hoffset]
    refine ⟨⟨⟨hagrees.state.trans h.record.state, hagrees.sameUpdate.trans hsame⟩, hpersisted,
      ht'.available.commit hcommit, ht'.intact.commit hcommit, fun i hi => ?_⟩, by omega⟩
    have hbyte : d.backupImage i = t.device.backupImage i := hcommit.external _ trivial
    rw [hbyte]
    rcases Nat.lt_or_ge i c.copyOffset.toNat with hlow | hhigh
    · exact ht'.copied i hlow
    · have hnew := hcopied (i - c.copyOffset.toNat) (by rw [hchunk]; omega)
      rw [show c.copyOffset.toNat + (i - c.copyOffset.toNat) = i by omega] at hnew
      rw [hnew]
      exact h.intact i (by omega)
  refine Holds.bind (commitOr_holds ht _ hacceptable) ?_ ?_
  · rintro r u hu ⟨c', rfl, hstores, hpersisted, hcommit⟩
    obtain ⟨hbacking, hmore⟩ := hafter c' _ hcommit hpersisted hstores.toAgrees
    exact Holds.pure hu ⟨c', rfl, hbacking, hmore⟩
  · rintro d ⟨hcommit, hold | ⟨-, c', hpersisted, hagrees⟩⟩
    · exact (ht'.kept hcommit hold).interrupted
    · exact (hafter c' d hcommit hpersisted hagrees).1.interrupted

/-- The backup completes from any of its checkpoints. -/
theorem resumeBackup_holds (hs : Env μ up s) (hup : μ.Usable up) (hfault : ¬ μ.Faulty)
    (h : I.BackingUp c s.device) :
    Holds μ up (resumeBackup c s) I.BackedUp I.Interrupted := by
  unfold resumeBackup
  rw [if_neg (not_not.2 h.progress)]
  refine Holds.loopThen (I := fun c d => I.BackingUp c d)
    (fun c => applicationMaxSize - c.copyOffset.toNat) ?_ ?_ ?_ hs (Nat.sub_le _ _) h
  · intro c d hguard _
    simp only [decide_eq_true_eq] at hguard
    omega
  · intro c t ht hguard hc
    simp only [decide_eq_true_eq] at hguard
    refine (backupStep_holds ht hup hfault hc hguard).mono ?_ (fun _ h => h)
    rintro r d ⟨c', rfl, hc', hmore⟩
    exact ⟨hc', by omega⟩
  · intro c t ht hguard hc
    simp only [decide_eq_false_iff_not, not_lt] at hguard
    have hle := (BackupProgress.validate_eq_valid.1 hc.progress).1
    exact completeBackup_holds ht hup hfault hc (by omega)

end Backup

end Installation

end ImageInstaller

end SecureDeltaOta
