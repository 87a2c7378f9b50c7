import SecureDeltaOta.Boot.ContainerProcessing
import SecureDeltaOta.Boot.InstallerCopy

/-!
# Restoring the backup

From a valid backup a rollback ends with the backed up image in the application
region and `IDLE` persisted. Interrupted, it has not begun, or it is at a
checkpoint of the copy, or it is complete.
-/

namespace SecureDeltaOta

open Memory Crash MetadataStorage

namespace ImageInstaller

open BootMetadata (SameUpdate)

/-! ## Frames of the backup -/

section Frames

variable {record : BackupImageRecord} {image : Nat → UInt8} {d d' : Device}

theorem BackupHolds.congr (h : BackupHolds record image d)
    (hsame : ∀ i < ExternalPartition.backup.size, d'.part .backup i = d.part .backup i) :
    BackupHolds record image d' := by
  have hsize : ExternalPartition.backup.size = 0x20000 := rfl
  refine ⟨?_, h.valid, h.crc, fun i hi => ?_⟩
  · rw [← h.header]
    refine Device.backupHeader_congr fun i hi => hsame i ?_
    unfold BackupImage.recordSize at hi
    omega
  · rw [← h.image i hi]
    refine hsame _ ?_
    unfold BackupImage.dataOffset
    unfold applicationMaxSize at hi
    omega

theorem BackupHolds.commit (h : BackupHolds record image d) (hframe : MetadataFrame d d') :
    BackupHolds record image d' :=
  h.congr fun _ _ => hframe.external _ trivial

theorem BackupHolds.page (h : BackupHolds record image d) (offset : Nat) (bytes : Nat → UInt8) :
    BackupHolds record image (withPage d offset bytes) :=
  h.congr fun _ _ => rfl

theorem BackupHolds.clear (h : BackupHolds record image d)
    (hframe : DownloadCheckpointStorage.CheckpointFrame d d') : BackupHolds record image d' :=
  h.congr fun _ hi => hframe.part (by decide) hi

end Frames

/-- Clearing the download checkpoint changes neither the record nor the application. -/
theorem persisted_clear {d d' : Device}
    (hframe : DownloadCheckpointStorage.CheckpointFrame d d') :
    persisted d' = persisted d ∧ ∀ i, d'.app i = d.app i :=
  ⟨persisted_congr fun a _ => hframe.internal a trivial, fun _ => hframe.internal _ trivial⟩

/-- The record of a rollback of the update `m`, with its diagnostic where commits are atomic. -/
structure RollbackRecord (μ : Mode) (m : BootMetadata) (diagnostic : UInt32) (c : BootMetadata) :
    Prop where
  state : c.state = UpdateState.rollback.code
  update : SameUpdate c m
  diagnostic : μ.atomicCommit = true → c.lastError = diagnostic

/-- A rollback at a checkpoint. -/
abbrev RollingBack (μ : Mode) (m : BootMetadata) (diagnostic : UInt32)
    (record : BackupImageRecord) (image : Nat → UInt8) : BootMetadata → Device → Prop :=
  CopyAt image applicationMaxSize (BackupHolds record image) (RollbackRecord μ m diagnostic)

/-- The backed up image is the application again and no update is left. -/
structure Restored (m : BootMetadata) (record : BackupImageRecord) (image : Nat → UInt8)
    (c : BootMetadata) (d : Device) : Prop where
  agrees : c.Agrees (rolledBack m record 0)
  persisted : Persisted d c
  backup : BackupHolds record image d
  app : ∀ i < applicationMaxSize, d.app i = image i

section Specs

variable {μ : Mode} [μ.Sound] {up : Bool} {s : Machine} {m c : BootMetadata} {diagnostic : UInt32}
  {record : BackupImageRecord} {image : Nat → UInt8}

/-- A rollback checkpoint may be committed at every place to resume. -/
theorem rollback_acceptable (hc : c.Valid) (hstate : c.state = UpdateState.rollback.code)
    {offset : Nat} (h : InstallProgress.validate applicationMaxSize offset = .valid) :
    ({ c with copyOffset := UInt32.ofNat offset } : BootMetadata).Acceptable := by
  obtain ⟨hcomplete, hpending, hattempts, -, -⟩ := hc.fieldsOf hstate
  have hoffset := toNat_ofNat_of_progress h
  obtain ⟨-, -, hle, halign⟩ := InstallProgress.validate_eq_valid.1 h
  refine BootMetadata.acceptable_of (s := .rollback) hstate hc.received hc.expected ?_
    ⟨⟨hcomplete.updateId, hcomplete.size, hcomplete.received⟩, hpending, hattempts, ?_, ?_⟩
  · simpa only [hoffset] using hle
  · simpa only [hoffset] using hle
  · simpa only [hoffset] using halign

omit [μ.Sound] in
theorem RollbackRecord.next {c' : BootMetadata} (h : RollbackRecord μ m diagnostic c)
    {offset : UInt32} (hagrees : c'.Agrees { c with copyOffset := offset })
    (hdiagnostic : μ.atomicCommit = true → c'.lastError = diagnostic) :
    RollbackRecord μ m diagnostic c' := by
  have hsame : SameUpdate { c with copyOffset := offset } c := ⟨rfl, rfl, rfl, rfl, rfl⟩
  exact ⟨hagrees.state.trans h.state, hagrees.sameUpdate.trans (hsame.trans h.update), hdiagnostic⟩

omit [μ.Sound] in
theorem rollback_resumable (record : BackupImageRecord) (image : Nat → UInt8) :
    Resumable μ applicationMaxSize id (BackupHolds record image)
      (RollbackRecord μ m diagnostic) where
  page h _ := h.page _ _
  commit h hframe := h.commit hframe
  offset _ := rfl
  acceptable hrec hvalid hoffset := rollback_acceptable hvalid hrec.state hoffset
  done hrec _ hstores :=
    hrec.next hstores.toAgrees fun hatomic => hstores.lastError.trans (hrec.diagnostic hatomic)
  torn hatomic hrec _ hagrees := hrec.next hagrees fun hyes => by simp [hatomic] at hyes

theorem resumeRollbackCopy_holds (hs : Env μ up s) (hup : μ.Usable up) (hfault : ¬ μ.Faulty)
    (h : RollingBack μ m diagnostic record image c s.device) :
    Holds μ up (resumeRollbackCopy c s)
      (fun r d => ∃ c', r = (.ok, c') ∧ RollingBack μ m diagnostic record image c' d ∧
        c'.copyOffset.toNat = applicationMaxSize)
      (fun d => ∃ c', RollingBack μ m diagnostic record image c' d) :=
  resumeCopy_holds hs (rollback_resumable record image)
    (fun _ _ ht hbackup hvalid hlt =>
      programAndVerifyBackupPage_holds ht hup hfault hbackup.image hvalid hlt) h

theorem rolledBack_acceptable (m : BootMetadata) (record : BackupImageRecord)
    (diagnostic : UInt32) : (rolledBack m record diagnostic).Acceptable :=
  ⟨rfl, UInt32.le_refl _, Nat.zero_le _, Nat.zero_le _, rfl⟩

/-- How an interrupted rollback that has begun is left. -/
def RollbackOpen (μ : Mode) (m : BootMetadata) (diagnostic : UInt32) (record : BackupImageRecord)
    (image : Nat → UInt8) (d : Device) : Prop :=
  ∃ c, RollingBack μ m diagnostic record image c d ∨
    μ.atomicCommit = false ∧ Restored m record image c d

theorem finalizeRollback_holds (hs : Env μ up s) (hup : μ.Usable up)
    (h : RollingBack μ m diagnostic record image c s.device)
    (hfull : c.copyOffset.toNat = applicationMaxSize) :
    Holds μ up (finalizeRollback c record diagnostic s)
      (fun r d => ∃ c', r = (.ok, some c') ∧ Restored m record image c' d ∧
        c'.bootAttempts = 0 ∧ c'.lastError = diagnostic)
      (RollbackOpen μ m diagnostic record image) := by
  have happ : ∀ i < applicationMaxSize, s.device.app i = image i := by
    have hcopied := h.copied.image
    rwa [hfull] at hcopied
  have hclear : ∀ d, DownloadCheckpointStorage.CheckpointFrame s.device d →
      RollingBack μ m diagnostic record image c d := by
    intro d hframe
    obtain ⟨hpersisted, hsame⟩ := persisted_clear hframe
    exact ⟨h.record, hpersisted.trans h.persisted, h.context.clear hframe, h.progress,
      h.copied.congr (fun i _ => hsame i) h.progress⟩
  refine Holds.bind ((DownloadCheckpointStorage.clear_holds hs hup).and_keeps
    DownloadCheckpointStorage.clear_frame) ?_ (fun d hd => ⟨c, .inl (hclear d hd.2)⟩)
  rintro r t ht ⟨-, hframe⟩
  have ht' := hclear _ hframe
  obtain ⟨-, hsame⟩ := persisted_clear hframe
  have hafter : ∀ c' d, MetadataFrame t.device d → Persisted d c' →
      c'.Agrees (rolledBack c record diagnostic) → Restored m record image c' d := by
    intro c' d hcommit hpersisted hagrees
    refine ⟨?_, hpersisted, ht'.context.commit hcommit, fun i hi => ?_⟩
    · exact ⟨hagrees.state, hagrees.activeVersion, hagrees.pendingVersion, hagrees.activeUpdateId,
        hagrees.receivedSize, hagrees.expectedSize, hagrees.copyOffset⟩
    · rw [MetadataFrame.app hcommit hi, hsame, happ i hi]
  refine Holds.bind (commitMetadata_holds ht (rolledBack_acceptable c record diagnostic)) ?_ ?_
  · rintro r u hu ⟨c', rfl, hstores, hpersisted, hcommit⟩
    exact Holds.pure hu ⟨c', rfl, hafter c' _ hcommit hpersisted hstores.toAgrees,
      hstores.bootAttempts, hstores.lastError⟩
  · rintro d ⟨hcommit, hold | ⟨hatomic, c', hpersisted, hagrees⟩⟩
    · exact ⟨c, .inl ⟨h.record, hold.trans ht'.persisted, ht'.context.commit hcommit, h.progress,
        ht'.copied.congr (fun i hi => MetadataFrame.app hcommit hi) h.progress⟩⟩
    · exact ⟨c', .inr ⟨hatomic, hafter c' d hcommit hpersisted hagrees⟩⟩

/-- From any checkpoint the restoration completes. -/
theorem restoreBackup_holds (hs : Env μ up s) (hup : μ.Usable up) (hfault : ¬ μ.Faulty)
    (hvectors : VectorsValid applicationMaxSize image)
    (h : RollingBack μ m diagnostic record image c s.device) :
    Holds μ up (restoreBackup c record diagnostic s)
      (fun r d => ∃ c', r = (.ok, some c') ∧ Restored m record image c' d ∧
        c'.bootAttempts = 0 ∧ c'.lastError = diagnostic)
      (RollbackOpen μ m diagnostic record image) := by
  refine Holds.bind (resumeRollbackCopy_holds hs hup hfault h) ?_
    (fun d ⟨c', hc'⟩ => ⟨c', .inl hc'⟩)
  rintro r t ht ⟨c', rfl, hc', hfull⟩
  have happ : ∀ i < applicationMaxSize, t.device.app i = image i := fun i hi =>
    hc'.copied.image i (hfull ▸ hi)
  have hcrc : Crc32.calculate (window t.device.app 0 applicationMaxSize) = record.imageCrc32 := by
    have hwindow : window t.device.app 0 applicationMaxSize =
        window image 0 applicationMaxSize := by
      rw [window_eq_iff]
      simpa using happ
    rw [hc'.context.crc, hwindow]
  have hvalid : VectorsValid applicationMaxSize t.device.app :=
    (vectorsValid_congr fun i hi => happ i (hi.trans (by decide))).2 hvectors
  simp only [ne_eq, not_true_eq_false, if_false]
  refine Holds.bind (verifyApplication_holds ht _ _ hcrc hvalid) ?_
    (fun d hd => ⟨c', .inl (hd ▸ hc')⟩)
  rintro r u hu ⟨hd, rfl⟩
  rw [if_neg (not_not.2 rfl)]
  exact finalizeRollback_holds hu hup (hd ▸ hc') hfull

/-- The first record of a rollback may be committed over a trial. -/
theorem beginRollback_acceptable (hm : m.Valid) (hstate : m.state = UpdateState.trialBoot.code)
    (diagnostic : UInt32) :
    ({ m with state := UpdateState.rollback.code, copyOffset := 0, lastError := diagnostic } :
      BootMetadata).Acceptable := by
  obtain ⟨hcomplete, hpending, -, hattempts⟩ := hm.fieldsOf hstate
  exact BootMetadata.acceptable_of (s := .rollback) rfl hm.received hm.expected (Nat.zero_le _)
    ⟨⟨hcomplete.updateId, hcomplete.size, hcomplete.received⟩, hpending, hattempts, Nat.zero_le _,
      .inr rfl⟩

/-- Nothing but the unselected metadata slot has changed. -/
def Untouched (d d' : Device) : Prop :=
  MetadataFrame d d' ∧ persisted d' = persisted d

omit [μ.Sound] in
/-- The record of a rollback that just began. -/
theorem RollingBack.start {c' : BootMetadata} {d d' : Device}
    (hbackup : BackupHolds record image d) (hframe : MetadataFrame d d')
    (hpersisted : Persisted d' c')
    (hagrees : c'.Agrees { m with
      state := UpdateState.rollback.code, copyOffset := 0, lastError := diagnostic })
    (hdiagnostic : μ.atomicCommit = true → c'.lastError = diagnostic) :
    RollingBack μ m diagnostic record image c' d' := by
  have hzero : c'.copyOffset.toNat = 0 := by
    rw [hagrees.copyOffset]
    rfl
  refine ⟨⟨hagrees.state, hagrees.sameUpdate.trans ⟨rfl, rfl, rfl, rfl, rfl⟩, hdiagnostic⟩,
    hpersisted, hbackup.commit hframe, ?_, ?_⟩
  · rw [hzero]
    decide
  · rw [hzero]
    exact ⟨fun i hi => absurd hi (Nat.not_lt_zero i), fun hend => absurd hend (by decide)⟩

theorem enterRollback_holds (hs : Env μ up s) (hup : μ.Usable up) (hfault : ¬ μ.Faulty)
    (hvectors : VectorsValid applicationMaxSize image) (hm : Persisted s.device m)
    (hbackup : BackupHolds record image s.device)
    (hstate : m.state = UpdateState.trialBoot.code ∨
      RollingBack μ m m.lastError record image m s.device) :
    Holds μ up (enterRollback m record s)
      (fun r d => ∃ c', r = (.ok, some c') ∧ Restored m record image c' d ∧
        c'.bootAttempts = 0 ∧ c'.lastError = rollbackDiagnostic m)
      (fun d => Untouched s.device d ∨
        RollbackOpen μ m (rollbackDiagnostic m) record image d) := by
  unfold enterRollback
  rcases hstate with htrial | hrolling
  · rw [if_pos (by rw [htrial]; decide)]
    refine Holds.bind (commitOr_holds hs _ (beginRollback_acceptable hm.valid htrial _)) ?_ ?_
    · rintro r t ht ⟨c', rfl, hstores, hpersisted, hframe⟩
      refine (restoreBackup_holds ht hup hfault hvectors
        (RollingBack.start hbackup hframe hpersisted hstores.toAgrees fun _ =>
          hstores.lastError)).mono (fun _ _ h => h) (fun _ h => .inr h)
    · rintro d ⟨hframe, hold | ⟨hatomic, c', hpersisted, hagrees⟩⟩
      · exact .inl ⟨hframe, hold⟩
      · exact .inr ⟨c', .inl (RollingBack.start hbackup hframe hpersisted hagrees
          fun hyes => by simp [hatomic] at hyes)⟩
  · have hcode := hrolling.record.state
    have hdiagnostic : rollbackDiagnostic m = m.lastError := if_pos hcode
    rw [if_neg (not_not.2 hcode), if_neg (not_not.2 hrolling.progress), hdiagnostic]
    exact (restoreBackup_holds hs hup hfault hvectors hrolling).mono (fun _ _ h => h)
      (fun _ h => .inr h)

/-- A rollback from a trial or from one of its own checkpoints. -/
theorem processRollback_holds (hs : Env μ up s) (hfault : ¬ μ.Faulty)
    (hvectors : VectorsValid applicationMaxSize image) (hm : Persisted s.device m)
    (hbackup : BackupHolds record image s.device)
    (hstate : m.state = UpdateState.trialBoot.code ∨
      RollingBack μ m m.lastError record image m s.device) :
    Holds μ μ.ready (processRollback m s)
      (fun r d => ∃ c', r = (.ok, some c') ∧ Restored m record image c' d ∧
        c'.bootAttempts = 0 ∧ c'.lastError = rollbackDiagnostic m)
      (fun d => Untouched s.device d ∨
        RollbackOpen μ m (rollbackDiagnostic m) record image d) := by
  have hsame : Untouched s.device s.device := ⟨refl_of MetadataFrame _, rfl⟩
  refine init_bind_holds hs (.inl hsame) ?_
  intro ok t hok ht hd
  obtain rfl := hok.resolve_right hfault
  rw [← hd] at hm hbackup hstate hsame ⊢
  refine Holds.bind (validateBackupImage_holds ht μ.usable_ready hbackup) ?_
    (by rintro d rfl; exact .inl hsame)
  rintro r u hu ⟨hd', rfl | ⟨-, hfaulty⟩⟩
  · rw [← hd'] at hm hbackup hstate ⊢
    exact enterRollback_holds hu μ.usable_ready hfault hvectors hm hbackup hstate
  · exact absurd hfaulty hfault

end Specs

end ImageInstaller

end SecureDeltaOta
