import SecureDeltaOta.Boot.InstallerOutcomes
import SecureDeltaOta.Boot.ReleaseRuns

/-!
# Faults of the external flash during a backup

Before the first page of the application is erased, an update can still be
given up. Faults of the external flash while the candidate is validated and
while the backup is written lead back to `IDLE`. Two faults do not: when the old
backup header cannot be invalidated, and when the finished backup cannot be read
again, the update is marked `FAILED` although the application was not touched.
-/

namespace SecureDeltaOta

open Memory Crash MetadataStorage

namespace BootManager

open ImageInstaller

/-! ## Faults that are survived -/

/-- The candidate is selected: the driver starts, and the container and its image are valid. -/
def Selects (key : TrustedKey) (m : BootMetadata) (s : Machine) (source : CandidateSource)
    (t : Machine) : Prop :=
  ∃ t₁ t₂, ExternalFlashStorage.init s = .done true t₁ ∧
    loadCandidateSource key m t₁ = .done (.ok source) t₂ ∧
    validateExternalSource source t₂ = .done .ok t

/-- The application is backed up, from the start or from where the record says. -/
def BacksUp (m : BootMetadata) (s : Machine) (c : BootMetadata) (t : Machine) : Prop :=
  (m.state = UpdateState.backingUp.code → resumeBackup m s = .done (.ok, c) t) ∧
    (m.state = UpdateState.imageReady.code → ∃ m' s', beginBackup m s = .done (.ok, m') s' ∧
      resumeBackup m' s' = .done (.ok, c) t)

/--
The two faults that give the node up do not occur: the old backup header is
invalidated, and once the backup is complete the external flash works.
-/
structure Spared (key : TrustedKey) (m : BootMetadata) (s : Machine) : Prop where
  invalidates : ∀ source t, Selects key m s source t → m.state = UpdateState.imageReady.code →
    ∃ u, BackupImageStorage.invalidateHeader t = .done .ok u
  reads : ∀ source t c u, Selects key m s source t → BacksUp m t c u → ∀ o ∈ u.script, o = .ok

section Survived

variable {μ : Mode} [μ.Sound] {up : Bool} {s : Machine} {m c : BootMetadata}

omit [μ.Sound] in
theorem revertToActiveImage_returns (reason : ImageInstallerStatus) :
    Returns (revertToActiveImage m reason) fun r => marksFailed r.1 = false := by
  refine Returns.bind (Returns.trivial _) fun _ _ => Returns.bind (Returns.trivial _) fun r _ => ?_
  obtain ⟨committed, record⟩ := r
  cases committed <;> exact Returns.pure rfl

theorem transitionToTrialBoot_returns :
    Returns (transitionToTrialBoot m) fun r => marksFailed r.1 = false := by
  refine Returns.bind (Returns.trivial _) fun cleared _ =>
    Returns.ite (fun _ => Returns.pure rfl) fun _ => Returns.bind (Returns.trivial _) fun r _ => ?_
  obtain ⟨committed, record⟩ := r
  cases committed <;> exact Returns.pure rfl

theorem commitOr_returns (requested : BootMetadata) :
    Returns (commitOr .metadataCommitFailed requested) fun r => marksFailed r.1 = false := by
  refine Returns.bind (Returns.trivial _) fun r _ => ?_
  obtain ⟨committed, record⟩ := r
  cases committed <;> exact Returns.pure rfl

/-- While the application is backed up only the metadata and the backup partition change. -/
abbrev BackupFrame : Device → Device → Prop :=
  PartFrame (fun a => ¬ Page a) fun p => p ≠ .backup

/-- A finished backup: the installation is to begin, and the backup can be restored. -/
structure Finished (m : BootMetadata) (c : BootMetadata) (d : Device) : Prop where
  current : At m .installing c d
  copyOffset : c.copyOffset = 0
  backup : ∃ record image, BackupHolds record image d

/-- A complete backup is finished, or the status says what failed. -/
theorem completeBackup_finishes (hs : Env μ up s) (hup : μ.Usable up)
    (h : At m .backingUp c s.device) :
    Holds μ up (completeBackup c s)
      (fun r d => BackupFrame s.device d ∧ (r.1 = .ok → Finished m r.2 d)) (fun _ => True) := by
  have hallows : Allows BackupFrame ExternalPartition.backup.address
      (ExternalPartition.backup.address + BackupImage.dataOffset) :=
    (allows_partFrame (p := .backup) (by simp)).mono le_rfl (by decide)
  refine Holds.bind (calculateInternalCrc_holds hs _) ?_ (fun _ _ => trivial)
  intro crc t ht hcrc
  obtain ⟨hd, -⟩ := hcrc
  refine Holds.bind (calculateBackupCrc_holds ht hup) ?_ (fun _ _ => trivial)
  intro r u hu hr
  obtain ⟨hd', hr⟩ := hr
  rw [hd] at hd' hr
  rw [← hd'] at h hr ⊢
  -- a failed step reports its status and has changed nothing
  have hstuck : ∀ status, status ≠ .ok → Holds μ up ((pure (status, c) : Prog Machine Step) u)
      (fun r d => BackupFrame u.device d ∧ (r.1 = .ok → Finished m r.2 d)) (fun _ => True) :=
    fun status hne => Holds.pure hu ⟨refl_of BackupFrame _, fun hok => absurd hok hne⟩
  rcases hr with rfl | ⟨rfl, -⟩
  swap
  · exact hstuck _ (by decide)
  dsimp only
  split
  · exact hstuck _ (by decide)
  by_cases hvalid : BackupImage.validate (BackupImage.finalize (BackupImage.init c.activeVersion
      (Crc32.calculate (window u.device.backupImage 0 applicationMaxSize)))) = .valid
  swap
  · unfold BackupImageStorage.commitHeader
    dsimp only
    rw [if_pos hvalid]
    exact hstuck _ (by decide)
  refine Holds.bind (((commitHeader_holds hu hup hvalid).and_keeps
    (commitHeader_keeps hallows _)).and_keeps
    (commitHeader_keeps (allows_outsideFrame le_rfl le_rfl) _)) ?_ (fun _ _ => trivial)
  intro r v hv hr
  obtain ⟨⟨hr, hframe⟩, houtside⟩ := hr
  rcases hr with ⟨rfl, hheader⟩ | ⟨⟨e, rfl⟩, -⟩
  swap
  · exact Holds.pure hv ⟨hframe, fun hok => absurd hok (by simp)⟩
  have hpersisted := persisted_congr fun a _ => houtside.internal a trivial
  have hc : At m .backingUp c v.device := ⟨hpersisted.trans h.persisted, h.state, h.update⟩
  have hholds : BackupHolds v.device.backupHeader u.device.backupImage v.device := by
    refine ⟨rfl, by rw [hheader]; exact hvalid, by rw [hheader]; rfl, fun i _ => ?_⟩
    exact houtside.external _ (.inr (by omega))
  have hrecord := h.persisted.valid
  obtain ⟨hcomplete, -, -, -⟩ := hrecord.fieldsOf h.state
  have hok : (moved c .installing 0 0).Acceptable :=
    moved_acceptable hrecord (Nat.zero_le _)
      ⟨⟨hcomplete.updateId, hcomplete.size, hcomplete.received⟩, Nat.zero_le _, .inr rfl⟩
  refine (commitOr_holds hv _ hok).mono ?_ (fun _ _ => trivial)
  intro r d hr
  obtain ⟨c', rfl, hstores, hc', hcommit⟩ := hr
  refine ⟨trans_of BackupFrame hframe (hcommit.mono (fun _ ha => ha) fun _ _ => trivial), fun _ => ?_⟩
  exact ⟨hc.step hc' hstores, hstores.copyOffset, _, _, hholds.commit hcommit⟩

omit [μ.Sound] in
theorem commitOr_frame (status : ImageInstallerStatus) (requested : BootMetadata) :
    Keeps BackupFrame (commitOr status requested) := by
  have hcommit : Keeps BackupFrame (commit requested) :=
    (commit_frame requested).mono fun _ _ h => h.mono (fun _ ha => ha) fun _ _ => trivial
  refine Keeps.bind (Keeps.bind hcommit fun r => ?_) fun r => ?_
  · cases r <;> exact Keeps.pure _
  · obtain ⟨committed, record⟩ := r
    cases committed <;> exact Keeps.pure _

omit [μ.Sound] in
/-- One sector of the backup stays in the backup partition. -/
theorem backupStep_frame (hprogress : BackupProgress.validate c.copyOffset.toNat = .valid)
    (hlt : c.copyOffset.toNat < applicationMaxSize) : Keeps BackupFrame (backupStep c) := by
  obtain ⟨-, halign⟩ := BackupProgress.validate_eq_valid.1 hprogress
  have haligned := halign.resolve_left (by omega)
  have hchunk := BackupProgress.chunkLength_eq hprogress hlt
  have hallows : Allows BackupFrame
      (ExternalPartition.backup.address + (BackupImage.dataOffset + c.copyOffset.toNat))
      (ExternalPartition.backup.address + (BackupImage.dataOffset + c.copyOffset.toNat) +
        extFlashSectorSize) := by
    refine (allows_partFrame (p := .backup) (by simp)).mono (Nat.le_add_right _ _) ?_
    have hdata : BackupImage.dataOffset = 4096 := rfl
    have hsize : ExternalPartition.backup.size = 131072 := rfl
    unfold applicationMaxSize extFlashSectorSize at *
    omega
  refine Keeps.bind (copyActiveImageToBackupChunk_keeps (by rw [hchunk]; omega) hallows)
    fun status => Keeps.ite (Keeps.pure _) (Keeps.bind (commitOr_frame _ _) fun r => ?_)
  exact Keeps.ite (Keeps.pure _) (Keeps.pure _)

/-- A step that leaves the backup early reports why. -/
theorem backupStep_returns (c : BootMetadata) :
    Returns (backupStep c) fun r => ∀ step, r = .error step → step.1 ≠ .ok := by
  have hleave : ∀ (status : ImageInstallerStatus) (c' : BootMetadata), status ≠ .ok →
      Returns (pure (.error (status, c')) : Prog Machine (Except Step BootMetadata))
        fun r => ∀ step, r = .error step → step.1 ≠ .ok := by
    intro status c' hne
    refine Returns.pure fun step hstep => ?_
    cases hstep
    exact hne
  refine Returns.bind (Returns.trivial _) fun status _ => Returns.ite (hleave _ _) fun _ =>
    Returns.bind (Returns.trivial _) fun r _ => Returns.ite (hleave _ _) fun _ => Returns.pure ?_
  intro step hstep
  cases hstep

/-- A backup that reports success is finished, whatever failed before it was resumed. -/
theorem resumeBackup_finishes (hs : Env μ up s) (hup : μ.Usable up)
    (h : At m .backingUp c s.device) :
    Holds μ up (resumeBackup c s)
      (fun r d => BackupFrame s.device d ∧ (r.1 = .ok → Finished m r.2 d)) (fun _ => True) := by
  unfold resumeBackup
  split
  · exact Holds.pure hs ⟨refl_of BackupFrame _, fun hok => absurd hok (by simp)⟩
  refine Holds.loopThen (I := fun c d => BackupFrame s.device d ∧ At m .backingUp c d)
    (fun c => applicationMaxSize - c.copyOffset.toNat) ?_ ?_ ?_ hs (Nat.sub_le _ _)
    ⟨refl_of BackupFrame _, h⟩
  · intro c d hguard _
    simp only [decide_eq_true_eq] at hguard
    omega
  · intro c t ht hguard hI
    obtain ⟨hframe, hc⟩ := hI
    simp only [decide_eq_true_eq] at hguard
    obtain ⟨-, -, -, hle, halign⟩ := hc.persisted.valid.fieldsOf hc.state
    have hprogress := BackupProgress.validate_eq_valid.2 ⟨hle, halign⟩
    refine (((backupStep_moves ht hup hc hguard).and_keeps
      (backupStep_frame hprogress hguard)).and_returns (backupStep_returns c)).mono ?_
      (fun _ _ => trivial)
    intro r d hr
    obtain ⟨⟨hr, hkept⟩, hleave⟩ := hr
    have hframe' : BackupFrame s.device d := trans_of BackupFrame hframe hkept
    rcases hr with ⟨c', rfl, -, hc', hmore⟩ | ⟨r', rfl, -⟩
    · exact ⟨⟨hframe', hc'⟩, by omega⟩
    · exact ⟨hframe', fun hok => absurd hok (hleave r' rfl)⟩
  · intro c t ht _ hI
    refine (completeBackup_finishes ht hup hI.2).mono ?_ (fun _ _ => trivial)
    intro r d hr
    exact ⟨trans_of BackupFrame hI.1 hr.1, hr.2⟩

omit [μ.Sound] in
/-- Pages are copied from the candidate alone. -/
theorem available_resumable (I : Installation) :
    Resumable μ I.size (fun m => { m with lastError := 0 }) I.Available (I.Record .installing) :=
  { I.install_resumable with
    page := fun h _ => h.congr fun _ _ _ _ => rfl
    commit := fun h hframe => h.commit hframe }

/-- With a working external flash a selected candidate is installed. -/
theorem installCandidate_kept {I : Installation} (hs : Env μ up s) (hup : μ.Usable up)
    (hfault : ¬ μ.Faulty) (h : At m .installing c s.device) (hzero : c.copyOffset = 0)
    (hupdate : BootMetadata.SameUpdate m I.record) (havailable : I.Available s.device) :
    Holds μ up (installCandidate (I.source m) c s) (fun r _ => marksFailed r.1 = false)
      (fun _ => True) := by
  have hge := I.size_ge
  have hprogress : InstallProgress.validate I.size c.copyOffset.toNat = .valid := by
    rw [hzero]
    exact InstallProgress.validate_eq_valid.2 ⟨hge, I.size_le, Nat.zero_le _, .inr rfl⟩
  have hcopy : CopyAt I.target I.size I.Available (I.Record .installing) c s.device := by
    refine ⟨⟨h.state, h.update.trans hupdate⟩, h.persisted, havailable, hprogress, ?_⟩
    rw [hzero]
    exact ⟨fun i hi => absurd hi (Nat.not_lt_zero i), fun hfull => absurd hfull (by
      have hnat : (0 : UInt32).toNat = 0 := rfl
      omega)⟩
  refine Holds.bind (resumeCopy_holds hs (available_resumable I)
    (fun _ _ ht hcontext hvalid hlt => programAndVerifyCandidatePage_holds ht hup hfault rfl
      hcontext.image hvalid hlt) hcopy) ?_ (fun _ _ => trivial)
  intro r t ht hr
  obtain ⟨c₁, rfl, h₁, hfull⟩ := hr
  have hcopied := h₁.copied
  rw [hfull] at hcopied
  dsimp only
  rw [if_neg (not_not.2 rfl)]
  have hsame : BootMetadata.SameUpdate { c₁ with
      state := UpdateState.verifyingInstall.code
      copyOffset := I.info.header.targetImageSize, lastError := 0 } I.record :=
    h₁.record.update.modify ⟨rfl, rfl, rfl, rfl, rfl⟩
  have hacceptable := Installation.acceptable .verifyingInstall hsame rfl I.size_le
    ⟨Installation.complete hsame, (hsame.expectedSize.trans I.expectedSize).symm⟩
  refine Holds.bind (commitOr_holds ht _ hacceptable) ?_ (fun _ _ => trivial)
  intro r u hu hr
  obtain ⟨c₂, rfl, hstores, hc₂, hcommit⟩ := hr
  have hinstalled := hcopied.congr (fun i hi => MetadataFrame.app hcommit hi) I.progress_size
  dsimp only
  rw [if_neg (not_not.2 rfl)]
  refine Holds.bind (Installation.verifyInstalledApplication_holds hu m hinstalled) ?_
    (fun _ _ => trivial)
  intro r v hv hr
  obtain ⟨hd, rfl⟩ := hr
  rw [if_neg (not_not.2 rfl)]
  have hupdate₂ : BootMetadata.SameUpdate c₂ I.record := hstores.toAgrees.sameUpdate.trans hsame
  have hverify : At c₂ .verifyingInstall c₂ v.device := ⟨hd ▸ hc₂, hstores.state, .refl c₂⟩
  refine ((transitionToTrialBoot_installs hv hup hverify
    (Installation.pending_ne_zero hupdate₂)).and_returns transitionToTrialBoot_returns).mono ?_
    (fun _ _ => trivial)
  intro r d hr
  exact hr.2

/-- With a working external flash a finished backup is followed by the installation. -/
theorem continueInstall_kept {I : Installation} (hs : Env μ up s) (hup : μ.Usable up)
    (hfault : ¬ μ.Faulty) (h : Finished m c s.device)
    (hupdate : BootMetadata.SameUpdate m I.record) (havailable : I.Available s.device) :
    Holds μ up (continueInstall (I.source m) c s) (fun r _ => marksFailed r.1 = false)
      (fun _ => True) := by
  obtain ⟨record, image, hbackup⟩ := h.backup
  have hstate := h.current.state
  refine Holds.bind (validateBackupImage_holds hs hup hbackup) ?_ (fun _ _ => trivial)
  intro r t ht hr
  obtain ⟨hd, rfl | ⟨-, hfaulty⟩⟩ := hr
  swap
  · exact absurd hfaulty hfault
  have hprogress : InstallProgress.validate (I.source m).imageSize.toNat c.copyOffset.toNat =
      .valid := by
    rw [h.copyOffset]
    exact InstallProgress.validate_eq_valid.2 ⟨I.size_ge, I.size_le, Nat.zero_le _, .inr rfl⟩
  dsimp only
  rw [if_neg (by rw [hstate]; decide), if_pos hstate, if_neg (not_not.2 hprogress)]
  exact installCandidate_kept ht hup hfault (hd ▸ h.current) h.copyOffset hupdate (hd ▸ havailable)

/-- The same environment without faults of the external flash. -/
abbrev faultless (μ : Mode) : Mode := { μ with externalFaults := false }

instance faultless_sound : (faultless μ).Sound := ⟨Mode.Sound.internal (μ := μ)⟩

omit [μ.Sound] in
theorem env_faultless (hs : Env μ true s) (hok : ∀ o ∈ s.script, o = .ok) :
    Env (faultless μ) true s := by
  refine ⟨fun o ho => ?_, hs.initialized, hs.atomicCommit, hs.writer⟩
  rw [hok o ho]
  trivial

omit [μ.Sound] in
theorem Holds.of_faultless {α : Type} {r : Result Machine α} {Q : α → Device → Prop}
    {C : Device → Prop} (h : Holds (faultless μ) true r Q C) : Holds μ true r Q C := by
  refine Result.Ensures.mono h (fun a t ht => ⟨⟨fun o ho => ?_, ht.1.initialized,
    ht.1.atomicCommit, ht.1.writer⟩, ht.2⟩) (fun t ht => ht)
  have hadmits := ht.1.admits o ho
  cases o with
  | externalFault status junk => exact absurd hadmits (by simp [Mode.Admits])
  | ok => trivial
  | internalFault junk => exact hadmits
  | cut written => exact hadmits

theorem revertToActiveImage_kept (hs : Env μ up s) (hup : μ.Usable up)
    (reason : ImageInstallerStatus) :
    Holds μ up (revertToActiveImage m reason s) (fun r _ => marksFailed r.1 = false)
      (fun _ => True) := by
  refine ((revertToActiveImage_holds hs hup reason).and_returns
    (revertToActiveImage_returns reason)).mono ?_ (fun _ _ => trivial)
  intro r d hr
  exact hr.2

/-- A backup that is begun or resumed: unless it finishes the update is given up. -/
theorem continueBackup_kept {I : Installation} (hs : Env μ true s)
    (h : At m .backingUp c s.device) (hupdate : BootMetadata.SameUpdate m I.record)
    (havailable : I.Available s.device)
    (hreads : ∀ c' t, resumeBackup c s = .done (.ok, c') t → ∀ o ∈ t.script, o = .ok) :
    Holds μ true (continueBackup (I.source m) c s) (fun r _ => marksFailed r.1 = false)
      (fun _ => True) := by
  unfold continueBackup
  rw [if_pos h.state]
  refine Holds.bind_eq (resumeBackup_finishes hs (.inl rfl) h) ?_ (fun _ _ => trivial)
  intro r t hrun ht hr
  obtain ⟨status, c'⟩ := r
  obtain ⟨hframe, hfinished⟩ := hr
  dsimp only at hfinished ⊢
  by_cases hok : status = .ok
  swap
  · rw [if_pos hok]
    exact revertToActiveImage_kept ht (.inl rfl) status
  subst hok
  rw [if_neg (not_not.2 rfl)]
  have havailable' : I.Available t.device := by
    refine havailable.congr fun p hp i hi => hframe.part ?_ hi
    rcases hp with rfl | rfl <;> decide
  exact Holds.of_faultless (continueInstall_kept (env_faultless ht (hreads c' t hrun)) (.inl rfl)
    (by simp) (hfinished rfl) hupdate havailable')

/-- The installer after the selection of a candidate. -/
theorem processSource_kept {I : Installation} (hs : Env μ true s) {st : UpdateState}
    (hst : st = .imageReady ∨ st = .backingUp) (h : At m st m s.device)
    (hupdate : BootMetadata.SameUpdate m I.record) (havailable : I.Available s.device)
    (hinvalidates : m.state = UpdateState.imageReady.code →
      ∃ u, BackupImageStorage.invalidateHeader s = .done .ok u)
    (hreads : ∀ c t, BacksUp m s c t → ∀ o ∈ t.script, o = .ok) :
    Holds μ true (processSource (I.source m) m s) (fun r _ => marksFailed r.1 = false)
      (fun _ => True) := by
  have hpending := Installation.pending_ne_zero hupdate
  unfold processSource
  rcases hst with rfl | rfl
  swap
  · rw [if_neg (by rw [h.state]; decide)]
    refine continueBackup_kept hs h hupdate havailable fun c t hrun => hreads c t ⟨fun _ => hrun, ?_⟩
    intro hready
    rw [h.state] at hready
    exact absurd hready (by decide)
  rw [if_pos (.inr h.state)]
  obtain ⟨u, hinvalidated⟩ := hinvalidates h.state
  -- the header is invalidated, so only the commit could fail
  have hreturns : ∀ r t, beginBackup m s = .done r t → marksFailed r.1 = false := by
    intro r t hrun
    unfold beginBackup at hrun
    rw [done_bind hinvalidated, if_neg (by decide)] at hrun
    exact commitOr_returns _ _ _ _ hrun
  have hallows : Allows BackupFrame ExternalPartition.backup.address
      (ExternalPartition.backup.address + BackupImage.dataOffset) :=
    (allows_partFrame (p := .backup) (by simp)).mono le_rfl (by decide)
  have hkeeps : Keeps BackupFrame (beginBackup m) :=
    Keeps.bind (invalidateHeader_keeps hallows) fun _ => Keeps.ite (Keeps.pure _)
      (commitOr_frame _ _)
  refine Holds.bind_eq ((beginBackup_moves hs (.inl rfl) h hpending).and_keeps hkeeps) ?_
    (fun _ _ => trivial)
  intro r t hrun ht hr
  obtain ⟨status, c⟩ := r
  obtain ⟨⟨-, hstep⟩, hframe⟩ := hr
  rcases hstep with ⟨hok, hc⟩ | ⟨-, hstuck⟩
  swap
  · have hmarks := (hstuck Mode.Sound.internal).1
    rw [hreturns _ _ hrun] at hmarks
    cases hmarks
  dsimp only at hok hc ⊢
  subst hok
  rw [if_neg (not_not.2 rfl)]
  have havailable' : I.Available t.device := by
    refine havailable.congr fun p hp i hi => hframe.part ?_ hi
    rcases hp with rfl | rfl <;> decide
  refine continueBackup_kept ht hc hupdate havailable' fun c' u' hrun' =>
    hreads c' u' ⟨fun hbacking => ?_, fun _ => ⟨c, t, hrun, hrun'⟩⟩
  rw [h.state] at hbacking
  exact absurd hbacking (by decide)

/-- Nothing is read before the driver is initialised. -/
theorem read_uninitialized (h : s.spi.initialized = false) (p : ExternalPartition)
    (offset length : Nat) : ∃ t, ExternalFlashStorage.read p offset length s = .done none t := by
  unfold ExternalFlashStorage.read
  cases ExternalFlashStorage.resolveRange p offset length with
  | none => exact ⟨s, rfl⟩
  | some address =>
      refine ⟨s.withStatus .notInitialized, ?_⟩
      dsimp only
      unfold SpiFlash.read
      refine (done_bind (m := SpiFlash.isInitialized) rfl).trans ?_
      rw [if_pos (by simp [h])]
      rfl

/-- A candidate that passes its validation was read by a working driver. -/
theorem validateExternalSource_initialized {source : CandidateSource} {t : Machine}
    (h : validateExternalSource source s = .done .ok t) : s.spi.initialized = true := by
  cases hinit : s.spi.initialized with
  | true => rfl
  | false =>
      obtain ⟨u, hread⟩ := read_uninitialized hinit source.partition 0 8
      unfold validateExternalSource at h
      rw [done_bind hread] at h
      cases h

/-- In an environment that spares the update it is not marked failed. -/
theorem processBasicFull_kept {key : TrustedKey} (hs : Env μ up s) {st : UpdateState}
    (hst : st = .imageReady ∨ st = .backingUp) (h : At m st m s.device)
    (hspared : Spared key m s) :
    Holds μ μ.ready (processBasicFull key m s) (fun r _ => marksFailed r.1 = false)
      (fun _ => True) := by
  have habandon : ∀ reason t up, μ.Usable up → Env μ up t →
      Holds μ up (abandon m reason t) (fun r _ => marksFailed r.1 = false) (fun _ => True) := by
    intro reason t up hup ht
    unfold abandon internalMayBeModified
    rw [if_neg (by rw [h.state]; rcases hst with rfl | rfl <;> decide)]
    exact revertToActiveImage_kept ht hup reason
  refine Holds.bind_eq (init_holds hs) ?_ (fun _ _ => trivial)
  intro ok t hinit ht hr
  cases ok with
  | false => exact Holds.pure ht rfl
  | true =>
    rw [if_neg (by decide)]
    refine Holds.bind_eq (loadCandidateSource_holds ht key m) ?_ (fun _ _ => trivial)
    intro r u hload hu hsource
    obtain ⟨hd, ⟨info, rfl, hauthentic, hmatches⟩ | ⟨⟨status, rfl⟩, -⟩⟩ := hsource
    swap
    · exact habandon status u _ μ.usable_ready hu
    have hle := hauthentic.wellFormed.targetSize_le
    cases hup : u.spi.initialized with
    | false =>
      refine Holds.bind_eq (validateExternalSource_holds hu μ.usable_ready m hle) ?_
        (fun _ _ => trivial)
      intro status v hvalidate hv _
      split
      · exact habandon status v _ μ.usable_ready hv
      · next hok =>
        rw [not_not.1 hok] at hvalidate
        rw [validateExternalSource_initialized hvalidate] at hup
        cases hup
    | true =>
      have hu' : Env μ true u := ⟨hu.admits, fun _ => hup, hu.atomicCommit, hu.writer⟩
      refine Holds.ready (Holds.bind_eq (validateExternalSource_holds hu' (.inl rfl) m hle) ?_
        (fun _ _ => trivial))
      intro status v hvalidate hv hsource
      split
      · exact habandon status v _ (.inl rfl) hv
      · next hok =>
        obtain rfl := not_not.1 hok
        obtain ⟨hd', ⟨-, hvectors, hcrc⟩ | ⟨hbad, -⟩⟩ := hsource
        swap
        · exact absurd rfl hbad
        have hinstallable : Installable key m u.device info :=
          ⟨hd ▸ hauthentic, hmatches, hvectors, hcrc⟩
        have hselects : Selects key m s (candidateOf m info) v := ⟨t, u, hinit, hload, hvalidate⟩
        have hv' : At m st m v.device := by
          rw [hd', hd, hr.1]
          exact h
        have havailable : (installationOf hinstallable).Available v.device :=
          ⟨hd'.symm ▸ hinstallable.authentic, fun i _ => by rw [hd']; rfl⟩
        exact processSource_kept (I := installationOf hinstallable) hv hst hv' (.refl m) havailable
          (hspared.invalidates _ _ hselects) fun c w => hspared.reads _ _ c w hselects

end Survived

section Witness

variable {key : TrustedKey} {m : BootMetadata} {d : Device} {info : FirmwareContainer.Info}
  {spi : SpiState} {status failure : SpiFlashStatus} {junk : Nat → UInt8}
  {rest : List SecureDeltaOta.Outcome} {atomicCommit : Bool} {writer : Writer}

/-- Eight operations select the candidate of a small release. -/
theorem selects_answers (h : SmallRelease key m d info) {source : CandidateSource} {t : Machine}
    (hselects : Selects key m ⟨d, spi, .ok :: .ok :: .ok :: .ok :: .ok :: .ok :: .ok :: .ok ::
      rest, atomicCommit, writer⟩ source t) :
    t = ⟨d, ⟨true, .ok⟩, rest, atomicCommit, writer⟩ := by
  obtain ⟨t₁, t₂, hinit, hload, hvalidate⟩ := hselects
  rw [init_answers] at hinit
  cases hinit
  rw [loadCandidateSource_answers h] at hload
  cases hload
  rw [validateExternalSource_answers h] at hvalidate
  cases hvalidate
  rfl

/-- A backup whose first sector cannot be erased says so. -/
theorem resumeBackup_answers (hzero : m.copyOffset = 0) :
    ∃ t, resumeBackup m
        ⟨d, ⟨true, status⟩, .externalFault failure junk :: rest, atomicCommit, writer⟩ =
      .done (.backupEraseFailed, m) t := by
  have hcopied : m.copyOffset.toNat = 0 := congrArg UInt32.toNat hzero
  obtain ⟨t, herase⟩ : ∃ t, BackupImageStorage.eraseSector 0
      ⟨d, ⟨true, status⟩, .externalFault failure junk :: rest, atomicCommit, writer⟩ =
      .done false t := ⟨_, loopThen_leave (by decide) rfl⟩
  have hcopy : copyActiveImageToBackupChunk 0 (BackupProgress.chunkLength 0)
      ⟨d, ⟨true, status⟩, .externalFault failure junk :: rest, atomicCommit, writer⟩ =
      .done .backupEraseFailed t := done_bind herase
  have hstep : backupStep m
      ⟨d, ⟨true, status⟩, .externalFault failure junk :: rest, atomicCommit, writer⟩ =
      .done (.error (.backupEraseFailed, m)) t := by
    unfold backupStep
    rw [hcopied]
    exact done_bind hcopy
  refine ⟨t, ?_⟩
  unfold resumeBackup
  rw [if_neg (by rw [hcopied]; decide)]
  exact loopThen_leave (by rw [hcopied]; decide) hstep

/-- The record of the signed release when its backup is to begin. -/
def backupRecord : BootMetadata :=
  BootMetadata.finalize
    { BootMetadata.init 1 with
      generation := 1
      state := UpdateState.backingUp.code
      pendingVersion := 2
      activeUpdateId := 7
      receivedSize := 9
      expectedSize := 9 }

theorem backupRecord_valid : backupRecord.Valid :=
  (BootMetadata.finalize_valid (by decide)).2
    ⟨by decide, by decide, by decide, by decide, by decide⟩

/-- The signed release on a device whose backup is to begin. -/
def backupDevice : Device :=
  holding backupRecord smallApplication (SignedRelease.flash SignedRelease.image)

theorem backup_installable :
    Installable SignedRelease.key backupRecord backupDevice SignedRelease.info :=
  installable_of_flash rfl
    ⟨by decide, rfl, by decide, rfl, rfl, fun hdelta => absurd hdelta (by decide)⟩

end Witness

section Marked

variable {key : TrustedKey} {m : BootMetadata} {d : Device} {info : FirmwareContainer.Info}
  {spi : SpiState} {rest : List SecureDeltaOta.Outcome} {atomicCommit : Bool} {writer : Writer}

/-- The old backup header cannot be invalidated, so the update is marked failed. -/
theorem processBasicFull_answers {failure : SpiFlashStatus} {junk : Nat → UInt8}
    (h : SmallRelease key m d info) (hstate : m.state = UpdateState.imageReady.code) :
    processBasicFull key m ⟨d, spi, .ok :: .ok :: .ok :: .ok :: .ok :: .ok :: .ok :: .ok ::
        .externalFault failure junk :: rest, atomicCommit, writer⟩ =
      failWith m .backupHeaderFailed .backupHeaderFailed
        ⟨d.withExternal ExternalPartition.backup.address extFlashSectorSize junk,
          ⟨true, failure⟩, rest, atomicCommit, writer⟩ := by
  have hbegin : beginBackup m
      ⟨d, ⟨true, .ok⟩, .externalFault failure junk :: rest, atomicCommit, writer⟩ =
      .done (.backupHeaderFailed, m)
        ⟨d.withExternal ExternalPartition.backup.address extFlashSectorSize junk,
          ⟨true, failure⟩, rest, atomicCommit, writer⟩ := by
    unfold beginBackup
    rw [done_bind invalidateHeader_answers, if_pos (by decide)]
    rfl
  unfold processBasicFull
  rw [done_bind init_answers, if_neg (by decide), done_bind (loadCandidateSource_answers h)]
  dsimp only
  rw [done_bind (validateExternalSource_answers h), if_neg (by decide)]
  unfold processSource
  rw [if_pos (.inr hstate), done_bind hbegin]
  dsimp only
  rw [if_pos (by decide)]

theorem failed_acceptable (hm : m.Valid) (reason : ImageInstallerStatus) :
    ({ m with state := UpdateState.failed.code, lastError := installerError reason } :
      BootMetadata).Acceptable :=
  BootMetadata.acceptable_of (s := .failed) rfl hm.received hm.expected hm.copied rfl

theorem failWith_holds {μ : Mode} [μ.Sound] {up : Bool} {s : Machine} (hs : Env μ up s)
    (hm : m.Valid) (reason status : ImageInstallerStatus) :
    Holds μ up (failWith m reason status s)
      (fun _ d => MetadataFrame s.device d ∧
        ∃ c, Persisted d c ∧ c.state = UpdateState.failed.code)
      (fun _ => True) := by
  refine Holds.bind (Holds.bind (commitMetadata_holds hs (failed_acceptable hm reason)) ?_
    (fun _ _ => trivial)) ?_ (fun _ _ => trivial) (R := fun _ d => MetadataFrame s.device d ∧
        ∃ c, Persisted d c ∧ c.state = UpdateState.failed.code)
  · intro r t ht h
    obtain ⟨c, -, hstores, hpersisted, hframe⟩ := h
    exact Holds.pure ht ⟨hframe, c, hpersisted, hstores.state⟩
  · intro r t ht h
    exact Holds.pure ht h

end Marked

end BootManager

end SecureDeltaOta
