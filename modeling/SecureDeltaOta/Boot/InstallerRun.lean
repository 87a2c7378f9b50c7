import SecureDeltaOta.Boot.Installation

/-!
# Runs of the installer

One run of the installer, from whatever state an earlier run left, either
rejects an image that is not installable before anything is changed or brings
the installation to the trial.
-/

namespace SecureDeltaOta

open Memory Crash MetadataStorage

namespace ImageInstaller

open BootMetadata (SameUpdate)

/-! ## Abandoned updates -/

section Revert

variable {μ : Mode} [μ.Sound] {up : Bool} {s : Machine} {m : BootMetadata}

/-- Nothing but the records of the update changes. -/
abbrev RecordsFrame : Device → Device → Prop :=
  PartFrame (fun a => ¬ Page a) fun p => p ≠ .metadataA ∧ p ≠ .metadataB

theorem reverted_acceptable (m : BootMetadata) (reason : ImageInstallerStatus) :
    (reverted m reason).Acceptable :=
  ⟨rfl, UInt32.le_refl _, Nat.zero_le _, Nat.zero_le _, rfl⟩

/-- An abandoned update is closed before anything of the application is changed. -/
theorem revertToActiveImage_holds (hs : Env μ up s) (hup : μ.Usable up)
    (reason : ImageInstallerStatus) :
    Holds μ up (revertToActiveImage m reason s)
      (fun r d => RecordsFrame s.device d ∧ ∃ c, r = (.sourceRejected, some c) ∧
        c.Stores (reverted m reason) ∧ Persisted d c)
      (fun d => RecordsFrame s.device d ∧
        (persisted d = persisted s.device ∨
          ∃ c, Persisted d c ∧ c.Agrees (reverted m reason))) := by
  have hclear : ∀ d, DownloadCheckpointStorage.CheckpointFrame s.device d →
      RecordsFrame s.device d ∧ persisted d = persisted s.device :=
    fun d h => ⟨h.mono (fun _ _ => trivial) (fun _ ha => ha), (persisted_clear h).1⟩
  have hcommitted : ∀ d d', MetadataFrame d d' → RecordsFrame d d' :=
    fun d d' h => h.mono (fun _ ha => ha) (fun _ _ => trivial)
  refine Holds.bind ((DownloadCheckpointStorage.clear_holds hs hup).and_keeps
    DownloadCheckpointStorage.clear_frame) ?_
    (fun d hd => ⟨(hclear d hd.2).1, .inl (hclear d hd.2).2⟩)
  rintro r t ht ⟨-, hframe⟩
  obtain ⟨hframe, hpersisted⟩ := hclear _ hframe
  refine Holds.bind (commitMetadata_holds ht (reverted_acceptable m reason)) ?_ ?_
  · rintro r u hu ⟨c, rfl, hstores, hnew, hcommit⟩
    exact Holds.pure hu ⟨trans_of RecordsFrame hframe
      (hcommitted _ _ hcommit), c, rfl, hstores, hnew⟩
  · rintro d ⟨hcommit, hold⟩
    refine ⟨trans_of RecordsFrame hframe (hcommitted _ _ hcommit), ?_⟩
    rw [← hpersisted]
    exact hold.imp_right And.right

end Revert

namespace Installation

variable {I : Installation} {μ : Mode} [μ.Sound] {up : Bool} {s : Machine} {c : BootMetadata}

/-! ## Installing pages -/

/-- The source the installer works with. -/
def source (I : Installation) (c : BootMetadata) : CandidateSource :=
  candidateOf c I.info

theorem install_acceptable {offset : Nat} (hrec : I.Record .installing c)
    (h : InstallProgress.validate I.size offset = .valid) :
    ({ c with copyOffset := UInt32.ofNat offset, lastError := 0 } : BootMetadata).Acceptable := by
  have hsame : SameUpdate { c with copyOffset := UInt32.ofNat offset, lastError := 0 } I.record :=
    hrec.update.modify ⟨rfl, rfl, rfl, rfl, rfl⟩
  have hoffset := toNat_ofNat_of_progress h
  have hexpected := expected_eq hsame
  obtain ⟨-, hmax, hle, halign⟩ := InstallProgress.validate_eq_valid.1 h
  refine acceptable .installing hsame hrec.state ?_ ⟨complete hsame, ?_, ?_⟩
  · rw [hoffset]
    omega
  · rw [hoffset, hexpected]
    exact hle
  · rw [← UInt32.toNat_inj, hoffset, hexpected]
    exact halign

omit [μ.Sound] in
theorem install_resumable (I : Installation) :
    Resumable μ I.size (fun m => { m with lastError := 0 }) I.Context (I.Record .installing) where
  page h hpage := h.page hpage
  commit h hframe := h.commit hframe
  offset _ := rfl
  acceptable {c _} hrec _ hoffset := install_acceptable (c := c) hrec hoffset
  done hrec _ hstores :=
    ⟨hstores.state.trans hrec.state,
      hrec.update.modify (hstores.toAgrees.sameUpdate.trans ⟨rfl, rfl, rfl, rfl, rfl⟩)⟩
  torn _ hrec _ hagrees :=
    ⟨hagrees.state.trans hrec.state,
      hrec.update.modify (hagrees.sameUpdate.trans ⟨rfl, rfl, rfl, rfl, rfl⟩)⟩

theorem resumePageCheckpointedCopy_holds (hs : Env μ up s) (hup : μ.Usable up)
    (hfault : ¬ μ.Faulty) (m : BootMetadata) (h : I.Installing c s.device) :
    Holds μ up (resumePageCheckpointedCopy (I.source m) c s)
      (fun r d => ∃ c', r = (.ok, c') ∧ I.Installing c' d ∧ c'.copyOffset.toNat = I.size)
      (fun d => ∃ c', I.Installing c' d) :=
  resumeCopy_holds hs I.install_resumable
    (fun _ _ ht hcontext hvalid hlt => programAndVerifyCandidatePage_holds ht hup hfault rfl
      hcontext.available.image hvalid hlt) h

omit [μ.Sound] in
/-- The installed image passes its verification. -/
theorem verifyInstalledApplication_holds (hs : Env μ up s) (m : BootMetadata)
    (h : Copied I.target I.size I.size s.device.app) :
    Holds μ up (verifyInstalledApplication (I.source m) s)
      (fun r d => d = s.device ∧ r = .ok) (fun d => d = s.device) := by
  have hge := I.size_ge
  have hwindow : window s.device.app 0 I.size = window I.target 0 I.size := by
    rw [window_eq_iff]
    simpa using h.image
  refine verifyApplication_holds hs _ _ ?_ ?_
  · exact (congrArg Crc32.calculate hwindow).trans I.crc
  · exact (vectorsValid_congr fun i hi => h.image i (by omega)).2 I.vectors

/-! ## Transitions -/

/-- A cleared checkpoint changes nothing the installation depends on. -/
theorem Verifying.clear {d d' : Device} (h : I.Verifying c d)
    (hframe : DownloadCheckpointStorage.CheckpointFrame d d') : I.Verifying c d' := by
  obtain ⟨hpersisted, hsame⟩ := persisted_clear hframe
  refine ⟨h.record, hpersisted.trans h.persisted, ⟨?_, h.context.backup.clear hframe, ?_⟩, ?_⟩
  · refine h.context.available.congr fun p hp i hi => hframe.part ?_ hi
    rcases hp with rfl | rfl <;> decide
  · exact fun i hlow hhigh => (hsame i).trans (h.context.beyond i hlow hhigh)
  · exact ⟨fun i hi => (hsame i).trans (h.copied.image i hi),
      fun hfull i hlow hhigh => (hsame i).trans (h.copied.padding hfull i hlow hhigh)⟩

theorem progress_size (I : Installation) : InstallProgress.validate I.size I.size = .valid :=
  InstallProgress.validate_eq_valid.2 ⟨I.size_ge, I.size_le, le_rfl, .inl rfl⟩

/-- The installer hands over a trial with no attempt made and no download open. -/
def StartsTrial (I : Installation) (r : Outcome) (d : Device) : Prop :=
  ∃ c, r = (.ok, some c) ∧ I.Trial c d ∧ c.bootAttempts = 0 ∧ d.CheckpointIdle

/-- How a run of the installer ends. -/
def Ends (I : Installation) (r : Outcome) (d : Device) : Prop :=
  I.StartsTrial r d ∨ ∃ c, r = (.sourceRejected, some c) ∧ I.Abandoned c d

theorem transitionToTrialBoot_holds (hs : Env μ up s) (hup : μ.Usable up) (hfault : ¬ μ.Faulty)
    (h : I.Verifying c s.device) :
    Holds μ up (transitionToTrialBoot c s) I.StartsTrial I.Interrupted := by
  refine Holds.bind ((DownloadCheckpointStorage.clear_holds hs hup).and_keeps
    DownloadCheckpointStorage.clear_frame) ?_
    (fun d hd => ⟨c, .inl (.verifying (h.clear hd.2))⟩)
  rintro r t ht ⟨⟨rfl, hidle⟩ | hfaulty, hframe⟩
  swap
  · exact absurd hfaulty hfault
  have ht' := h.clear hframe
  have hidle' : ∀ d, MetadataFrame t.device d → d.CheckpointIdle := by
    intro d hcommit
    unfold Device.CheckpointIdle
    rw [Device.checkpoint_congr fun p _ i _ => MetadataFrame.part hcommit p i]
    exact hidle
  rw [if_neg (not_not.2 rfl)]
  have hsame : SameUpdate { c with
      state := UpdateState.trialBoot.code, copyOffset := 0, bootAttempts := 0, lastError := 0 }
      I.record := h.record.update.modify ⟨rfl, rfl, rfl, rfl, rfl⟩
  have hacceptable := acceptable .trialBoot hsame rfl (Nat.zero_le _)
    ⟨complete hsame, pending_ne_zero hsame, rfl, Nat.zero_le _⟩
  have hafter : ∀ c' d, MetadataFrame t.device d → Persisted d c' → c'.Agrees { c with
      state := UpdateState.trialBoot.code, copyOffset := 0, bootAttempts := 0, lastError := 0 } →
      I.Trial c' d := by
    intro c' d hcommit hpersisted hagrees
    have hcontext := ht'.context.commit hcommit
    exact ⟨⟨hagrees.state, hagrees.sameUpdate.trans hsame⟩, hpersisted, hcontext.backup,
      ht'.copied.congr (fun i hi => MetadataFrame.app hcommit hi) I.progress_size,
      hcontext.beyond⟩
  refine Holds.bind (commitMetadata_holds ht hacceptable) ?_ ?_
  · rintro r u hu ⟨c', rfl, hstores, hpersisted, hcommit⟩
    exact Holds.pure hu ⟨c', rfl, hafter c' _ hcommit hpersisted hstores.toAgrees,
      hstores.bootAttempts, hidle' _ hcommit⟩
  · rintro d ⟨hcommit, hold | ⟨-, c', hpersisted, hagrees⟩⟩
    · exact ⟨c, .inl (.verifying ⟨h.record, hold.trans ht'.persisted, ht'.context.commit hcommit,
        ht'.copied.congr (fun i hi => MetadataFrame.app hcommit hi) I.progress_size⟩)⟩
    · exact ⟨c', .inr (.inl (hafter c' d hcommit hpersisted hagrees))⟩

theorem transitionToVerify_holds (hs : Env μ up s) (h : I.Installing c s.device)
    (hfull : c.copyOffset.toNat = I.size) :
    Holds μ up (transitionToVerify c I.info.header.targetImageSize s)
      (fun r d => ∃ c', r = (.ok, c') ∧ I.Verifying c' d) I.Interrupted := by
  have hsame : SameUpdate { c with
      state := UpdateState.verifyingInstall.code
      copyOffset := I.info.header.targetImageSize, lastError := 0 } I.record :=
    h.record.update.modify ⟨rfl, rfl, rfl, rfl, rfl⟩
  have hacceptable := acceptable .verifyingInstall hsame rfl I.size_le
    ⟨complete hsame, (hsame.expectedSize.trans I.expectedSize).symm⟩
  have hcopied := h.copied
  rw [hfull] at hcopied
  refine (commitOr_holds hs _ hacceptable).mono ?_ ?_
  · rintro r d ⟨c', rfl, hstores, hpersisted, hcommit⟩
    exact ⟨c', rfl, ⟨hstores.state, hstores.toAgrees.sameUpdate.trans hsame⟩, hpersisted,
      h.context.commit hcommit,
      hcopied.congr (fun i hi => MetadataFrame.app hcommit hi) I.progress_size⟩
  · rintro d ⟨hcommit, hold | ⟨-, c', hpersisted, hagrees⟩⟩
    · exact ⟨c, .inl (.installing ⟨h.record, hold.trans h.persisted, h.context.commit hcommit,
        h.progress, h.copied.congr (fun i hi => MetadataFrame.app hcommit hi) h.progress⟩)⟩
    · exact ⟨c', .inl (.verifying ⟨⟨hagrees.state, hagrees.sameUpdate.trans hsame⟩, hpersisted,
        h.context.commit hcommit,
        hcopied.congr (fun i hi => MetadataFrame.app hcommit hi) I.progress_size⟩)⟩

/-! ## One run -/

theorem installCandidate_holds (hs : Env μ up s) (hup : μ.Usable up) (hfault : ¬ μ.Faulty)
    (m : BootMetadata) (h : I.Installing c s.device) :
    Holds μ up (installCandidate (I.source m) c s) I.StartsTrial I.Interrupted := by
  refine Holds.bind (resumePageCheckpointedCopy_holds hs hup hfault m h) ?_
    (fun d ⟨c', hc'⟩ => ⟨c', .inl (.installing hc')⟩)
  rintro r t ht ⟨c₁, rfl, h₁, hfull⟩
  dsimp only
  rw [if_neg (not_not.2 rfl)]
  refine Holds.bind (transitionToVerify_holds ht h₁ hfull) ?_ (fun _ hd => hd)
  rintro r u hu ⟨c₂, rfl, h₂⟩
  dsimp only
  rw [if_neg (not_not.2 rfl)]
  refine Holds.bind (verifyInstalledApplication_holds hu m h₂.copied) ?_
    (by rintro d rfl; exact ⟨c₂, .inl (.verifying h₂)⟩)
  rintro r v hv ⟨hd, rfl⟩
  rw [if_neg (not_not.2 rfl)]
  exact transitionToTrialBoot_holds hv hup hfault (hd ▸ h₂)

/-- After the backup the installation resumes where it was. -/
theorem continueInstall_holds (hs : Env μ up s) (hup : μ.Usable up) (hfault : ¬ μ.Faulty)
    (m : BootMetadata) (h : I.Installing c s.device ∨ I.Verifying c s.device) :
    Holds μ up (continueInstall (I.source m) c s) I.StartsTrial I.Interrupted := by
  have hcontext : I.Context s.device := h.elim (fun h => h.context) (fun h => h.context)
  have hopen : I.Interrupted s.device :=
    ⟨c, .inl (h.elim (fun h => .installing h) (fun h => .verifying h))⟩
  refine Holds.bind (validateBackupImage_holds hs hup hcontext.backup) ?_
    (by rintro d rfl; exact hopen)
  rintro r t ht ⟨hd, rfl | ⟨-, hfaulty⟩⟩
  swap
  · exact absurd hfaulty hfault
  rw [← hd] at h hopen
  dsimp only
  rcases h with hinstalling | hverifying
  · have hstate := hinstalling.record.state
    rw [if_neg (by rw [hstate]; decide), if_pos hstate]
    have hprogress : InstallProgress.validate (I.source m).imageSize.toNat c.copyOffset.toNat =
        .valid := hinstalling.progress
    rw [if_neg (not_not.2 hprogress)]
    exact installCandidate_holds ht hup hfault m hinstalling
  · rw [if_pos hverifying.record.state]
    refine Holds.bind (verifyInstalledApplication_holds ht m hverifying.copied) ?_
      (by rintro d rfl; exact hopen)
    rintro r u hu ⟨hd', rfl⟩
    rw [if_pos rfl]
    exact transitionToTrialBoot_holds hu hup hfault (hd' ▸ hverifying)

theorem Intact.records {d d' : Device} (h : I.Intact d) (hframe : RecordsFrame d d') :
    I.Intact d' :=
  fun i hi => (MetadataFrame.app hframe hi).trans (h i hi)

theorem BackingUp.records {d d' : Device} (h : I.BackingUp c d) (hframe : RecordsFrame d d')
    (hold : MetadataStorage.persisted d' = MetadataStorage.persisted d) : I.BackingUp c d' := by
  have hmax := (BackupProgress.validate_eq_valid.1 h.progress).1
  have hsize : BackupImage.dataOffset + applicationMaxSize ≤ ExternalPartition.backup.size := by
    decide
  refine ⟨h.record, hold.trans h.persisted, h.available.congr fun p hp i hi => ?_,
    h.intact.records hframe, fun i hi => ?_⟩
  · refine hframe.part ?_ hi
    rcases hp with rfl | rfl <;> decide
  · rw [← h.copied i hi]
    exact hframe.part (p := .backup) (by decide) (by omega)

/-- A backup that is under way is completed first. -/
theorem continueBackup_holds (hs : Env μ up s) (hup : μ.Usable up) (hfault : ¬ μ.Faulty)
    (m : BootMetadata) (h : I.BackingUp c s.device) :
    Holds μ up (continueBackup (I.source m) c s) I.Ends I.Interrupted := by
  unfold continueBackup
  rw [if_pos h.record.state]
  refine Holds.bind (resumeBackup_holds hs hup hfault h) ?_ (fun _ hd => hd)
  rintro r t ht (⟨c', rfl, hc'⟩ | ⟨hzero, c', rfl, hc'⟩)
  · dsimp only
    rw [if_neg (not_not.2 rfl)]
    exact (continueInstall_holds ht hup hfault m (.inl hc')).mono (fun _ _ => Or.inl)
      (fun _ hd => hd)
  · dsimp only
    rw [if_pos (by decide)]
    have habandoned : ∀ r d, RecordsFrame t.device d → Persisted d r →
        r.Agrees (reverted c' .backupHeaderFailed) → I.Abandoned r d := by
      intro r d hframe hpersisted hagrees
      refine ⟨hzero, hagrees.state, ?_, hpersisted, hc'.intact.records hframe⟩
      exact (hagrees.activeVersion.trans hc'.record.update.activeVersion).trans hzero
    refine (revertToActiveImage_holds ht hup _).mono ?_ ?_
    · rintro r d ⟨hframe, e, rfl, hstores, hpersisted⟩
      exact .inr ⟨e, rfl, habandoned e d hframe hpersisted hstores.toAgrees⟩
    · rintro d ⟨hframe, hold | ⟨e, hpersisted, hagrees⟩⟩
      · exact (hc'.records hframe hold).interrupted
      · exact ⟨e, .inr (.inr (habandoned e d hframe hpersisted hagrees))⟩

theorem processSource_holds (hs : Env μ up s) (hup : μ.Usable up) (hfault : ¬ μ.Faulty)
    (m : BootMetadata) (h : I.Open c s.device) :
    Holds μ up (processSource (I.source m) c s) I.Ends I.Interrupted := by
  have hinstall : I.Installing c s.device ∨ I.Verifying c s.device →
      Holds μ up (processSource (I.source m) c s) I.Ends I.Interrupted := by
    intro hc
    have hstate : c.state = UpdateState.installing.code ∨
        c.state = UpdateState.verifyingInstall.code :=
      hc.imp (fun h => h.record.state) (fun h => h.record.state)
    unfold processSource continueBackup
    rw [if_neg (by rcases hstate with h | h <;> rw [h] <;> decide),
      if_neg (by rcases hstate with h | h <;> rw [h] <;> decide)]
    exact (continueInstall_holds hs hup hfault m hc).mono (fun _ _ => Or.inl) (fun _ hd => hd)
  cases h with
  | ready hready =>
      unfold processSource
      rw [if_pos (.inr hready.record.state)]
      refine Holds.bind (beginBackup_holds hs hup hfault hready) ?_ (fun _ hd => hd)
      rintro r t ht ⟨c', rfl, hc'⟩
      dsimp only
      rw [if_neg (not_not.2 rfl)]
      exact continueBackup_holds ht hup hfault m hc'
  | backingUp hc =>
      unfold processSource
      rw [if_neg (by rw [hc.record.state]; decide)]
      exact continueBackup_holds hs hup hfault m hc
  | installing hc => exact hinstall (.inl hc)
  | verifying hc => exact hinstall (.inr hc)

theorem Open.available {d : Device} (h : I.Open c d) : I.Available d := by
  cases h with
  | ready h => exact h.available
  | backingUp h => exact h.available
  | installing h => exact h.context.available
  | verifying h => exact h.context.available

/-- The states of an open installation. -/
def openStates : List UpdateState :=
  [.imageReady, .backingUp, .installing, .verifyingInstall]

theorem Open.record {d : Device} (h : I.Open c d) : ∃ st ∈ openStates, I.Record st c := by
  cases h with
  | ready h => exact ⟨_, by decide, h.record⟩
  | backingUp h => exact ⟨_, by decide, h.record⟩
  | installing h => exact ⟨_, by decide, h.record⟩
  | verifying h => exact ⟨_, by decide, h.record⟩

theorem Open.matches {d : Device} (h : I.Open c d) : Matches c I.info := by
  obtain ⟨st, hst, hstate, hsame⟩ := h.record
  refine ⟨?_, hsame.pendingVersion.trans I.pendingVersion,
    by rw [hsame.activeUpdateId]; exact I.activeUpdateId,
    hsame.receivedSize.trans I.receivedSize, hsame.expectedSize.trans I.expectedSize,
    fun hdelta => hsame.activeVersion.trans (I.baseVersion hdelta)⟩
  rw [hstate]
  fin_cases hst <;> decide

theorem Open.persisted {d : Device} (h : I.Open c d) : Persisted d c := by
  cases h with
  | ready h => exact h.persisted
  | backingUp h => exact h.persisted
  | installing h => exact h.persisted
  | verifying h => exact h.persisted

/-- An installation is where it was when no record was committed. -/
theorem Open.kept {d d' : Device} (h : I.Open c d) (hframe : MetadataFrame d d')
    (hold : MetadataStorage.persisted d' = MetadataStorage.persisted d) : I.Open c d' := by
  have happ : ∀ i < applicationMaxSize, d'.app i = d.app i :=
    fun i hi => MetadataFrame.app hframe hi
  cases h with
  | ready h =>
      exact .ready ⟨h.record, hold.trans h.persisted, h.available.commit hframe,
        h.intact.commit hframe⟩
  | backingUp h => exact .backingUp (h.kept hframe hold)
  | installing h =>
      exact .installing ⟨h.record, hold.trans h.persisted, h.context.commit hframe, h.progress,
        h.copied.congr happ h.progress⟩
  | verifying h =>
      exact .verifying ⟨h.record, hold.trans h.persisted, h.context.commit hframe,
        h.copied.congr happ I.progress_size⟩

/-- What is available is installable. -/
theorem Open.installable {d : Device} (h : I.Open c d) : Installable I.key c d I.info := by
  have havailable := h.available
  have hge := I.size_ge
  refine ⟨havailable.authentic, h.matches, ?_, ?_⟩
  · exact (vectorsValid_congr fun i hi => havailable.image i (by omega)).2 I.vectors
  · rw [← I.crc, Device.slice_eq_window]
    congr 1
    rw [window_eq_iff]
    intro i hi
    rw [Nat.zero_add]
    exact havailable.image i hi

/-- What an open installation says about the application. -/
theorem Open.progress {d : Device} (h : I.Open c d) :
    (c.state = UpdateState.installing.code → ∀ i < c.copyOffset.toNat, d.app i = I.target i) ∧
      ∀ i, pageEnd I.size ≤ i → i < applicationMaxSize → d.app i = I.base i := by
  have hother : ∀ {st : UpdateState}, I.Record st c → st ≠ .installing →
      c.state ≠ UpdateState.installing.code := fun hrecord hne hstate =>
    hne (UpdateState.code_inj.1 (hrecord.state.symm.trans hstate))
  cases h with
  | ready h =>
      exact ⟨fun hstate => absurd hstate (hother h.record (by decide)),
        fun i _ hi => h.intact i hi⟩
  | backingUp h =>
      exact ⟨fun hstate => absurd hstate (hother h.record (by decide)),
        fun i _ hi => h.intact i hi⟩
  | installing h => exact ⟨fun _ => h.copied.image, h.context.beyond⟩
  | verifying h =>
      exact ⟨fun hstate => absurd hstate (hother h.record (by decide)), h.context.beyond⟩

/-- A trial is kept by commits that are about it. -/
theorem Trial.commit {c' : BootMetadata} {d d' : Device} (h : I.Trial c d)
    (hframe : MetadataFrame d d') (hc : Persisted d' c')
    (hstate : c'.state = UpdateState.trialBoot.code) (hsame : BootMetadata.SameUpdate c' c) :
    I.Trial c' d' := by
  have happ : ∀ i < applicationMaxSize, d'.app i = d.app i :=
    fun i hi => MetadataFrame.app hframe hi
  exact ⟨⟨hstate, hsame.trans h.record.update⟩, hc, h.backup.commit hframe,
    h.installed.copied.congr happ I.progress_size,
    fun i hlow hhigh => (happ i hhigh).trans (h.installed.beyond i hlow hhigh)⟩

theorem Trial.vectors {d : Device} (h : I.Trial c d) : VectorsValid applicationMaxSize d.app := by
  have hge := I.size_ge
  exact ((vectorsValid_congr fun i hi => h.installed.copied.image i (by omega)).2
    I.vectors).weaken

/-- Any open installation is brought to the trial. -/
theorem processBasicFull_holds (hs : Env μ up s) (hfault : ¬ μ.Faulty) (h : I.Open c s.device) :
    Holds μ μ.ready (processBasicFull I.key c s) I.Ends I.Interrupted := by
  refine init_bind_holds hs ⟨c, .inl h⟩ ?_
  intro ok t hok ht hd
  obtain rfl := hok.resolve_right hfault
  rw [← hd] at h
  have hinstallable := h.installable
  refine Holds.bind (loadCandidateSource_holds ht I.key c) ?_
    (by rintro d rfl; exact ⟨c, .inl h⟩)
  rintro r u hu ⟨hd', ⟨info, rfl, hauthentic, -⟩ | ⟨-, hbad⟩⟩
  swap
  · exact absurd ⟨hinstallable.authentic, hinstallable.matching⟩
      ((hbad.resolve_left hfault) I.info)
  obtain rfl := hinstallable.authentic.unique hauthentic
  rw [← hd'] at h hinstallable
  refine Holds.bind (validateExternalSource_holds hu μ.usable_ready c I.size_le) ?_
    (by rintro d rfl; exact ⟨c, .inl h⟩)
  rintro r v hv ⟨hd'', ⟨rfl, -⟩ | ⟨-, hbad⟩⟩
  · rw [if_neg (not_not.2 rfl)]
    exact processSource_holds hv μ.usable_ready hfault c (hd'' ▸ h)
  · exact absurd ⟨hinstallable.vectors, hinstallable.crc⟩ (hbad.resolve_left hfault)

end Installation

/-! ## Rejected images -/

section Reject

variable {μ : Mode} [μ.Sound] {up : Bool} {s : Machine} {m : BootMetadata}

/-- An image that is not installable is rejected. -/
theorem processBasicFull_rejects (key : TrustedKey) (hs : Env μ up s) (hfault : ¬ μ.Faulty)
    (hstate : m.state = UpdateState.imageReady.code)
    (hnone : ∀ info, ¬ Installable key m s.device info) :
    Holds μ μ.ready (processBasicFull key m s)
      (fun r d => RecordsFrame s.device d ∧ ∃ reason c, r = (.sourceRejected, some c) ∧
        c.Stores (reverted m reason) ∧ Persisted d c)
      (fun d => RecordsFrame s.device d ∧
        (persisted d = persisted s.device ∨
          ∃ reason c, Persisted d c ∧ c.Agrees (reverted m reason))) := by
  have hrefl : RecordsFrame s.device s.device := refl_of RecordsFrame _
  -- nothing is modified yet, so the update is abandoned by reverting
  have habandon : ∀ reason t, Env μ μ.ready t → t.device = s.device →
      Holds μ μ.ready (abandon m reason t)
        (fun r d => RecordsFrame s.device d ∧ ∃ reason c, r = (.sourceRejected, some c) ∧
          c.Stores (reverted m reason) ∧ Persisted d c)
        (fun d => RecordsFrame s.device d ∧
          (persisted d = persisted s.device ∨
            ∃ reason c, Persisted d c ∧ c.Agrees (reverted m reason))) := by
    intro reason t ht hd
    unfold abandon internalMayBeModified
    rw [if_neg (by rw [hstate]; decide), ← hd]
    refine (revertToActiveImage_holds ht μ.usable_ready reason).mono ?_ ?_
    · rintro r d ⟨hframe, c, rfl, hstores, hpersisted⟩
      exact ⟨hframe, reason, c, rfl, hstores, hpersisted⟩
    · rintro d ⟨hframe, hold⟩
      exact ⟨hframe, hold.imp_right fun ⟨c, h⟩ => ⟨reason, c, h⟩⟩
  refine init_bind_holds hs ⟨hrefl, .inl rfl⟩ ?_
  intro ok t hok ht hd
  obtain rfl := hok.resolve_right hfault
  refine Holds.bind (loadCandidateSource_holds ht key m) ?_
    (by rintro d rfl; rw [hd]; exact ⟨hrefl, .inl rfl⟩)
  rintro r u hu ⟨hd', ⟨info, rfl, hauthentic, hmatches⟩ | ⟨⟨status, rfl⟩, -⟩⟩
  swap
  · exact habandon status u hu (hd'.trans hd)
  refine Holds.bind (validateExternalSource_holds hu μ.usable_ready m
    hauthentic.wellFormed.targetSize_le) ?_
    (by rintro d rfl; rw [hd', hd]; exact ⟨hrefl, .inl rfl⟩)
  rintro r v hv ⟨hd'', ⟨rfl, hvectors, hcrc⟩ | ⟨hbad, -⟩⟩
  · rw [hd'.trans hd] at hvectors hcrc
    rw [hd] at hauthentic
    exact absurd ⟨hauthentic, hmatches, hvectors, hcrc⟩ (hnone info)
  · rw [if_pos hbad]
    exact habandon r v hv (hd''.trans (hd'.trans hd))

end Reject

end ImageInstaller

end SecureDeltaOta
