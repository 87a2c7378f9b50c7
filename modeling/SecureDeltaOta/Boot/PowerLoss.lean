import SecureDeltaOta.Boot.SignedRelease
import SecureDeltaOta.Boot.UpdateStages

/-!
# Sequences of interrupted boots

Boots follow each other, each of them possibly cut between two flash operations.
The application is backed up before it is overwritten, an installation that is
begun reaches its trial, and a rollback that is begun reaches the backed up image.
-/

namespace SecureDeltaOta

open Memory Crash MetadataStorage

namespace BootManager

open ImageInstaller (Installation Installable BackupHolds Copied RollingBack Restored
  RollbackRecord rollbackDiagnostic)

/-! ## Backup before overwrite -/

/-- Nothing is known but the application and its version. -/
def Provenance.ofApplication (key : TrustedKey) (image : Nat → UInt8) (version : UInt32) :
    Provenance key where
  Active image' version' := (∀ i < applicationMaxSize, image' i = image i) ∧ version' = version
  Verified _ _ := True
  Accepted I := (∀ i < applicationMaxSize, I.base i = image i) ∧ I.record.activeVersion = version
  Trial _ _ := True
  Confirmable := False
  active_congr hsame h := ⟨fun i hi => (hsame i hi).trans (h.1 i hi), h.2⟩
  verified_candidate _ _ _ _ _ := trivial
  verified_records _ _ := trivial
  accept _ hactive _ := hactive
  base h := h
  installed _ _ _ := trivial
  trial_congr _ _ _ := trivial
  confirm h := h.elim

/-- The states in which the application is still the one of before the update. -/
def untouchedStates : List UpdateState :=
  [.artifactReady, .verifyingContainer, .verifyingBase, .patching, .imageReady, .backingUp, .idle]

/-- The states in which the application may be overwritten. -/
def overwritingStates : List UpdateState :=
  [.installing, .verifyingInstall, .trialBoot, .rollback]

/-- The application of before the update can be restored, or need not be. -/
structure Recoverable (image : Nat → UInt8) (version : UInt32) (c : BootMetadata) (d : Device) :
    Prop where
  state : ∃ st ∈ untouchedStates ++ overwritingStates, c.state = st.code
  untouched : (∃ st ∈ untouchedStates, c.state = st.code) →
    ∀ i < applicationMaxSize, d.app i = image i
  copied : c.state = UpdateState.backingUp.code →
    ∀ i < c.copyOffset.toNat, d.backupImage i = image i
  backedUp : (∃ st ∈ overwritingStates, c.state = st.code) →
    BackupImage.validate d.backupHeader = .valid ∧ d.backupHeader.activeVersion = version ∧
      d.backupHeader.imageCrc32 = Crc32.calculate (window image 0 applicationMaxSize) ∧
      ∀ i < applicationMaxSize, d.backupImage i = image i

section Recoverable

variable {key : TrustedKey} {μ : Mode} [μ.Sound] {image : Nat → UInt8} {version : UInt32}
  {c : BootMetadata} {d : Device}

theorem recoverable_untouched {st : UpdateState} (hst : st ∈ untouchedStates)
    (hstate : c.state = st.code) (happ : ∀ i < applicationMaxSize, d.app i = image i)
    (hcopied : st = .backingUp → ∀ i < c.copyOffset.toNat, d.backupImage i = image i) :
    Recoverable image version c d := by
  refine ⟨⟨st, List.mem_append_left _ hst, hstate⟩, fun _ => happ, fun h => ?_, ?_⟩
  · exact hcopied (UpdateState.code_inj.1 (hstate.symm.trans h))
  · rintro ⟨st', hst', hstate'⟩
    obtain rfl := UpdateState.code_inj.1 (hstate.symm.trans hstate')
    fin_cases hst <;> exact absurd hst' (by decide)

theorem recoverable_overwriting {st : UpdateState} (hst : st ∈ overwritingStates)
    (hstate : c.state = st.code) {record : BackupImageRecord} {base : Nat → UInt8}
    (hbackup : BackupHolds record base d) (hbase : ∀ i < applicationMaxSize, base i = image i)
    (hversion : record.activeVersion = version) : Recoverable image version c d := by
  have hwindow : window base 0 applicationMaxSize = window image 0 applicationMaxSize := by
    rw [window_eq_iff]
    intro i hi
    rw [Nat.zero_add]
    exact hbase i hi
  refine ⟨⟨st, List.mem_append_right _ hst, hstate⟩, ?_, fun h => ?_, fun _ => ?_⟩
  · rintro ⟨st', hst', hstate'⟩
    obtain rfl := UpdateState.code_inj.1 (hstate.symm.trans hstate')
    fin_cases hst <;> exact absurd hst' (by decide)
  · obtain rfl := UpdateState.code_inj.1 (hstate.symm.trans h)
    exact absurd hst (by decide)
  · rw [hbackup.header]
    refine ⟨hbackup.valid, hversion, ?_, fun i hi => (hbackup.image i hi).trans (hbase i hi)⟩
    rw [hbackup.crc, hwindow]

omit [μ.Sound] in
/-- Every stage of an update of the application is recoverable. -/
theorem Stage.recoverable (h : Stage μ (Provenance.ofApplication key image version) c d) :
    Recoverable image version c d := by
  cases h with
  | idle hstate _ hactive =>
      exact recoverable_untouched (by decide) hstate hactive.1 (by simp)
  | received hstate _ hactive _ =>
      obtain ⟨st, hst, hcode⟩ := hstate
      refine recoverable_untouched ?_ hcode hactive.1 ?_
      · fin_cases hst <;> decide
      · rintro rfl
        exact absurd hst (by decide)
  | verified hstate _ hactive _ _ =>
      exact recoverable_untouched (by decide) hstate hactive.1 (by simp)
  | installing I _ haccepted _ hopen =>
      cases hopen with
      | ready h =>
          exact recoverable_untouched (by decide) h.record.state
            (fun i hi => (h.intact i hi).trans (haccepted.1 i hi)) (by simp)
      | backingUp h =>
          have hmax := (BackupProgress.validate_eq_valid.1 h.progress).1
          refine recoverable_untouched (by decide) h.record.state
            (fun i hi => (h.intact i hi).trans (haccepted.1 i hi)) fun _ i hi => ?_
          exact (h.copied i hi).trans (haccepted.1 i (by omega))
      | installing h =>
          exact recoverable_overwriting (by decide) h.record.state h.context.backup haccepted.1
            haccepted.2
      | verifying h =>
          exact recoverable_overwriting (by decide) h.record.state h.context.backup haccepted.1
            haccepted.2
  | trial record base hstate _ hfallback _ =>
      exact recoverable_overwriting (by decide) hstate hfallback.backup hfallback.active.1
        (hfallback.version.trans hfallback.active.2)
  | rollingBack record base hfallback hrolling =>
      exact recoverable_overwriting (by decide) hrolling.record.state hfallback.backup
        hfallback.active.1 (hfallback.version.trans hfallback.active.2)
  | confirmed _ _ hconfirmable _ => exact hconfirmable.elim

end Recoverable

/-- Boots from a stage, each cut anywhere or not at all, lead to a stage. -/
theorem bootRuns_stage {build : Build} {P : Provenance build.key} (atomicCommit : Bool)
    (cuts : List (Option Nat)) {c : BootMetadata} {d : Device}
    (h : Stage (cutMode true atomicCommit) P c d) :
    ∃ c', Stage (cutMode true atomicCommit) P c' (bootRuns build atomicCommit cuts d) := by
  induction cuts generalizing c d with
  | nil => exact ⟨c, h⟩
  | cons cut cuts ih =>
      have hrun := run_stage (boot_env cut atomicCommit (d.record .boot))
        (cutMode_works true atomicCommit) (h.record .boot)
      have hstate : ∃ c', Stage (cutMode true atomicCommit) P c'
          (bootRun build atomicCommit d cut) := by
        refine Holds.state (C := fun t => ∃ c', Stage (cutMode true atomicCommit) P c' t)
          (hrun.mono ?_ ?_)
        · rintro ending t ⟨c', hstage, -⟩
          exact ⟨c', hstage⟩
        · rintro t ⟨c', hstage, -⟩
          exact ⟨c', hstage⟩
      obtain ⟨c', hstage⟩ := hstate
      exact ih hstage

/--
Whatever a received artifact or a verified image is, and wherever the boots that
process it are cut, the application is the one of before the update until its
complete backup is in place, and from then on the backup is valid until the
update is closed.
-/
theorem backup_before_overwrite (build : Build) (atomicCommit : Bool) (d : Device)
    (m : BootMetadata) (hm : Persisted d m)
    (hstate : m.state = UpdateState.artifactReady.code ∨ m.state = UpdateState.imageReady.code)
    (hvectors : VectorsValid applicationMaxSize d.app) (cuts : List (Option Nat)) :
    ∃ c, Persisted (bootRuns build atomicCommit cuts d) c ∧
      Recoverable d.app m.activeVersion c (bootRuns build atomicCommit cuts d) := by
  have hactive : (Provenance.ofApplication build.key d.app m.activeVersion).Active d.app
      m.activeVersion := ⟨fun _ _ => rfl, rfl⟩
  have hstage : Stage (cutMode true atomicCommit)
      (Provenance.ofApplication build.key d.app m.activeVersion) m d := by
    rcases hstate with hreceived | hverified
    · exact .received ⟨_, by decide, hreceived⟩ hm hactive hvectors
    · exact .verified hverified hm hactive hvectors trivial
  obtain ⟨c, hc⟩ := bootRuns_stage atomicCommit cuts hstage
  exact ⟨c, hc.persisted, hc.recoverable⟩

/-- An application of two words whose vectors are valid. -/
def smallApplication (i : Nat) : UInt8 :=
  [0x00, 0x50, 0x00, 0x20, 0x09, 0x60, 0x00, 0x08].getD i 0xFF

theorem smallApplication_vectors : VectorsValid applicationMaxSize smallApplication := by
  unfold VectorsValid
  exact FullImage.validateVector_eq_valid.1 (by decide)

theorem holding_app (m : BootMetadata) (image external : Nat → UInt8) {i : Nat}
    (hi : i < applicationMaxSize) : (holding m image external).app i = image i := by
  have hend : applicationStartAddress + applicationMaxSize = bootMetadataAAddress := rfl
  simp only [Device.app, holding]
  rw [if_pos (by omega), Nat.add_sub_cancel_left]

/-- A node that received an artifact and loses power twice. -/
theorem backup_before_overwrite_received :
    ∃ c, Persisted (bootRuns ⟨⟨true, 1, []⟩, 1⟩ false [some 3, none]
        (holding SecureContainer.receivedRecord smallApplication fun _ => 0xFF)) c ∧
      Recoverable (holding SecureContainer.receivedRecord smallApplication fun _ => 0xFF).app 1 c
        (bootRuns ⟨⟨true, 1, []⟩, 1⟩ false [some 3, none]
          (holding SecureContainer.receivedRecord smallApplication fun _ => 0xFF)) := by
  refine backup_before_overwrite ⟨⟨true, 1, []⟩, 1⟩ false _ SecureContainer.receivedRecord
    (persisted_holding SecureContainer.receivedRecord_valid _ _) (.inl rfl) ?_ [some 3, none]
  refine (vectorsValid_congr fun i hi => ?_).2 smallApplication_vectors
  exact holding_app _ _ _ (hi.trans (by decide))

/-! ## An installation reaches its trial -/

section Install

variable {I : Installation} {c : BootMetadata} {d : Device}

/-- An open installation or its trial, in a record that a boot meets. -/
inductive InstallAt (I : Installation) : Nat → BootMetadata → Device → Prop
  | isOpen {c : BootMetadata} {d : Device} (h : I.Open c d) : InstallAt I 1 c d
  | trial {c : BootMetadata} {d : Device} (h : I.Trial c d) (hfirst : c.bootAttempts = 0) :
      InstallAt I 0 c d

/-- A boot of an open installation brings it to its trial and starts the new application. -/
theorem install_run (build : Build) {μ : Mode} [μ.Sound] {s : Machine} (hs : Env μ false s)
    (hfault : ¬ μ.Faulty) (hkey : I.key = build.key) (hversion : I.record.activeVersion ≠ 0)
    (h : I.Open c s.device) :
    Holds μ false (run build s) (fun _ d => ∃ c', I.Trial c' d)
      (fun d => ∃ c', I.Open c' d ∨ I.Trial c' d) := by
  refine run_holds (S := InstallAt I) ?_ hs h.persisted (by decide) (.isOpen h)
  rintro n c t ht (hopen | ⟨htrial, hfirst⟩)
  · rw [← hkey]
    refine (install_holds ht hfault hopen).mono ?_ ?_
    · rintro r d ⟨c', rfl, ⟨htrial, hfirst, -⟩ | habandoned⟩
      · exact ⟨0, Nat.one_pos, .trial htrial hfirst⟩
      · exact absurd habandoned.unversioned hversion
    · rintro d ⟨c', hopen | htrial | habandoned⟩
      · exact ⟨c', .inl hopen⟩
      · exact ⟨c', .inr htrial⟩
      · exact absurd habandoned.unversioned hversion
  · have hlimit : ¬ c.bootAttempts ≥ BootMetadata.maxBootAttempts := by
      rw [hfirst]
      decide
    have hkept : ∀ c' d', MetadataFrame t.device d' → Persisted d' c' →
        c'.Agrees { c with bootAttempts := c.bootAttempts + 1, lastError := 0 } →
        I.Trial c' d' := fun c' d' hframe hc' hagrees =>
      htrial.commit hframe hc' (hagrees.state.trans htrial.record.state)
        (hagrees.sameUpdate.trans ⟨rfl, rfl, rfl, rfl, rfl⟩)
    refine (trial_holds build.key ht htrial.persisted htrial.record.state hlimit
      htrial.vectors).mono ?_ ?_
    · rintro r d ⟨vector, c', rfl, hc', hstores, hframe⟩
      exact ⟨c', hkept c' d hframe hc' hstores.toAgrees⟩
    · rintro d ⟨hframe, hold | ⟨-, c', hc', hagrees⟩⟩
      · exact ⟨c, .inr (htrial.commit hframe (hold.trans htrial.persisted) htrial.record.state
          (.refl c))⟩
      · exact ⟨c', .inr (hkept c' d hframe hc' hagrees)⟩

/-- An installation stays open over interrupted boots that do not reach the trial. -/
theorem install_bootRuns (build : Build) (hkey : I.key = build.key)
    (hversion : I.record.activeVersion ≠ 0) (h : I.Open c d) (cuts : List (Option Nat))
    (hcuts : ∀ k ≤ cuts.length, ∀ c', Persisted (bootRuns build true (cuts.take k) d) c' →
      c'.state ≠ UpdateState.trialBoot.code) :
    ∃ c', I.Open c' (bootRuns build true cuts d) := by
  induction cuts generalizing c d with
  | nil => exact ⟨c, h⟩
  | cons cut cuts ih =>
      have hrun := install_run build (boot_env cut true (d.record .boot))
        (cutMode_works true true) hkey hversion (h.kept ⟨fun _ _ => rfl, fun _ _ => rfl⟩
          (persisted_record d .boot))
      have hstate : ∃ c', I.Open c' (bootRun build true d cut) ∨
          I.Trial c' (bootRun build true d cut) :=
        Holds.state (C := fun t => ∃ c', I.Open c' t ∨ I.Trial c' t)
          (hrun.mono (fun _ _ ⟨c', htrial⟩ => ⟨c', .inr htrial⟩) (fun _ hd => hd))
      obtain ⟨c', hopen | htrial⟩ := hstate
      · exact ih hopen fun k hk => hcuts (k + 1) (Nat.succ_le_succ hk)
      · exact absurd htrial.record.state
          (hcuts 1 (Nat.succ_le_succ (Nat.zero_le _)) c' htrial.persisted)

/--
A verified image of a signed container is installed, wherever the boots that
install it are cut: what is copied is the image, no page behind it is touched, and
one boot that is not interrupted starts the trial.
-/
theorem install_converges (build : Build) (d : Device) (m : BootMetadata)
    (info : FirmwareContainer.Info) (hm : Persisted d m)
    (hstate : m.state = UpdateState.imageReady.code) (hversion : m.activeVersion ≠ 0)
    (hinstallable : Installable build.key m d info) (cuts : List (Option Nat))
    (hcuts : ∀ k ≤ cuts.length, ∀ c, Persisted (bootRuns build true (cuts.take k) d) c →
      c.state ≠ UpdateState.trialBoot.code) :
    (∀ k ≤ cuts.length, ∃ c, Persisted (bootRuns build true (cuts.take k) d) c ∧
      (c.state = UpdateState.installing.code → ∀ i < c.copyOffset.toNat,
        (bootRuns build true (cuts.take k) d).app i = d.part .reconstructed i) ∧
      ∀ i, ImageInstaller.pageEnd info.header.targetImageSize.toNat ≤ i →
        i < applicationMaxSize → (bootRuns build true (cuts.take k) d).app i = d.app i) ∧
    ∃ ending t c, boot build true (powerCut none) (bootRuns build true cuts d) = .done ending t ∧
      Persisted t.device c ∧ c.state = UpdateState.trialBoot.code ∧
      (∀ i < info.header.targetImageSize.toNat, t.device.app i = d.part .reconstructed i) ∧
      (∀ i, info.header.targetImageSize.toNat ≤ i →
        i < ImageInstaller.pageEnd info.header.targetImageSize.toNat → t.device.app i = 0xFF) ∧
      ∀ i, ImageInstaller.pageEnd info.header.targetImageSize.toNat ≤ i →
        i < applicationMaxSize → t.device.app i = d.app i := by
  have hopen : (installationOf hinstallable).Open m d :=
    .ready ⟨⟨hstate, .refl m⟩, hm, ⟨hinstallable.authentic, fun _ _ => rfl⟩, fun _ _ => rfl⟩
  refine ⟨fun k hk => ?_, ?_⟩
  · obtain ⟨c, hc⟩ := install_bootRuns build rfl hversion hopen (cuts.take k) fun j hj => by
      rw [List.take_take]
      exact hcuts _ ((min_le_right j k).trans hk)
    exact ⟨c, hc.persisted, hc.progress⟩
  · obtain ⟨c, hc⟩ := install_bootRuns build rfl hversion hopen cuts hcuts
    have hframe : MetadataFrame (bootRuns build true cuts d)
        ((bootRuns build true cuts d).record .boot) := ⟨fun _ _ => rfl, fun _ _ => rfl⟩
    have hstart := hc.kept hframe (persisted_record _ .boot)
    obtain ⟨ending, t, hdone, -, c', htrial⟩ := (install_run build (boot_env_uncut true _)
      (cutMode_works false true) rfl hversion hstart).exists_done rfl
    exact ⟨ending, t, c', hdone, htrial.persisted, htrial.record.state,
      htrial.installed.copied.image, htrial.installed.copied.padding rfl, htrial.installed.beyond⟩

/-- The record of the signed release when its image is reconstructed. -/
def releaseRecord : BootMetadata :=
  BootMetadata.finalize
    { BootMetadata.init 1 with
      generation := 1
      state := UpdateState.imageReady.code
      pendingVersion := 2
      activeUpdateId := 7
      receivedSize := 9
      expectedSize := 9 }

theorem releaseRecord_valid : releaseRecord.Valid :=
  (BootMetadata.finalize_valid (by decide)).2
    ⟨by decide, by decide, by decide, by decide, by decide⟩

/-- A device about to install the signed release. -/
def releaseDevice : Device :=
  holding releaseRecord smallApplication (SignedRelease.flash SignedRelease.image)

/-- A flash with the signed release and its image is installable under a matching record. -/
theorem installable_of_flash {m : BootMetadata} {d : Device}
    (hflash : d.external = SignedRelease.flash SignedRelease.image)
    (hmatches : ImageInstaller.Matches m SignedRelease.info) :
    Installable SignedRelease.key m d SignedRelease.info := by
  have himage : d.slice .reconstructed 0 SignedRelease.info.header.targetImageSize.toNat =
      SignedRelease.image := by
    unfold Device.slice
    rw [hflash]
    decide +kernel
  have hvectors : window (d.part .reconstructed) 0 8 = SignedRelease.image.take 8 := by
    rw [← Device.slice_eq_window]
    unfold Device.slice
    rw [hflash]
    decide +kernel
  refine ⟨SignedRelease.authentic (SignedRelease.incoming_flash hflash) (.inl rfl), hmatches, ?_, ?_⟩
  · unfold VectorsValid stackPointerOf resetHandlerOf
    rw [hvectors]
    exact FullImage.validateVector_eq_valid.1 (by decide +kernel)
  · rw [himage]
    decide +kernel

theorem release_installable :
    Installable SignedRelease.key releaseRecord releaseDevice SignedRelease.info :=
  installable_of_flash rfl
    ⟨by decide, rfl, by decide, rfl, rfl, fun hdelta => absurd hdelta (by decide)⟩

/-- The signed release is installed although the first boot loses power. -/
theorem install_converges_release :
    ∃ ending t c, boot ⟨SignedRelease.key, 1⟩ true (powerCut none)
        (bootRuns ⟨SignedRelease.key, 1⟩ true [some 1] releaseDevice) = .done ending t ∧
      Persisted t.device c ∧ c.state = UpdateState.trialBoot.code ∧
      ∀ i < 9, t.device.app i = releaseDevice.part .reconstructed i := by
  have hpersisted : Persisted releaseDevice releaseRecord :=
    persisted_holding releaseRecord_valid _ _
  have hcut : Persisted (bootRuns ⟨SignedRelease.key, 1⟩ true [some 1] releaseDevice)
      releaseRecord := by
    decide +kernel
  obtain ⟨-, ending, t, c, hdone, hc, hstate, himage, -⟩ := install_converges
    ⟨SignedRelease.key, 1⟩ releaseDevice releaseRecord SignedRelease.info hpersisted rfl
    (by decide) release_installable [some 1] (by
      intro k hk c hc
      have hrecord : c = releaseRecord := by
        obtain rfl | rfl : k = 0 ∨ k = 1 := by
          rw [List.length_singleton] at hk
          omega
        · exact Option.some.inj (hc.symm.trans hpersisted)
        · exact Option.some.inj (hc.symm.trans hcut)
      rw [hrecord]
      decide)
  exact ⟨ending, t, c, hdone, hc, hstate, himage⟩

end Install

/-! ## Convergence of a rollback -/

section Rollback

variable {μ : Mode} [μ.Sound] {s : Machine} {m c : BootMetadata} {d : Device}
  {record : BackupImageRecord} {image : Nat → UInt8}

/-- The rollback of `m` is to begin, has reached a checkpoint, or is complete. -/
inductive Recovering (μ : Mode) (m : BootMetadata) (record : BackupImageRecord)
    (image : Nat → UInt8) (c : BootMetadata) (d : Device) : Prop
  | failed (hrecord : c = m) (hpersisted : Persisted d c)
      (hstate : c.state = UpdateState.trialBoot.code)
      (hfailed : c.bootAttempts ≥ BootMetadata.maxBootAttempts ∨
        ¬ VectorsValid applicationMaxSize d.app) (hbackup : BackupHolds record image d)
  | rollingBack (h : RollingBack μ m (rollbackDiagnostic m) record image c d)
  | restored (h : Restored m record image c d) (hdiagnostic : c.lastError = rollbackDiagnostic m)

omit [μ.Sound] in
theorem Recovering.persisted (h : Recovering μ m record image c d) : Persisted d c := by
  cases h with
  | failed _ hpersisted => exact hpersisted
  | rollingBack h => exact h.persisted
  | restored h => exact h.persisted

omit [μ.Sound] in
theorem Recovering.kept {d' : Device} (h : Recovering μ m record image c d)
    (hframe : MetadataFrame d d')
    (hold : MetadataStorage.persisted d' = MetadataStorage.persisted d) :
    Recovering μ m record image c d' := by
  have happ : ∀ i < applicationMaxSize, d'.app i = d.app i :=
    fun i hi => ImageInstaller.MetadataFrame.app hframe hi
  cases h with
  | failed hrecord hpersisted hstate hfailed hbackup =>
      refine .failed hrecord (hold.trans hpersisted) hstate (hfailed.imp_right fun h hvalid => h ?_)
        (hbackup.commit hframe)
      exact (vectorsValid_congr fun i hi => happ i (hi.trans (by decide))).1 hvalid
  | rollingBack h =>
      exact .rollingBack ⟨h.record, hold.trans h.persisted, h.context.commit hframe, h.progress,
        h.copied.congr happ h.progress⟩
  | restored h hdiagnostic =>
      exact .restored ⟨h.agrees, hold.trans h.persisted, h.backup.commit hframe,
        fun i hi => (happ i hi).trans (h.app i hi)⟩ hdiagnostic

omit [μ.Sound] in
theorem Recovering.event (h : Recovering μ m record image c d) (e : Event) :
    Recovering μ m record image c (d.record e) :=
  h.kept ⟨fun _ _ => rfl, fun _ _ => rfl⟩ (persisted_record d e)

omit [μ.Sound] in
theorem Recovering.mode (h : Recovering μ m record image c d) (μ' : Mode)
    (hatomic : μ'.atomicCommit = μ.atomicCommit) : Recovering μ' m record image c d := by
  cases h with
  | failed hrecord hpersisted hstate hfailed hbackup =>
      exact .failed hrecord hpersisted hstate hfailed hbackup
  | rollingBack h =>
      refine .rollingBack ⟨⟨h.record.state, h.record.update, fun hyes => ?_⟩, h.persisted,
        h.context, h.progress, h.copied⟩
      exact h.record.diagnostic (hatomic ▸ hyes)
  | restored h hdiagnostic => exact .restored h hdiagnostic

omit [μ.Sound] in
/-- A rollback at a checkpoint keeps its diagnostic in the record. -/
theorem rollbackDiagnostic_rolling (hatomic : μ.atomicCommit = true)
    (h : RollingBack μ m (rollbackDiagnostic m) record image c d) :
    rollbackDiagnostic c = rollbackDiagnostic m := by
  have hself : rollbackDiagnostic c = c.lastError := if_pos h.record.state
  rw [hself]
  exact h.record.diagnostic hatomic

/-- One transition of a rollback: it completes, or is left where it can be resumed. -/
theorem recovering_transition (key : TrustedKey) (hs : Env μ false s) (hfault : ¬ μ.Faulty)
    (hatomic : μ.atomicCommit = true) (hvectors : VectorsValid applicationMaxSize image)
    (hbackup : BackupHolds record image s.device) (hsame : BootMetadata.SameUpdate c m)
    (hdiagnostic : rollbackDiagnostic c = rollbackDiagnostic m)
    (h : Recovering μ m record image c s.device)
    (hstart : c.state = UpdateState.trialBoot.code ∧
        (c.bootAttempts ≥ BootMetadata.maxBootAttempts ∨
          ¬ VectorsValid applicationMaxSize s.device.app) ∨
      RollingBack μ c c.lastError record image c s.device) :
    Holds μ false (transition key c s)
      (fun r d => ∃ c', r = .ok c' ∧ Restored m record image c' d ∧
        c'.lastError = rollbackDiagnostic m)
      (fun d => ∃ c', Recovering μ m record image c' d) := by
  refine (rollback_holds key hs hfault hvectors h.persisted hbackup hstart).mono ?_ ?_
  · rintro r d ⟨c', rfl, hrestored, -, herror⟩
    refine ⟨c', rfl, ⟨?_, hrestored.persisted, hrestored.backup, hrestored.app⟩,
      herror.trans hdiagnostic⟩
    exact ⟨hrestored.agrees.state, hrestored.agrees.activeVersion, hrestored.agrees.pendingVersion,
      hrestored.agrees.activeUpdateId, hrestored.agrees.receivedSize,
      hrestored.agrees.expectedSize, hrestored.agrees.copyOffset⟩
  · rintro d (⟨hframe, hold⟩ | ⟨c', hrolling | ⟨htorn, -⟩⟩)
    · exact ⟨c, h.kept hframe hold⟩
    · refine ⟨c', .rollingBack ⟨⟨hrolling.record.state, hrolling.record.update.trans hsame,
        fun hyes => ?_⟩, hrolling.persisted, hrolling.context, hrolling.progress, hrolling.copied⟩⟩
      exact (hrolling.record.diagnostic hyes).trans hdiagnostic
    · rw [hatomic] at htorn
      cases htorn

/-- A boot completes the rollback and starts the restored application. -/
theorem recovering_run (build : Build) (hs : Env μ false s) (hfault : ¬ μ.Faulty) (hatomic : μ.atomicCommit = true)
    (hvectors : VectorsValid applicationMaxSize image)
    (h : Recovering μ m record image c s.device) :
    Holds μ false (run build s)
      (fun ending d => (∃ vector, ending = .jump vector) ∧ ∃ c', Restored m record image c' d ∧
        c'.lastError = rollbackDiagnostic m)
      (fun d => ∃ c', Recovering μ m record image c' d) := by
  refine run_holds (S := fun n c' d => Recovering μ m record image c' d ∧ rank c' = n) ?_ hs
    h.persisted (lt_of_le_of_lt (rank_le c) (by decide)) ⟨h, rfl⟩
  rintro n c' t ht ⟨hc', rfl⟩
  -- the transition that restores the image lowers the rank to zero
  have hnext : rank c' = 1 → ∀ r d, (∃ c'', r = .ok c'' ∧ Restored m record image c'' d ∧
      c''.lastError = rollbackDiagnostic m) →
      Exits (fun c'' d => ∃ n' < rank c', Recovering μ m record image c'' d ∧ rank c'' = n')
        (fun ending d => (∃ vector, ending = Ending.jump vector) ∧
          ∃ c'', Restored m record image c'' d ∧ c''.lastError = rollbackDiagnostic m) r d := by
    rintro hrank r d ⟨c'', rfl, hdone, herror⟩
    have hidle : rank c'' = stateRank .idle := rank_eq hdone.agrees.state
    exact ⟨0, by omega, .restored hdone herror, hidle⟩
  cases hc' with
  | failed hrecord hpersisted hstate hfailed hbackup =>
      subst hrecord
      exact (recovering_transition build.key ht hfault hatomic hvectors hbackup (.refl c') rfl
        (.failed rfl hpersisted hstate hfailed hbackup) (.inl ⟨hstate, hfailed⟩)).mono
        (hnext (rank_eq hstate)) (fun _ h => h)
  | rollingBack h =>
      have hself : RollingBack μ c' c'.lastError record image c' t.device :=
        ⟨⟨h.record.state, .refl c', fun _ => rfl⟩, h.persisted, h.context, h.progress, h.copied⟩
      exact (recovering_transition build.key ht hfault hatomic hvectors h.context h.record.update
        (rollbackDiagnostic_rolling hatomic h) (.rollingBack h) (.inr hself)).mono
        (hnext (rank_eq h.record.state)) (fun _ h => h)
  | restored h herror =>
      have hvalid : VectorsValid applicationMaxSize t.device.app :=
        (vectorsValid_congr fun i hi => h.app i (hi.trans (by decide))).2 hvectors
      refine (idle_holds build.key ht h.persisted h.agrees.state).mono ?_ ?_
      · rintro r d ⟨hframe, hpersisted, ending, rfl, hjump⟩
        refine ⟨hjump.2 hvalid, c', ⟨h.agrees, hpersisted, h.backup.commit hframe, ?_⟩, herror⟩
        exact fun i hi => (ImageInstaller.MetadataFrame.app hframe hi).trans (h.app i hi)
      · rintro d rfl
        exact ⟨c', .restored h herror⟩

/-- Interrupted boots leave a rollback that can be completed. -/
theorem recovering_bootRuns (build : Build) (hvectors : VectorsValid applicationMaxSize image)
    (cuts : List (Option Nat)) (h : Recovering (cutMode true true) m record image c d) :
    ∃ c', Recovering (cutMode true true) m record image c' (bootRuns build true cuts d) := by
  induction cuts generalizing c d with
  | nil => exact ⟨c, h⟩
  | cons cut cuts ih =>
      have hrun := recovering_run build (boot_env cut true (d.record .boot))
        (cutMode_works true true) rfl hvectors
        (h.event .boot)
      have hstate : ∃ c', Recovering (cutMode true true) m record image c'
          (bootRun build true d cut) := by
        refine Holds.state
          (C := fun t => ∃ c', Recovering (cutMode true true) m record image c' t)
          (hrun.mono ?_ (fun _ h => h))
        rintro ending t ⟨-, c', hrestored, herror⟩
        exact ⟨c', .restored hrestored herror⟩
      obtain ⟨c', hc'⟩ := hstate
      exact ih hc'

/--
A failed trial and an interrupted rollback of a valid backup end, after any
number of interrupted boots, with one boot that is not interrupted: the backed up
image is the application again, under its version, and no update is left but its
diagnostic.
-/
theorem rollback_converges (build : Build) (d : Device) (m : BootMetadata) (hm : Persisted d m)
    (hheader : BackupImage.validate d.backupHeader = .valid)
    (hcrc : d.backupHeader.imageCrc32 =
      Crc32.calculate (window d.backupImage 0 applicationMaxSize))
    (hvectors : VectorsValid applicationMaxSize d.backupImage)
    (hstart : m.state = UpdateState.trialBoot.code ∧
        (m.bootAttempts ≥ BootMetadata.maxBootAttempts ∨
          ¬ VectorsValid applicationMaxSize d.app) ∨
      m.state = UpdateState.rollback.code ∧
        ∀ i < m.copyOffset.toNat, d.app i = d.backupImage i)
    (cuts : List (Option Nat)) :
    ∃ ending t c, boot build true (powerCut none) (bootRuns build true cuts d) = .done ending t ∧
      Persisted t.device c ∧ c.state = UpdateState.idle.code ∧
      (∀ i < applicationMaxSize, t.device.app i = d.backupImage i) ∧
      c.activeVersion = d.backupHeader.activeVersion ∧ c.pendingVersion = 0 ∧
      c.activeUpdateId = 0 ∧ c.receivedSize = 0 ∧ c.expectedSize = 0 ∧ c.copyOffset = 0 ∧
      c.bootAttempts = 0 ∧ c.lastError = rollbackDiagnostic m ∧
      t.device.backupHeader = d.backupHeader ∧
      ∀ i < applicationMaxSize, t.device.backupImage i = d.backupImage i := by
  have hbackup : BackupHolds d.backupHeader d.backupImage d :=
    ⟨rfl, hheader, hcrc, fun _ _ => rfl⟩
  have hbegin : ∀ μ : Mode, Recovering μ m d.backupHeader d.backupImage m d := by
    intro μ
    rcases hstart with ⟨htrial, hfailed⟩ | ⟨hrollback, hcopied⟩
    · exact .failed rfl hm htrial hfailed hbackup
    · obtain ⟨-, -, -, hmax, halign⟩ := hm.valid.fieldsOf hrollback
      have hsize : ImageInstaller.pageEnd applicationMaxSize = applicationMaxSize := by decide
      refine .rollingBack ⟨⟨hrollback, .refl m, fun _ => (if_pos hrollback).symm⟩, hm, hbackup,
        InstallProgress.validate_eq_valid.2 ⟨by decide, le_rfl, hmax, halign⟩, hcopied,
        fun _ i hlow hhigh => ?_⟩
      rw [hsize] at hhigh
      omega
  obtain ⟨c₁, hc₁⟩ := recovering_bootRuns build hvectors cuts (hbegin _)
  have hlast : Recovering (cutMode false true) m d.backupHeader d.backupImage c₁
      ((bootRuns build true cuts d).record .boot) :=
    (hc₁.mode (cutMode false true) rfl).event .boot
  obtain ⟨ending, t, hdone, -, -, c, hrestored, herror⟩ :=
    (recovering_run build (boot_env_uncut true _) (cutMode_works false true) rfl hvectors
      hlast).exists_done rfl
  have hagrees := hrestored.agrees
  refine ⟨ending, t, c, hdone, hrestored.persisted, hagrees.state, hrestored.app,
    hagrees.activeVersion, hagrees.pendingVersion, hagrees.activeUpdateId, hagrees.receivedSize,
    hagrees.expectedSize, hagrees.copyOffset, ?_, herror, hrestored.backup.header,
    hrestored.backup.image⟩
  exact hrestored.persisted.valid.idle_attempts hagrees.state

/-- An external flash with a backup and nothing else. -/
def backupFlash (record : BackupImageRecord) (image : Nat → UInt8) (a : Nat) : UInt8 :=
  if a < ExternalPartition.backup.address + BackupImage.dataOffset then
    (BackupImage.layout.encode record).getD (a - ExternalPartition.backup.address) 0xFF
  else image (a - (ExternalPartition.backup.address + BackupImage.dataOffset))

theorem holding_backupHeader (m : BootMetadata) (app : Nat → UInt8) :
    (holding m app (backupFlash record image)).backupHeader = record := by
  have hlength : (BackupImage.layout.encode record).length = BackupImage.recordSize :=
    BackupImage.layout.encode_length record
  have hbytes : (holding m app (backupFlash record image)).slice .backup 0
      BackupImage.recordSize = BackupImage.layout.encode record := by
    unfold Device.slice
    rw [← hlength]
    refine window_eq_list_iff.2 fun i hi => ?_
    have hlt : i < BackupImage.dataOffset :=
      hi.trans_le (hlength.le.trans (by decide))
    simp only [holding, backupFlash, Nat.add_zero]
    rw [if_pos (by omega), Nat.add_sub_cancel_left, List.getD_eq_getElem _ _ hi,
      List.getD_eq_getElem _ _ hi]
  rw [Device.backupHeader, hbytes]
  exact BackupImage.layout.decode_encode record

theorem holding_backupImage (m : BootMetadata) (app : Nat → UInt8) :
    (holding m app (backupFlash record image)).backupImage = image := by
  funext i
  simp only [Device.backupImage, Device.part, holding, backupFlash]
  rw [if_neg (by omega), ← Nat.add_assoc, Nat.add_sub_cancel_left]

/-- The record of a trial that used up its attempts. -/
def exhaustedRecord : BootMetadata :=
  BootMetadata.finalize
    { BootMetadata.init 1 with
      generation := 1
      state := UpdateState.trialBoot.code
      pendingVersion := 2
      activeUpdateId := 7
      receivedSize := 8
      expectedSize := 8
      bootAttempts := 3 }

theorem exhaustedRecord_valid : exhaustedRecord.Valid :=
  (BootMetadata.finalize_valid (by decide)).2
    ⟨by decide, by decide, by decide, by decide, by decide⟩

/-- The header of a backup of the small application. -/
def smallBackup : BackupImageRecord :=
  BackupImage.finalize
    (BackupImage.init 1 (Crc32.calculate (window smallApplication 0 applicationMaxSize)))

/-- A trial of an erased application whose attempts are used up. -/
theorem rollback_converges_exhausted :
    ∃ ending t c, boot ⟨⟨true, 1, []⟩, 1⟩ true (powerCut none)
        (bootRuns ⟨⟨true, 1, []⟩, 1⟩ true [some 5, some 70]
          (holding exhaustedRecord (fun _ => 0xFF) (backupFlash smallBackup smallApplication))) =
        .done ending t ∧
      Persisted t.device c ∧ c.state = UpdateState.idle.code ∧
      (∀ i < applicationMaxSize, t.device.app i = smallApplication i) ∧
      c.lastError = 0x0008B003 := by
  have hheader : (holding exhaustedRecord (fun _ => 0xFF)
      (backupFlash smallBackup smallApplication)).backupHeader = smallBackup :=
    holding_backupHeader _ _
  have himage : (holding exhaustedRecord (fun _ => 0xFF)
      (backupFlash smallBackup smallApplication)).backupImage = smallApplication :=
    holding_backupImage _ _
  obtain ⟨ending, t, c, hdone, hpersisted, hstate, happ, -, -, -, -, -, -, -, herror, -⟩ :=
    rollback_converges ⟨⟨true, 1, []⟩, 1⟩
      (holding exhaustedRecord (fun _ => 0xFF) (backupFlash smallBackup smallApplication))
      exhaustedRecord (persisted_holding exhaustedRecord_valid _ _)
      (by rw [hheader]; exact BackupImage.validate_finalize_init (by decide))
      (by rw [hheader, himage]; rfl) (by rw [himage]; exact smallApplication_vectors)
      (.inl ⟨rfl, .inl (by decide)⟩) [some 5, some 70]
  rw [himage] at happ
  exact ⟨ending, t, c, hdone, hpersisted, hstate, happ, herror.trans (by decide)⟩

end Rollback

end BootManager

end SecureDeltaOta
