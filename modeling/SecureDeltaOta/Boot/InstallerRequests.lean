import SecureDeltaOta.Boot.InstallerCopy
import SecureDeltaOta.Boot.Requests

/-!
# The requests of the installer

The parts of the installer on any contents and in any environment: which records
they ask for, and which record is current when they are done or stuck.
-/

namespace SecureDeltaOta

open Memory Crash MetadataStorage

namespace BootManager

open ImageInstaller
open BootMetadata (SameUpdate)

/-! ## Parts without a commit -/

section Parts

variable {μ : Mode} {up : Bool} {s : Machine}

/-- The statuses with which the installer marks the update failed. -/
def marksFailed : ImageInstallerStatus → Bool
  | .ok | .sourceRejected | .externalFlashInitFailed | .metadataCommitFailed
  | .checkpointClearFailed | .finalizeFailed | .trialTransitionFailed => false
  | _ => true

theorem validateBackupImage_any (hs : Env μ up s) (hup : μ.Usable up) :
    Holds μ up (validateBackupImage s)
      (fun r d => d = s.device ∧ ∀ status, r = .error status → marksFailed status = true)
      (fun d => d = s.device) := by
  refine Holds.bind (loadHeader_holds hs hup) ?_ (fun _ hd => hd)
  rintro r t ht ⟨hd, ⟨rfl, -⟩ | ⟨⟨e, rfl⟩, -⟩⟩
  swap
  · refine Holds.pure ht ⟨hd, ?_⟩
    rintro status ⟨⟩
    rfl
  refine Holds.bind (calculateBackupCrc_holds ht hup) ?_ (fun _ hd' => hd'.trans hd)
  rintro r u hu ⟨hd', rfl | ⟨rfl, -⟩⟩
  · dsimp only
    split
    · refine Holds.pure hu ⟨hd'.trans hd, ?_⟩
      rintro status ⟨⟩
      rfl
    · refine Holds.pure hu ⟨hd'.trans hd, ?_⟩
      rintro status ⟨⟩
  · refine Holds.pure hu ⟨hd'.trans hd, ?_⟩
    rintro status ⟨⟩
    rfl

theorem verifyApplication_any (hs : Env μ up s) (imageSize : Nat) (imageCrc32 : UInt32)
    {crcFailure vectorFailure : ImageInstallerStatus} (hcrc : marksFailed crcFailure = true)
    (hvector : marksFailed vectorFailure = true) :
    Holds μ up (verifyApplication imageSize imageCrc32 crcFailure vectorFailure s)
      (fun r d => d = s.device ∧ (r = .ok ∨ marksFailed r = true)) (fun d => d = s.device) := by
  refine Holds.bind (calculateInternalCrc_holds hs imageSize) ?_ (fun _ hd => hd)
  rintro crc t ht ⟨hd, -⟩
  split
  · exact Holds.pure ht ⟨hd, .inr hcrc⟩
  refine Holds.read ht ⟨hd, ?_⟩
  split
  · exact .inr hvector
  split
  · exact .inr hvector
  · exact .inl rfl

theorem verifyInstalledApplication_any (hs : Env μ up s) (source : CandidateSource) :
    Holds μ up (verifyInstalledApplication source s)
      (fun r d => d = s.device ∧ (r = .ok ∨ marksFailed r = true)) (fun d => d = s.device) := by
  unfold verifyInstalledApplication
  exact verifyApplication_any hs _ _ rfl rfl

theorem verifyRolledBackApplication_any (hs : Env μ up s) (backup : BackupImageRecord) :
    Holds μ up (verifyRolledBackApplication backup s)
      (fun r d => d = s.device ∧ (r = .ok ∨ marksFailed r = true)) (fun d => d = s.device) := by
  unfold verifyRolledBackApplication
  exact verifyApplication_any hs _ _ rfl rfl

/-- A range of the application region may change quietly. -/
theorem quiet_withInternal {start len : Nat}
    (hhi : start + len ≤ applicationStartAddress + applicationMaxSize) (d : Device)
    (bytes : Nat → UInt8) : Quiet d (d.withInternal start len bytes) := by
  refine ⟨⟨fun a ha => Device.withInternal_outside (.inr ?_), fun _ _ => rfl⟩, rfl⟩
  have hlow := ha.1
  unfold bootMetadataAAddress at hlow
  unfold applicationStartAddress applicationMaxSize at *
  omega

theorem programHalfWords_any (hs : Env μ up s) {pageOffset : Nat} {buffer : List UInt8}
    (hlength : buffer.length ≤ internalFlashPageSize)
    (hregion : pageOffset + internalFlashPageSize ≤ applicationMaxSize) :
    Holds μ up (programHalfWords (applicationStartAddress + pageOffset) buffer s)
      (fun _ d => Quiet s.device d) (Quiet s.device) := by
  -- an even offset below the length leaves room for its half-word in the page
  refine Holds.loopThen (I := fun i d => i % 2 = 0 ∧ Quiet s.device d)
    (fun i => buffer.length - i) ?_ ?_ ?_ hs le_rfl ⟨Nat.zero_mod 2, refl_of Quiet _⟩
  · intro i d hguard _
    simpa using hguard
  · rintro i t ht hguard ⟨heven, hquiet⟩
    simp only [decide_eq_true_eq] at hguard
    have hroom : i + 2 ≤ internalFlashPageSize := by
      unfold internalFlashPageSize at *
      omega
    refine Holds.bind ((programHalfWord_returns ht _ _ _).and_keeps (Keeps.programHalfWord
      fun d bytes => quiet_withInternal (by omega) d bytes)) ?_
      (fun _ hd => trans_of Quiet hquiet hd.2)
    rintro complete u hu ⟨-, hquiet'⟩
    split
    · exact Holds.pure hu (trans_of Quiet hquiet hquiet')
    · exact Holds.pure hu ⟨⟨by omega, trans_of Quiet hquiet hquiet'⟩, by omega⟩
  · intro i t ht _ h
    exact Holds.pure ht h.2

/-- Programming a page of the application region is quiet. -/
theorem programBufferedApplicationPage_any (hs : Env μ up s) {pageOffset : Nat}
    {buffer : List UInt8} (hlength : buffer.length ≤ internalFlashPageSize)
    (hregion : pageOffset + internalFlashPageSize ≤ applicationMaxSize) :
    Holds μ up (programBufferedApplicationPage pageOffset buffer s)
      (fun r d => Quiet s.device d ∧ (r = .ok ∨ marksFailed r = true)) (Quiet s.device) := by
  refine Holds.bind ((erasePage_returns hs _).and_keeps (Keeps.erasePage
    fun d bytes => quiet_withInternal (by omega) d bytes)) ?_ (fun _ hd => hd.2)
  rintro erased t ht ⟨-, hquiet₁⟩
  split
  · exact Holds.pure ht ⟨hquiet₁, .inr rfl⟩
  refine Holds.bind (programHalfWords_any ht hlength hregion) ?_
    (fun _ hd => trans_of Quiet hquiet₁ hd)
  intro programmed u hu hquiet₂
  have hquiet := trans_of Quiet hquiet₁ hquiet₂
  split
  · exact Holds.pure hu ⟨hquiet, .inr rfl⟩
  refine Holds.read_bind ?_
  split
  · exact Holds.pure hu ⟨hquiet, .inr rfl⟩
  · exact Holds.pure hu ⟨hquiet, .inl rfl⟩

/-- A page is loaded and programmed, or the load fails. -/
theorem programAndVerifyPage_any
    {load : Prog Machine (Except ImageInstallerStatus (List UInt8))} {pageOffset : Nat}
    (hregion : pageOffset + internalFlashPageSize ≤ applicationMaxSize)
    (hload : Holds μ up (load s)
      (fun r d => d = s.device ∧ (∀ buffer, r = .ok buffer →
          buffer.length ≤ internalFlashPageSize) ∧
        ∀ status, r = .error status → marksFailed status = true)
      (fun d => d = s.device)) :
    Holds μ up (programAndVerifyPage load pageOffset s)
      (fun r d => Quiet s.device d ∧ (r = .ok ∨ marksFailed r = true)) (Quiet s.device) := by
  refine Holds.bind hload ?_ (fun d hd => hd ▸ refl_of Quiet _)
  rintro r t ht ⟨hd, hbuffer, hstatus⟩
  rw [← hd]
  cases r with
  | error status => exact Holds.pure ht ⟨refl_of Quiet _, .inr (hstatus status rfl)⟩
  | ok buffer => exact programBufferedApplicationPage_any ht (hbuffer buffer rfl) hregion

end Parts

/-! ## Copies -/

section Copies

variable {μ : Mode} {up : Bool} {s : Machine} {m : BootMetadata}

theorem moved_acceptable {st : UpdateState} {copyOffset lastError : UInt32} (hm : m.Valid)
    (hcopy : copyOffset.toNat ≤ applicationMaxSize)
    (hfields : (moved m st copyOffset lastError).FieldsOf st) :
    (moved m st copyOffset lastError).Acceptable :=
  BootMetadata.acceptable_of rfl hm.received hm.expected hcopy hfields

/-- How a requested record of the installer is answered. -/
theorem commitMetadata_moves (hs : Env μ up s) {requested : BootMetadata}
    (hrequest : μ.internalFaults = false → Request (persisted s.device) requested) :
    Holds μ up (commitMetadata requested s)
      (fun r d => Moves μ s.device d ∧
        ((∃ c, r = (true, c) ∧ c.Stores requested ∧ Persisted d c) ∨
          r = (false, requested) ∧ (¬ requested.Acceptable ∧ persisted d = persisted s.device ∨
            μ.internalFaults = true)))
      (Moves μ s.device) := by
  refine Holds.bind (commit_moves hs hrequest) ?_ (fun _ hd => hd)
  intro r t ht h
  rcases h.cases with ⟨c, rfl, hstores, hc⟩ | ⟨⟨e, rfl⟩, hcause⟩
  · exact Holds.pure ht ⟨h.moves, .inl ⟨c, rfl, hstores, hc⟩⟩
  · exact Holds.pure ht ⟨h.moves, .inr ⟨rfl, hcause⟩⟩

/-- An acceptable record is committed, unless the internal flash fails. -/
theorem commitOr_moves (hs : Env μ up s) (status : ImageInstallerStatus)
    {requested : BootMetadata}
    (hrequest : μ.internalFaults = false → Request (persisted s.device) requested)
    (hacceptable : requested.Acceptable) :
    Holds μ up (commitOr status requested s)
      (fun r d => Moves μ s.device d ∧
        ((∃ c, r = (.ok, c) ∧ c.Stores requested ∧ Persisted d c) ∨
          r = (status, requested) ∧ μ.internalFaults = true))
      (Moves μ s.device) := by
  refine Holds.bind (commitMetadata_moves hs hrequest) ?_ (fun _ hd => hd)
  rintro r t ht ⟨hmoves, ⟨c, rfl, hstores, hc⟩ | ⟨rfl, ⟨hrefused, -⟩ | hfault⟩⟩
  · exact Holds.pure ht ⟨hmoves, .inl ⟨c, rfl, hstores, hc⟩⟩
  · exact absurd hacceptable hrefused
  · exact Holds.pure ht ⟨hmoves, .inr ⟨rfl, hfault⟩⟩

/-- A record of the update `m` is current, in the given state. -/
structure At (m : BootMetadata) (st : UpdateState) (c : BootMetadata) (d : Device) : Prop where
  persisted : Persisted d c
  state : c.state = st.code
  update : SameUpdate c m

theorem At.quiet {st : UpdateState} {c : BootMetadata} {d d' : Device} (h : At m st c d)
    (hquiet : Quiet d d') : At m st c d' :=
  ⟨hquiet.persisted.trans h.persisted, h.state, h.update⟩

/-- A committed copy step. -/
theorem At.step {st st' : UpdateState} {c c' : BootMetadata} {d d' : Device}
    {copyOffset lastError : UInt32} (h : At m st c d) (hc : Persisted d' c')
    (hstores : c'.Stores (moved c st' copyOffset lastError)) : At m st' c' d' := by
  have hsame : SameUpdate (moved c st' copyOffset lastError) c := ⟨rfl, rfl, rfl, rfl, rfl⟩
  exact ⟨hc, hstores.state, hstores.toAgrees.sameUpdate.trans (hsame.trans h.update)⟩

/-- The result of a step: done, or failed with the current record in one of some states. -/
def Stepped (μ : Mode) (m : BootMetadata) (done stuck : UpdateState) (d₀ : Device) (r : Step)
    (d : Device) : Prop :=
  Moves μ d₀ d ∧ (r.1 = .ok ∧ At m done r.2 d ∨
    r.1 ≠ .ok ∧ (μ.internalFaults = false → marksFailed r.1 = true ∧ At m stuck r.2 d))

theorem Stepped.after {done stuck : UpdateState} {d₀ d₁ d : Device} {r : Step}
    (hmoves : Moves μ d₀ d₁) (h : Stepped μ m done stuck d₁ r d) :
    Stepped μ m done stuck d₀ r d :=
  ⟨hmoves.trans h.1, h.2⟩

/-- A copy that persists its progress, on any contents. -/
theorem resumeCopy_moves {st : UpdateState} {imageSize : Nat}
    {programPage : Nat → Prog Machine ImageInstallerStatus}
    {checkpoint : BootMetadata → BootMetadata} {lastError : BootMetadata → UInt32}
    (hst : (st, st) ∈ copySteps)
    (hcheckpoint : ∀ c offset, c.state = st.code →
      checkpoint { c with copyOffset := offset } = moved c st offset (lastError c))
    (hacceptable : ∀ c offset, c.Valid → c.state = st.code → SameUpdate c m →
      InstallProgress.validate imageSize offset = .valid →
      (moved c st (UInt32.ofNat offset) (lastError c)).Acceptable)
    (hpage : ∀ t offset, Env μ up t → InstallProgress.validate imageSize offset = .valid →
      offset < imageSize → Holds μ up (programPage offset t)
        (fun r d => Quiet t.device d ∧ (r = .ok ∨ marksFailed r = true)) (Quiet t.device))
    (hs : Env μ up s) (h : At m st m s.device) :
    Holds μ up (resumeCopy imageSize programPage checkpoint m s)
      (Stepped μ m st st s.device) (Moves μ s.device) := by
  unfold resumeCopy
  split
  · exact Holds.pure hs ⟨.refl μ _, .inr ⟨by simp, fun _ => ⟨rfl, h⟩⟩⟩
  next hvalid =>
  refine Holds.loopThen (I := fun c d => Moves μ s.device d ∧ At m st c d ∧
      InstallProgress.validate imageSize c.copyOffset.toNat = .valid)
    (fun c => imageSize - c.copyOffset.toNat) ?_ ?_ ?_ hs (Nat.sub_le _ _)
    ⟨.refl μ _, h, not_not.1 hvalid⟩
  · intro c d hguard _
    simp only [decide_eq_true_eq] at hguard
    omega
  · rintro c t ht hguard ⟨hmoves, hc, hprogress⟩
    simp only [decide_eq_true_eq] at hguard
    refine Holds.bind (hpage t _ ht hprogress hguard) ?_ (fun _ hd => hmoves.trans (hd.moves μ))
    rintro status u hu ⟨hquiet, hstatus⟩
    have hmoves₁ := hmoves.trans (hquiet.moves μ)
    have hc₁ := hc.quiet hquiet
    split
    · next hbad =>
      exact Holds.pure hu ⟨hmoves₁, .inr ⟨hbad, fun _ => ⟨hstatus.resolve_left hbad, hc₁⟩⟩⟩
    have hnext := InstallProgress.validate_nextCheckpoint hprogress hguard
    have hadvance := InstallProgress.nextCheckpoint_eq hprogress hguard
    have hoffset := toNat_ofNat_of_progress hnext
    have hpositive : 0 < internalFlashPageSize := by decide
    rw [hcheckpoint c _ hc.state]
    have hok := hacceptable c _ hc.persisted.valid hc.state hc.update hnext
    refine Holds.bind (commitOr_moves hu _ (fun _ => hc₁.persisted ▸
      .copy hst hc.state hok) hok) ?_ (fun _ hd => hmoves₁.trans hd)
    rintro r v hv ⟨hmoves₂, ⟨c', rfl, hstores, hc'⟩ | ⟨rfl, hfault⟩⟩
    · have hnat : c'.copyOffset.toNat =
          InstallProgress.nextCheckpoint imageSize c.copyOffset.toNat := by
        rw [hstores.copyOffset]
        exact hoffset
      refine Holds.pure hv ⟨⟨hmoves₁.trans hmoves₂, hc₁.step hc' hstores, ?_⟩, ?_⟩
      · rw [hnat]
        exact hnext
      · rw [hnat]
        omega
    · refine Holds.pure hv ⟨hmoves₁.trans hmoves₂, .inr ⟨by simp, fun hnone => ?_⟩⟩
      rw [hnone] at hfault
      cases hfault
  · rintro c t ht hguard ⟨hmoves, hc, -⟩
    exact Holds.pure ht ⟨hmoves, .inl ⟨rfl, hc⟩⟩

/-- The candidate source belongs to the update. -/
structure Sourced (source : CandidateSource) (m : BootMetadata) : Prop where
  partition : source.partition = .reconstructed
  size : source.imageSize = m.expectedSize
  size_le : source.imageSize.toNat ≤ applicationMaxSize
  pending : m.pendingVersion ≠ 0

theorem Sourced.congr {source : CandidateSource} {c : BootMetadata} (h : Sourced source m)
    (hsame : SameUpdate c m) : Sourced source c :=
  ⟨h.partition, h.size.trans hsame.expectedSize.symm, h.size_le, hsame.pendingVersion ▸ h.pending⟩

theorem installing_acceptable {c : BootMetadata} {offset : Nat} (hc : c.Valid)
    (hstate : c.state = UpdateState.installing.code)
    (hoffset : InstallProgress.validate c.expectedSize.toNat offset = .valid) :
    (moved c .installing (UInt32.ofNat offset) 0).Acceptable := by
  have hnat := toNat_ofNat_of_progress hoffset
  obtain ⟨-, hmax, hle, hplace⟩ := InstallProgress.validate_eq_valid.1 hoffset
  obtain ⟨hcomplete, -, -⟩ := hc.fieldsOf hstate
  refine moved_acceptable hc (by omega)
    ⟨⟨hcomplete.updateId, hcomplete.size, hcomplete.received⟩, ?_, ?_⟩
  · exact hnat.trans_le hle
  · refine hplace.imp (fun h => ?_) fun h => ?_
    · exact UInt32.toNat_inj.1 (hnat.trans h)
    · exact (congrArg (· % internalFlashPageSize) hnat).trans h

theorem rollback_checkpoint_acceptable {c : BootMetadata} {offset : Nat} (hc : c.Valid)
    (hstate : c.state = UpdateState.rollback.code)
    (hoffset : InstallProgress.validate applicationMaxSize offset = .valid) :
    (moved c .rollback (UInt32.ofNat offset) c.lastError).Acceptable := by
  have hnat := toNat_ofNat_of_progress hoffset
  obtain ⟨-, -, hle, hplace⟩ := InstallProgress.validate_eq_valid.1 hoffset
  obtain ⟨hcomplete, hpending, hattempts, -⟩ := hc.fieldsOf hstate
  refine moved_acceptable hc (by omega) ⟨⟨hcomplete.updateId, hcomplete.size, hcomplete.received⟩,
    hpending, hattempts, hnat.trans_le hle, ?_⟩
  refine hplace.imp (fun h => hnat.trans h) fun h => ?_
  exact (congrArg (· % internalFlashPageSize) hnat).trans h

theorem resumePageCheckpointedCopy_moves (hs : Env μ up s) (hup : μ.Usable up)
    {source : CandidateSource} (h : At m .installing m s.device) (hsource : Sourced source m) :
    Holds μ up (resumePageCheckpointedCopy source m s)
      (Stepped μ m .installing .installing s.device) (Moves μ s.device) := by
  refine resumeCopy_moves (by decide) (fun c offset hstate => by rw [moved, ← hstate]) ?_ ?_ hs h
  · intro c offset hc hstate hsame hoffset
    rw [hsource.size, ← hsame.expectedSize] at hoffset
    exact installing_acceptable hc hstate hoffset
  · intro t offset ht hoffset hlt
    obtain ⟨-, hregion, -⟩ := page_in_region hoffset hlt
    refine programAndVerifyPage_any hregion ((loadCandidatePage_holds ht hup hsource.partition
      hoffset hlt).mono ?_ (fun _ hd => hd))
    rintro r d ⟨hd, rfl | ⟨rfl, -⟩⟩
    · refine ⟨hd, ?_, fun _ hr => nomatch hr⟩
      rintro buffer ⟨⟩
      exact (window_length _ _ _).trans_le (by omega)
    · refine ⟨hd, (fun _ hr => nomatch hr), ?_⟩
      rintro status ⟨⟩
      rfl

theorem resumeRollbackCopy_moves (hs : Env μ up s) (hup : μ.Usable up)
    (h : At m .rollback m s.device) :
    Holds μ up (resumeRollbackCopy m s) (Stepped μ m .rollback .rollback s.device)
      (Moves μ s.device) := by
  refine resumeCopy_moves (by decide) (fun c offset hstate => by rw [moved, ← hstate]; rfl) ?_ ?_
    hs h
  · intro c offset hc hstate _ hoffset
    exact rollback_checkpoint_acceptable hc hstate hoffset
  · intro t offset ht hoffset hlt
    obtain ⟨-, hregion, -⟩ := page_in_region hoffset hlt
    refine programAndVerifyPage_any hregion ((loadBackupPage_holds ht hup
      hoffset hlt).mono ?_ (fun _ hd => hd))
    rintro r d ⟨hd, rfl | ⟨rfl, -⟩⟩
    · refine ⟨hd, ?_, fun _ hr => nomatch hr⟩
      rintro buffer ⟨⟩
      exact (window_length _ _ _).trans_le (by omega)
    · refine ⟨hd, (fun _ hr => nomatch hr), ?_⟩
      rintro status ⟨⟩
      rfl

/-- A valid record of an open update describes a complete artifact or image. -/
theorem complete_of_state {st : UpdateState} (hm : m.Valid) (hstate : m.state = st.code)
    (hst : st ∉ [.idle, .receiving, .failed]) : m.Complete := by
  have hfields := hm.fields
  unfold BootMetadata.stateFieldsAreConsistent at hfields
  rw [hstate, UpdateState.ofCode_code] at hfields
  rw [← BootMetadata.updatePayloadIsComplete_iff]
  cases st <;> simp_all

theorem beginBackup_moves (hs : Env μ up s) (hup : μ.Usable up)
    (h : At m .imageReady m s.device) (hpending : m.pendingVersion ≠ 0) :
    Holds μ up (beginBackup m s) (Stepped μ m .backingUp .imageReady s.device)
      (Moves μ s.device) := by
  have hallows : Allows Quiet ExternalPartition.backup.address
      (ExternalPartition.backup.address + BackupImage.dataOffset) :=
    (allows_quiet (by decide)).mono le_rfl (by decide)
  refine Holds.bind ((invalidateHeader_holds hs hup).and_keeps (invalidateHeader_keeps hallows)) ?_
    (fun _ hd => hd.2.moves μ)
  rintro status t ht ⟨-, hquiet⟩
  have hm := h.quiet hquiet
  split
  · exact Holds.pure ht ⟨hquiet.moves μ, .inr ⟨by simp, fun _ => ⟨rfl, hm⟩⟩⟩
  have hvalid := h.persisted.valid
  have hcomplete := complete_of_state hvalid h.state (by decide)
  have hfields : BootMetadata.FieldsOf { moved m .backingUp 0 0 with bootAttempts := 0 } .backingUp :=
    ⟨⟨hcomplete.updateId, hcomplete.size, hcomplete.received⟩, hpending, rfl, Nat.zero_le _,
      .inr rfl⟩
  have hacceptable : BootMetadata.Acceptable { moved m .backingUp 0 0 with bootAttempts := 0 } :=
    BootMetadata.acceptable_of rfl hvalid.received hvalid.expected (Nat.zero_le _) hfields
  refine (commitOr_moves ht _ (fun _ => hm.persisted ▸ .backup h.state hpending)
    hacceptable).mono ?_ (fun _ hd => (hquiet.moves μ).trans hd)
  rintro r d ⟨hmoves, ⟨c, rfl, hstores, hc⟩ | ⟨rfl, hfault⟩⟩
  · exact ⟨(hquiet.moves μ).trans hmoves, .inl ⟨rfl, hc, hstores.state,
      hstores.toAgrees.sameUpdate.trans ⟨rfl, rfl, rfl, rfl, rfl⟩⟩⟩
  · refine ⟨(hquiet.moves μ).trans hmoves, .inr ⟨by simp, fun hnone => ?_⟩⟩
    rw [hnone] at hfault
    cases hfault

/-- The records of a backup differ in their progress only. -/
theorem backup_acceptable {c : BootMetadata} {offset : Nat} (hc : c.Valid)
    (hstate : c.state = UpdateState.backingUp.code)
    (hoffset : BackupProgress.validate offset = .valid) :
    (moved c .backingUp (UInt32.ofNat offset) 0).Acceptable := by
  have hnat := toNat_ofNat_of_backupProgress hoffset
  obtain ⟨hle, hplace⟩ := BackupProgress.validate_eq_valid.1 hoffset
  obtain ⟨hcomplete, hpending, hattempts, -⟩ := hc.fieldsOf hstate
  refine moved_acceptable hc (by omega) ⟨⟨hcomplete.updateId, hcomplete.size, hcomplete.received⟩,
    hpending, hattempts, hnat.trans_le hle, ?_⟩
  refine hplace.imp (fun h => hnat.trans h) fun h => ?_
  exact (congrArg (· % extFlashSectorSize) hnat).trans h

theorem completeBackup_moves (hs : Env μ up s) (hup : μ.Usable up) {c : BootMetadata}
    (h : At m .backingUp c s.device) :
    Holds μ up (completeBackup c s) (Stepped μ m .installing .backingUp s.device)
      (Moves μ s.device) := by
  have hallows : Allows Quiet ExternalPartition.backup.address
      (ExternalPartition.backup.address + BackupImage.dataOffset) :=
    (allows_quiet (by decide)).mono le_rfl (by decide)
  refine Holds.bind (calculateInternalCrc_holds hs _) ?_ (by rintro d rfl; exact .refl μ _)
  rintro crc t ht ⟨hd, -⟩
  refine Holds.bind (calculateBackupCrc_holds ht hup) ?_ (fun d hd' => by
    rw [hd'.trans hd]; exact .refl μ _)
  rintro r u hu ⟨hd', hr⟩
  rw [hd] at hd'
  rw [← hd'] at h ⊢
  have hstuck : ∀ status, status ≠ .ok → marksFailed status = true →
      Holds μ up ((pure (status, c) : Prog Machine Step) u)
        (Stepped μ m .installing .backingUp u.device) (Moves μ u.device) :=
    fun status hne hmarks => Holds.pure hu ⟨.refl μ _, .inr ⟨hne, fun _ => ⟨hmarks, h⟩⟩⟩
  rcases hr with rfl | ⟨rfl, -⟩
  swap
  · exact hstuck _ (by decide) rfl
  dsimp only
  split
  · exact hstuck _ (by decide) rfl
  refine Holds.bind ((commitHeader_returns hu hup _).and_keeps (commitHeader_keeps hallows _)) ?_
    (fun _ hd => hd.2.moves μ)
  rintro r v hv ⟨-, hquiet⟩
  have hc := h.quiet hquiet
  cases r with
  | error e => exact Holds.pure hv ⟨hquiet.moves μ, .inr ⟨by simp, fun _ => ⟨rfl, hc⟩⟩⟩
  | ok record =>
    have hvalid := h.persisted.valid
    obtain ⟨hcomplete, hpending, hattempts, -⟩ := hvalid.fieldsOf h.state
    have hok : (moved c .installing 0 0).Acceptable :=
      moved_acceptable hvalid (Nat.zero_le _)
        ⟨⟨hcomplete.updateId, hcomplete.size, hcomplete.received⟩, Nat.zero_le _, .inr rfl⟩
    refine (commitOr_moves hv _ (fun _ => hc.persisted ▸ .copy (by decide) h.state hok)
      hok).mono ?_ (fun _ hd => (hquiet.moves μ).trans hd)
    rintro r d ⟨hmoves, ⟨c', rfl, hstores, hc'⟩ | ⟨rfl, hfault⟩⟩
    · exact ⟨(hquiet.moves μ).trans hmoves, .inl ⟨rfl, h.step hc' hstores⟩⟩
    · refine ⟨(hquiet.moves μ).trans hmoves, .inr ⟨by simp, fun hnone => ?_⟩⟩
      rw [hnone] at hfault
      cases hfault

/-- One sector of the backup and its checkpoint, on any contents. -/
theorem backupStep_moves (hs : Env μ up s) (hup : μ.Usable up) {c : BootMetadata}
    (h : At m .backingUp c s.device) (hlt : c.copyOffset.toNat < applicationMaxSize) :
    Holds μ up (backupStep c s)
      (fun r d => (∃ c', r = .ok c' ∧ Moves μ s.device d ∧ At m .backingUp c' d ∧
          c.copyOffset.toNat < c'.copyOffset.toNat) ∨
        ∃ r', r = .error r' ∧ Stepped μ m .installing .backingUp s.device r' d)
      (Moves μ s.device) := by
  have hvalid := h.persisted.valid
  obtain ⟨-, -, -, hle, halign⟩ := hvalid.fieldsOf h.state
  have hprogress := BackupProgress.validate_eq_valid.2 ⟨hle, halign⟩
  have hchunk := BackupProgress.chunkLength_eq hprogress hlt
  have hnext := BackupProgress.validate_nextCheckpoint hprogress hlt
  have hoffset := toNat_ofNat_of_backupProgress hnext
  have hsector : 0 < extFlashSectorSize := by decide
  have hallows : Allows Quiet
      (ExternalPartition.backup.address + (BackupImage.dataOffset + c.copyOffset.toNat))
      (ExternalPartition.backup.address + (BackupImage.dataOffset + c.copyOffset.toNat) +
        extFlashSectorSize) := by
    refine (allows_quiet (p := .backup) (by decide)).mono (Nat.le_add_right _ _) ?_
    have haligned := halign.resolve_left (by omega)
    have hdata : BackupImage.dataOffset = 4096 := rfl
    have hsize : ExternalPartition.backup.size = 131072 := rfl
    unfold applicationMaxSize extFlashSectorSize at *
    omega
  unfold backupStep
  refine Holds.bind ((copyActiveImageToBackupChunk_holds hs hup hlt (halign.resolve_left (by omega))
      (by rw [hchunk]; omega) (by rw [hchunk]; omega)).and_keeps
    (copyActiveImageToBackupChunk_keeps (by rw [hchunk]; omega) hallows)) ?_
    (fun _ hd => hd.2.moves μ)
  rintro status t ht ⟨hstatus, hquiet⟩
  have hc := h.quiet hquiet
  rcases hstatus with ⟨rfl, -⟩ | ⟨hstatus, -⟩
  swap
  · have hmarks : status ≠ .ok ∧ marksFailed status = true := by
      simp only [backupFailures, List.mem_cons, List.not_mem_nil, or_false] at hstatus
      rcases hstatus with rfl | rfl | rfl <;> exact ⟨by decide, rfl⟩
    rw [if_pos hmarks.1]
    exact Holds.pure ht (.inr ⟨_, rfl, hquiet.moves μ, .inr ⟨hmarks.1, fun _ => ⟨hmarks.2, hc⟩⟩⟩)
  rw [if_neg (not_not.2 rfl)]
  have hok := backup_acceptable hvalid h.state hnext
  have hrequest : { c with
      copyOffset := UInt32.ofNat (BackupProgress.nextCheckpoint c.copyOffset.toNat)
      lastError := 0 } = moved c .backingUp
      (UInt32.ofNat (BackupProgress.nextCheckpoint c.copyOffset.toNat)) 0 := by
    rw [moved, ← h.state]
  rw [hrequest]
  refine Holds.bind (commitOr_moves ht _ (fun _ => hc.persisted ▸ .copy (by decide) h.state hok)
    hok) ?_ (fun _ hd => (hquiet.moves μ).trans hd)
  rintro r u hu ⟨hmoves, ⟨c', rfl, hstores, hc'⟩ | ⟨rfl, hfault⟩⟩
  · refine Holds.pure hu (.inl ⟨c', rfl, (hquiet.moves μ).trans hmoves, h.step hc' hstores, ?_⟩)
    have hnat : c'.copyOffset.toNat = BackupProgress.nextCheckpoint c.copyOffset.toNat := by
      rw [hstores.copyOffset]
      exact hoffset
    rw [hnat, BackupProgress.nextCheckpoint, hchunk]
    omega
  · refine Holds.pure hu (.inr ⟨_, rfl, (hquiet.moves μ).trans hmoves,
      .inr ⟨by simp, fun hnone => ?_⟩⟩)
    rw [hnone] at hfault
    cases hfault

theorem resumeBackup_moves (hs : Env μ up s) (hup : μ.Usable up) {c : BootMetadata}
    (h : At m .backingUp c s.device) :
    Holds μ up (resumeBackup c s) (Stepped μ m .installing .backingUp s.device)
      (Moves μ s.device) := by
  unfold resumeBackup
  split
  · exact Holds.pure hs ⟨.refl μ _, .inr ⟨by simp, fun _ => ⟨rfl, h⟩⟩⟩
  refine Holds.loopThen (I := fun c d => Moves μ s.device d ∧ At m .backingUp c d)
    (fun c => applicationMaxSize - c.copyOffset.toNat) ?_ ?_ ?_ hs (Nat.sub_le _ _)
    ⟨.refl μ _, h⟩
  · intro c d hguard _
    simp only [decide_eq_true_eq] at hguard
    omega
  · rintro c t ht hguard ⟨hmoves, hc⟩
    simp only [decide_eq_true_eq] at hguard
    refine (backupStep_moves ht hup hc hguard).mono ?_ (fun _ hd => hmoves.trans hd)
    rintro r d (⟨c', rfl, hmoves', hc', hmore⟩ | ⟨r', rfl, hr'⟩)
    · exact ⟨⟨hmoves.trans hmoves', hc'⟩, by omega⟩
    · exact hr'.after hmoves
  · rintro c t ht - ⟨hmoves, hc⟩
    exact (completeBackup_moves ht hup hc).mono (fun _ _ hr => hr.after hmoves)
      (fun _ hd => hmoves.trans hd)

end Copies

end BootManager

end SecureDeltaOta
