import SecureDeltaOta.Boot.InstallerRequests
import SecureDeltaOta.Boot.InstallerRun

/-!
# The outcomes of the installer

How a call of the installer ends, on any contents and in any environment: the
record it hands to the boot loop is current, and unless the internal flash fails
the status says whether the node was given up.
-/

namespace SecureDeltaOta

open Memory Crash MetadataStorage

namespace BootManager

open ImageInstaller
open BootMetadata (SameUpdate)

/-! ## Outcomes -/

/-- The states in which an installation is handed to the boot loop. -/
abbrev installed : List UpdateState := [.idle, .trialBoot]

/-- How a call of the installer ends: what it hands to the boot loop, and whether it has marked
the update failed. -/
structure Installs (μ : Mode) (states : List UpdateState) (d₀ : Device)
    (r : ImageInstaller.Outcome) (d : Device) : Prop where
  hands : Hands μ states d₀ r.2 d
  failed : μ.internalFaults = false →
    ∃ c, Persisted d c ∧ (c.state = UpdateState.failed.code ↔ marksFailed r.1 = true)

section Outcomes

variable {μ : Mode} {up : Bool} {s : Machine} {m c : BootMetadata} {d₀ d : Device}
  {states : List UpdateState}

theorem Installs.after {d₁ : Device} {r : ImageInstaller.Outcome} (hmoves : Moves μ d₀ d₁)
    (h : Installs μ states d₁ r d) : Installs μ states d₀ r d :=
  ⟨h.hands.after hmoves, h.failed⟩

theorem installs_after {d₁ : Device} {r : Result Machine ImageInstaller.Outcome} (hmoves : Moves μ d₀ d₁)
    (h : Holds μ up r (Installs μ states d₁) (Moves μ d₁)) :
    Holds μ up r (Installs μ states d₀) (Moves μ d₀) :=
  h.mono (fun _ _ hr => hr.after hmoves) (fun _ hd => hmoves.trans hd)

/-- Nothing is handed on, and the current record is not a failed one. -/
theorem Installs.stopped {status : ImageInstallerStatus} (hmoves : Moves μ d₀ d)
    (hmarks : marksFailed status = false)
    (hcurrent : μ.internalFaults = false → ∃ c st, Persisted d c ∧ c.state = st.code ∧
      st ≠ UpdateState.failed) : Installs μ states d₀ (status, none) d := by
  refine ⟨.none hmoves, fun hnone => ?_⟩
  obtain ⟨c, st, hc, hstate, hne⟩ := hcurrent hnone
  refine ⟨c, hc, iff_of_false ?_ ?_⟩
  · rw [hstate]
    exact fun h => hne (UpdateState.code_inj.1 h)
  · rw [hmarks]
    decide

/-- A committed record is handed on. -/
theorem Installs.handed {status : ImageInstallerStatus} {st : UpdateState} (hmoves : Moves μ d₀ d)
    (hmarks : marksFailed status = false) (hc : Persisted d c) (hstate : c.state = st.code)
    (hst : st ∈ states) (hne : st ≠ .failed) : Installs μ states d₀ (status, some c) d := by
  refine ⟨⟨hmoves, ?_⟩, fun _ => ⟨c, hc, iff_of_false ?_ ?_⟩⟩
  · rintro c' ⟨⟩
    exact ⟨hc, st, hst, hstate⟩
  · rw [hstate]
    exact fun h => hne (UpdateState.code_inj.1 h)
  · rw [hmarks]
    decide

theorem failWith_installs (hs : Env μ up s) {reason status : ImageInstallerStatus}
    {st : UpdateState} (hst : st ∈ installingStates)
    (h : μ.internalFaults = false → marksFailed status = true ∧ At m st c s.device) :
    Holds μ up (failWith c reason status s) (Installs μ states s.device) (Moves μ s.device) := by
  have hrequest : μ.internalFaults = false → Request (persisted s.device)
      { c with state := UpdateState.failed.code, lastError := installerError reason } :=
    fun hnone => (h hnone).2.persisted ▸ .failed hst (h hnone).2.state reason
  refine Holds.bind (Holds.bind (commitMetadata_moves hs hrequest)
    (fun r t ht hr => Holds.pure ht (Q := fun _ d => Moves μ s.device d ∧
      (μ.internalFaults = false → ∃ c', Persisted d c' ∧ c'.state = UpdateState.failed.code))
      ⟨hr.1, fun hnone => ?_⟩) (fun _ hd => hd)) ?_ (fun _ hd => hd)
  · rcases hr.2 with ⟨c', -, hstores, hc'⟩ | ⟨-, ⟨hrefused, -⟩ | hfault⟩
    · exact ⟨c', hc', hstores.state⟩
    · have hvalid := (h hnone).2.persisted.valid
      have hok : (moved c .failed c.copyOffset (installerError reason)).Acceptable :=
        BootMetadata.acceptable_of (s := .failed) rfl hvalid.received hvalid.expected hvalid.copied
          rfl
      exact absurd hok hrefused
    · rw [hnone] at hfault
      cases hfault
  · rintro - t ht ⟨hmoves, hcurrent⟩
    refine Holds.pure ht ⟨.none hmoves, fun hnone => ?_⟩
    obtain ⟨c', hc', hstate⟩ := hcurrent hnone
    exact ⟨c', hc', iff_of_true hstate (h hnone).1⟩

/-- The commit of a record that is handed on, or after whose failure the installer stops. -/
theorem commit_installs (hs : Env μ up s) {st st' : UpdateState} {done stuck : ImageInstallerStatus}
    {requested : BootMetadata} (hdone : marksFailed done = false)
    (hstuck : marksFailed stuck = false) (hst : st ≠ .failed)
    (hst' : st' ∈ states) (hne : st' ≠ .failed) (hstate : requested.state = st'.code)
    (h : μ.internalFaults = false → At m st c s.device ∧ Request (some c) requested) :
    Holds μ up ((do
        let (committed, metadata) ← commitMetadata requested
        if !committed then pure (stuck, none) else pure (done, some metadata) :
          Prog Machine ImageInstaller.Outcome) s)
      (Installs μ states s.device) (Moves μ s.device) := by
  refine Holds.bind (commitMetadata_moves hs fun hnone => (h hnone).1.persisted ▸ (h hnone).2) ?_
    (fun _ hd => hd)
  rintro r t ht ⟨hmoves, ⟨c', rfl, hstores, hc'⟩ | ⟨rfl, hcause⟩⟩
  · exact Holds.pure ht (.handed hmoves hdone hc' (hstores.state.trans hstate) hst' hne)
  · refine Holds.pure ht (.stopped hmoves hstuck fun hnone => ?_)
    rcases hcause with ⟨-, hkept⟩ | hfault
    · exact ⟨c, st, hkept.trans (h hnone).1.persisted, (h hnone).1.state, hst⟩
    · rw [hnone] at hfault
      cases hfault

theorem revertToActiveImage_installs (hs : Env μ up s) (hup : μ.Usable up)
    (reason : ImageInstallerStatus) {st : UpdateState}
    (hst : st ∈ [UpdateState.imageReady, .backingUp])
    (h : μ.internalFaults = false → At m st c s.device) :
    Holds μ up (revertToActiveImage c reason s) (Installs μ installed s.device) (Moves μ s.device) := by
  refine Holds.bind (clear_moves hs hup) ?_ (fun _ hd => hd)
  rintro - t ht ⟨hmoves, hpersisted, -⟩
  have hne : st ≠ .failed := by
    rintro rfl
    exact absurd hst (by decide)
  refine installs_after hmoves (commit_installs (m := m) (c := c) ht rfl rfl hne
    (List.mem_cons_self : UpdateState.idle ∈ _) (by decide) rfl fun hnone => ?_)
  have hc := h hnone
  refine ⟨⟨hpersisted.trans hc.persisted, hc.state, hc.update⟩, .reverted ?_ reason⟩
  rw [hc.state]
  simp only [List.mem_cons, List.not_mem_nil, or_false] at hst
  exact hst.imp (congrArg _) (congrArg _)

end Outcomes

/-! ## The rollback -/

section Rollback

variable {μ : Mode} {up : Bool} {s : Machine} {m c : BootMetadata}

/-- A rollback begins, or its record is refused and nothing has changed. -/
theorem beginRollback_moves (hs : Env μ up s) (diagnostic : UInt32) {st : UpdateState}
    (hst : st ∈ [UpdateState.installing, .verifyingInstall, .trialBoot])
    (h : μ.internalFaults = false → At m st c s.device) :
    Holds μ up (beginRollback c diagnostic s)
      (fun r d => Moves μ s.device d ∧
        ((∃ c', r = (.ok, c') ∧ At c' .rollback c' d) ∨
          r.1 = .metadataCommitFailed ∧ (μ.internalFaults = false → At m st c d)))
      (Moves μ s.device) := by
  refine Holds.bind (commitMetadata_moves hs fun hnone => (h hnone).persisted ▸
    .rollback hst (h hnone).state diagnostic) ?_ (fun _ hd => hd)
  rintro r t ht ⟨hmoves, ⟨c', rfl, hstores, hc'⟩ | ⟨rfl, hcause⟩⟩
  · exact Holds.pure ht ⟨hmoves, .inl ⟨c', rfl, hc', hstores.state, .refl c'⟩⟩
  · refine Holds.pure ht ⟨hmoves, .inr ⟨rfl, fun hnone => ?_⟩⟩
    rcases hcause with ⟨-, hkept⟩ | hfault
    · have hc := h hnone
      exact ⟨hkept.trans hc.persisted, hc.state, hc.update⟩
    · rw [hnone] at hfault
      cases hfault

theorem finalizeRollback_installs (hs : Env μ up s) (hup : μ.Usable up)
    (h : At m .rollback c s.device) (backup : BackupImageRecord) (diagnostic : UInt32) :
    Holds μ up (finalizeRollback c backup diagnostic s) (Installs μ [.idle] s.device)
      (Moves μ s.device) := by
  refine Holds.bind (clear_moves hs hup) ?_ (fun _ hd => hd)
  rintro - t ht ⟨hmoves, hpersisted, -⟩
  exact installs_after hmoves (commit_installs (m := m) (c := c) ht rfl rfl
    (by decide : UpdateState.rollback ≠ .failed) (List.mem_cons_self : UpdateState.idle ∈ _)
    (by decide) rfl fun _ => ⟨⟨hpersisted.trans h.persisted, h.state, h.update⟩,
      .rolledBack h.state backup diagnostic⟩)

theorem restoreBackup_installs (hs : Env μ up s) (hup : μ.Usable up)
    (h : At m .rollback m s.device) (backup : BackupImageRecord) (diagnostic : UInt32) :
    Holds μ up (restoreBackup m backup diagnostic s) (Installs μ [.idle] s.device)
      (Moves μ s.device) := by
  have hst : UpdateState.rollback ∈ installingStates := by decide
  refine Holds.bind (resumeRollbackCopy_moves hs hup h) ?_ (fun _ hd => hd)
  rintro ⟨status, c⟩ t ht ⟨hmoves, ⟨rfl, hc⟩ | ⟨hbad, hstuck⟩⟩
  swap
  · dsimp only
    rw [if_pos hbad]
    exact installs_after hmoves (failWith_installs ht hst hstuck)
  dsimp only
  rw [if_neg (not_not.2 rfl)]
  refine installs_after hmoves (Holds.bind (verifyRolledBackApplication_any ht backup) ?_
    (fun d hd => hd ▸ .refl μ _))
  rintro verified u hu ⟨hd, hverified⟩
  rw [← hd] at hc ⊢
  split
  · next hbad =>
    exact failWith_installs hu hst fun _ => ⟨hverified.resolve_left hbad, hc⟩
  · exact finalizeRollback_installs hu hup hc backup diagnostic

theorem enterRollback_installs (hs : Env μ up s) (hup : μ.Usable up) {st : UpdateState}
    (hst : st ∈ [UpdateState.trialBoot, .rollback]) (h : At m st m s.device)
    (backup : BackupImageRecord) :
    Holds μ up (enterRollback m backup s) (Installs μ [.idle] s.device) (Moves μ s.device) := by
  unfold enterRollback
  simp only [List.mem_cons, List.not_mem_nil, or_false] at hst
  rcases hst with rfl | rfl
  · rw [if_pos (by rw [h.state]; decide)]
    refine Holds.bind (beginRollback_moves hs _ (by decide) fun _ => h) ?_ (fun _ hd => hd)
    rintro ⟨status, c⟩ t ht ⟨hmoves, ⟨c', hr, hc'⟩ | ⟨hr, hstuck⟩⟩
    · cases hr
      dsimp only
      rw [if_neg (not_not.2 rfl)]
      exact installs_after hmoves (restoreBackup_installs ht hup hc' backup _)
    · cases hr
      dsimp only
      rw [if_pos (by decide)]
      exact Holds.pure ht (.stopped hmoves rfl fun hnone =>
        ⟨m, _, (hstuck hnone).persisted, h.state, by decide⟩)
  · rw [if_neg (not_not.2 h.state)]
    split
    · exact failWith_installs hs (by decide) fun _ => ⟨rfl, h⟩
    · exact restoreBackup_installs hs hup h backup _

/-- `ImageInstaller_ProcessRollback` on any contents. -/
theorem processRollback_installs (hs : Env μ up s) {st : UpdateState}
    (hst : st ∈ [UpdateState.trialBoot, .rollback]) (h : At m st m s.device) :
    Holds μ μ.ready (processRollback m s) (Installs μ [.idle] s.device) (Moves μ s.device) := by
  have hopen : st ∈ installingStates ∧ st ≠ .failed := by
    revert hst
    cases st <;> decide
  refine init_bind_holds hs (.refl μ _) ?_
  intro ok t _ ht hd
  rw [← hd] at h ⊢
  split
  · exact Holds.pure ht (.stopped (.refl μ _) rfl fun _ => ⟨m, st, h.persisted, h.state, hopen.2⟩)
  refine Holds.bind (validateBackupImage_any ht μ.usable_ready) ?_ (fun d hd => hd ▸ .refl μ _)
  rintro r u hu ⟨hd', -⟩
  rw [← hd'] at h ⊢
  cases r with
  | error status => exact failWith_installs hu hopen.1 fun _ => ⟨rfl, h⟩
  | ok backup => exact enterRollback_installs hu μ.usable_ready hst h backup

theorem rollbackAfterInstallFailure_installs (hs : Env μ μ.ready s) (reason : ImageInstallerStatus)
    {st : UpdateState} (hst : st ∈ [UpdateState.installing, .verifyingInstall])
    (h : μ.internalFaults = false → At m st c s.device) :
    Holds μ μ.ready (rollbackAfterInstallFailure c reason s) (Installs μ installed s.device)
      (Moves μ s.device) := by
  have hopen : st ∈ [UpdateState.installing, .verifyingInstall, .trialBoot] ∧ st ≠ .failed := by
    revert hst
    cases st <;> decide
  refine Holds.bind (beginRollback_moves hs _ hopen.1 h) ?_ (fun _ hd => hd)
  rintro ⟨status, c'⟩ t ht ⟨hmoves, ⟨c'', hr, hc''⟩ | ⟨hr, hstuck⟩⟩
  · cases hr
    dsimp only
    rw [if_neg (not_not.2 rfl)]
    refine installs_after hmoves ((processRollback_installs ht (by decide) hc'').mono ?_
      (fun _ hd => hd))
    exact fun r d h => ⟨h.hands.mono (by decide), h.failed⟩
  · cases hr
    dsimp only
    rw [if_pos (by decide)]
    exact Holds.pure ht (.stopped hmoves rfl fun hnone =>
      ⟨c, st, (hstuck hnone).persisted, (hstuck hnone).state, hopen.2⟩)

end Rollback

/-! ## The installation -/

section Installation

variable {μ : Mode} {up : Bool} {s : Machine} {m c : BootMetadata} {source : CandidateSource}

theorem transitionToTrialBoot_installs (hs : Env μ up s) (hup : μ.Usable up)
    (h : At m .verifyingInstall c s.device) (hpending : c.pendingVersion ≠ 0) :
    Holds μ up (transitionToTrialBoot c s) (Installs μ installed s.device) (Moves μ s.device) := by
  refine Holds.bind (clear_moves hs hup) ?_ (fun _ hd => hd)
  rintro cleared t ht ⟨hmoves, hpersisted, -⟩
  have hc : At m .verifyingInstall c t.device :=
    ⟨hpersisted.trans h.persisted, h.state, h.update⟩
  split
  · exact Holds.pure ht (.stopped hmoves rfl fun _ => ⟨c, _, hc.persisted, hc.state, by decide⟩)
  · exact installs_after hmoves (commit_installs (m := m) (c := c) ht rfl rfl
      (by decide : UpdateState.verifyingInstall ≠ .failed)
      (by decide : UpdateState.trialBoot ∈ installed) (by decide) rfl
      fun _ => ⟨hc, .trial h.state hpending⟩)

/-- A copy step of the installer that is a single commit. -/
theorem copyStep_moves (hs : Env μ up s) {st st' : UpdateState} {copyOffset : UInt32}
    (hst : (st, st') ∈ copySteps) (h : At m st c s.device)
    (hok : (moved c st' copyOffset 0).Acceptable) :
    Holds μ up (commitOr .metadataCommitFailed (moved c st' copyOffset 0) s)
      (fun r d => Moves μ s.device d ∧
        ((∃ c', r = (.ok, c') ∧ At m st' c' d) ∨
          r.1 = .metadataCommitFailed ∧ μ.internalFaults = true))
      (Moves μ s.device) := by
  refine (commitOr_moves hs _ (fun _ => h.persisted ▸ .copy hst h.state hok) hok).mono ?_
    (fun _ hd => hd)
  rintro r d ⟨hmoves, ⟨c', rfl, hstores, hc'⟩ | ⟨rfl, hfault⟩⟩
  · exact ⟨hmoves, .inl ⟨c', rfl, h.step hc' hstores⟩⟩
  · exact ⟨hmoves, .inr ⟨rfl, hfault⟩⟩

theorem transitionToVerify_moves (hs : Env μ up s) (h : At m .installing c s.device)
    (hsource : Sourced source c) :
    Holds μ up (transitionToVerify c source.imageSize s)
      (fun r d => Moves μ s.device d ∧
        ((∃ c', r = (.ok, c') ∧ At m .verifyingInstall c' d) ∨
          r.1 = .metadataCommitFailed ∧ μ.internalFaults = true))
      (Moves μ s.device) := by
  have hvalid := h.persisted.valid
  have hcomplete := complete_of_state hvalid h.state (by decide)
  exact copyStep_moves hs (by decide) h (moved_acceptable hvalid hsource.size_le
    ⟨⟨hcomplete.updateId, hcomplete.size, hcomplete.received⟩, hsource.size⟩)

theorem beginInstall_moves (hs : Env μ up s) (h : At m .verifyingInstall c s.device) :
    Holds μ up (beginInstall c s)
      (fun r d => Moves μ s.device d ∧
        ((∃ c', r = (.ok, c') ∧ At m .installing c' d) ∨
          r.1 = .metadataCommitFailed ∧ μ.internalFaults = true))
      (Moves μ s.device) := by
  have hvalid := h.persisted.valid
  have hcomplete := complete_of_state hvalid h.state (by decide)
  exact copyStep_moves hs (by decide) h (moved_acceptable hvalid (Nat.zero_le _)
    ⟨⟨hcomplete.updateId, hcomplete.size, hcomplete.received⟩, Nat.zero_le _, .inr rfl⟩)

/-- Stopping because a commit failed says nothing about a device whose internal flash works. -/
theorem Installs.faulted {d₀ d : Device} {r : ImageInstaller.Outcome}
    {states : List UpdateState} (hmoves : Moves μ d₀ d) (hnone : r.2 = none) (hfault : μ.internalFaults = true) :
    Installs μ states d₀ r d := by
  refine ⟨hnone ▸ .none hmoves, fun h => ?_⟩
  rw [h] at hfault
  cases hfault

theorem installCandidate_installs (hs : Env μ μ.ready s) (h : At m .installing m s.device)
    (hsource : Sourced source m) :
    Holds μ μ.ready (installCandidate source m s) (Installs μ installed s.device) (Moves μ s.device) := by
  refine Holds.bind (resumePageCheckpointedCopy_moves hs μ.usable_ready h hsource) ?_
    (fun _ hd => hd)
  rintro ⟨status, c⟩ t ht ⟨hmoves, ⟨hok, hc⟩ | ⟨hbad, hstuck⟩⟩
  swap
  · dsimp only at hbad hstuck ⊢
    rw [if_pos hbad]
    split
    · next hcommit =>
      refine Holds.pure ht ⟨.none hmoves, fun hnone => ?_⟩
      have hmarks := (hstuck hnone).1
      rw [hcommit] at hmarks
      cases hmarks
    · exact installs_after hmoves
        (rollbackAfterInstallFailure_installs ht _ (by decide) fun hnone => (hstuck hnone).2)
  dsimp only at hok hc ⊢
  rw [if_neg (not_not.2 hok)]
  refine installs_after hmoves (Holds.bind (transitionToVerify_moves ht hc
    (hsource.congr hc.update)) ?_ (fun _ hd => hd))
  rintro ⟨status, c'⟩ u hu ⟨hmoves', ⟨c'', hr, hc''⟩ | ⟨hr, hfault⟩⟩
  swap
  · cases hr
    exact Holds.pure hu (.faulted hmoves' rfl hfault)
  cases hr
  dsimp only
  rw [if_neg (not_not.2 rfl)]
  refine installs_after hmoves' (Holds.bind (verifyInstalledApplication_any hu source) ?_
    (fun d hd => hd ▸ .refl μ _))
  rintro verified v hv ⟨hd, hverified⟩
  rw [← hd] at hc'' ⊢
  split
  · exact rollbackAfterInstallFailure_installs hv _ (by decide) fun _ => hc''
  · exact transitionToTrialBoot_installs hv μ.usable_ready hc'' (hsource.congr hc''.update).pending

theorem At.self {st : UpdateState} {d : Device} (h : At m st c d) : At c st c d :=
  ⟨h.persisted, h.state, .refl c⟩

theorem continueInstall_installs (hs : Env μ μ.ready s) {st : UpdateState}
    (hst : st ∈ [UpdateState.installing, .verifyingInstall]) (h : At m st m s.device)
    (hsource : Sourced source m) :
    Holds μ μ.ready (continueInstall source m s) (Installs μ installed s.device) (Moves μ s.device) := by
  have hopen : st ∈ installingStates := by
    revert hst
    cases st <;> decide
  refine Holds.bind (validateBackupImage_any hs μ.usable_ready) ?_ (fun d hd => hd ▸ .refl μ _)
  rintro r t ht ⟨hd, hstatus⟩
  rw [← hd] at h ⊢
  cases r with
  | error status => exact failWith_installs ht hopen fun _ => ⟨hstatus status rfl, h⟩
  | ok backup =>
    dsimp only
    simp only [List.mem_cons, List.not_mem_nil, or_false] at hst
    rcases hst with rfl | rfl
    · rw [if_neg (by rw [h.state]; decide), if_pos h.state]
      split
      · exact rollbackAfterInstallFailure_installs ht _ (by decide) fun _ => h
      · exact installCandidate_installs ht h hsource
    rw [if_pos h.state]
    refine Holds.bind (verifyInstalledApplication_any ht source) ?_ (fun d hd => hd ▸ .refl μ _)
    rintro verified u hu ⟨hd', -⟩
    rw [← hd'] at h ⊢
    split
    · exact transitionToTrialBoot_installs hu μ.usable_ready h hsource.pending
    refine Holds.bind (beginInstall_moves hu h) ?_ (fun _ hd => hd)
    rintro ⟨status, c⟩ v hv ⟨hmoves, ⟨c', hr, hc'⟩ | ⟨hr, hfault⟩⟩
    · cases hr
      exact installs_after hmoves
        (installCandidate_installs hv hc'.self (hsource.congr hc'.update))
    · cases hr
      exact Holds.pure hv (.faulted hmoves rfl hfault)

theorem continueBackup_installs (hs : Env μ μ.ready s) {st : UpdateState}
    (hst : st ∈ [UpdateState.backingUp, .installing, .verifyingInstall])
    (h : At m st m s.device) (hsource : Sourced source m) :
    Holds μ μ.ready (continueBackup source m s) (Installs μ installed s.device) (Moves μ s.device) := by
  unfold continueBackup
  split
  · next hstate =>
    rw [h.state, UpdateState.code_inj] at hstate
    subst hstate
    refine Holds.bind (resumeBackup_moves hs μ.usable_ready h) ?_ (fun _ hd => hd)
    rintro ⟨status, c⟩ t ht ⟨hmoves, ⟨hok, hc⟩ | ⟨hbad, hstuck⟩⟩
    · dsimp only at hok hc ⊢
      rw [if_neg (not_not.2 hok)]
      exact installs_after hmoves
        (continueInstall_installs ht (by decide) hc.self (hsource.congr hc.update))
    · dsimp only at hbad hstuck ⊢
      rw [if_pos hbad]
      exact installs_after hmoves (revertToActiveImage_installs ht μ.usable_ready _ (by decide)
        fun hnone => (hstuck hnone).2)
  · next hstate =>
    refine continueInstall_installs hs ((List.mem_cons.1 hst).resolve_left ?_) h hsource
    rintro rfl
    exact hstate h.state

theorem processSource_installs (hs : Env μ μ.ready s) {st : UpdateState}
    (hst : st ∈ Installation.openStates) (h : At m st m s.device) (hsource : Sourced source m) :
    Holds μ μ.ready (processSource source m s) (Installs μ installed s.device) (Moves μ s.device) := by
  unfold processSource
  split
  · next hstate =>
    have himage : st = .imageReady := by
      rw [h.state, UpdateState.code_inj, UpdateState.code_inj] at hstate
      refine hstate.resolve_left ?_
      rintro rfl
      exact absurd hst (by decide)
    subst himage
    refine Holds.bind (beginBackup_moves hs μ.usable_ready h hsource.pending) ?_ (fun _ hd => hd)
    rintro ⟨status, c⟩ t ht ⟨hmoves, ⟨hok, hc⟩ | ⟨hbad, hstuck⟩⟩
    · dsimp only at hok hc ⊢
      rw [if_neg (not_not.2 hok)]
      exact installs_after hmoves
        (continueBackup_installs ht (by decide) hc.self (hsource.congr hc.update))
    · dsimp only at hbad hstuck ⊢
      rw [if_pos hbad]
      exact installs_after hmoves (failWith_installs ht (by decide) hstuck)
  · next hstate =>
    refine continueBackup_installs hs ((List.mem_cons.1 hst).resolve_left ?_) h hsource
    rintro rfl
    exact hstate (.inr h.state)

theorem abandon_installs (hs : Env μ μ.ready s) {st : UpdateState} (hst : st ∈ Installation.openStates)
    (h : At m st m s.device) (reason : ImageInstallerStatus) :
    Holds μ μ.ready (abandon m reason s) (Installs μ installed s.device) (Moves μ s.device) := by
  have hmodified : internalMayBeModified m = true ↔
      st ∈ [UpdateState.installing, .verifyingInstall] := by
    unfold internalMayBeModified
    rw [h.state]
    revert hst
    cases st <;> decide
  unfold abandon
  split
  · next hinternal =>
    exact rollbackAfterInstallFailure_installs hs reason (hmodified.1 hinternal) fun _ => h
  · next hinternal =>
    refine revertToActiveImage_installs hs μ.usable_ready reason ?_ fun _ => h
    rw [hmodified] at hinternal
    revert hst hinternal
    cases st <;> decide

/-- `ImageInstaller_ProcessBasicFull` on any contents. -/
theorem processBasicFull_installs (key : TrustedKey) (hs : Env μ up s) {st : UpdateState}
    (hst : st ∈ Installation.openStates) (h : At m st m s.device) :
    Holds μ μ.ready (processBasicFull key m s) (Installs μ installed s.device) (Moves μ s.device) := by
  have hopen : st ≠ .failed := by
    rintro rfl
    exact absurd hst (by decide)
  refine init_bind_holds hs (.refl μ _) ?_
  intro ok t _ ht hd
  rw [← hd] at h ⊢
  split
  · exact Holds.pure ht (.stopped (.refl μ _) rfl fun _ => ⟨m, st, h.persisted, h.state, hopen⟩)
  refine Holds.bind (loadCandidateSource_holds ht key m) ?_ (fun d hd => hd ▸ .refl μ _)
  rintro r u hu ⟨hd', ⟨info, rfl, hauthentic, hmatches⟩ | ⟨⟨status, rfl⟩, -⟩⟩
  swap
  · rw [← hd'] at h ⊢
    exact abandon_installs hu hst h status
  have hle := hauthentic.wellFormed.targetSize_le
  rw [← hd'] at h ⊢
  refine Holds.bind (validateExternalSource_holds hu μ.usable_ready m hle) ?_
    (fun d hd => hd ▸ .refl μ _)
  rintro status v hv ⟨hd'', -⟩
  rw [← hd''] at h ⊢
  split
  · exact abandon_installs hv hst h status
  · exact processSource_installs hv hst h ⟨rfl, hmatches.expectedSize.symm, hle, by
      rw [hmatches.pendingVersion]
      exact hauthentic.wellFormed.targetVersion⟩

end Installation

end BootManager

end SecureDeltaOta
