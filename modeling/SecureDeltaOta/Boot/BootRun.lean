import SecureDeltaOta.Boot.BootManager
import SecureDeltaOta.Boot.InstallerRun

/-!
# Runs of the bootloader

A boot starts with the persisted record and takes transitions until it starts
the application. The rule for whole boots asks for a rank that every transition
lowers; the specifications of the single transitions follow.
-/

namespace SecureDeltaOta

open Memory Crash MetadataStorage

namespace BootManager

/-! ## Boots -/

/-- A power-up of the bootloader in an environment. -/
def boot (build : Build) (atomicCommit : Bool) (script : List Outcome) (d : Device) :
    Result Machine Ending :=
  run build ⟨d.record .boot, ⟨false, .notInitialized⟩, script, atomicCommit, .bootloader⟩

/-- The device a boot leaves behind that loses power at its operation `k`, or does not. -/
def bootRun (build : Build) (atomicCommit : Bool) (d : Device) (cut : Option Nat) : Device :=
  (boot build atomicCommit (powerCut cut) d).state.device

/-- One boot after the other, with no application in between. -/
def bootRuns (build : Build) (atomicCommit : Bool) (cuts : List (Option Nat)) (d : Device) :
    Device :=
  cuts.foldl (bootRun build atomicCommit) d

/-- Power may be lost between flash operations, and nothing else goes wrong. -/
def cutMode (cuts atomicCommit : Bool) : Mode where
  cuts := cuts
  tornPrograms := false
  externalFaults := false
  atomicCommit := atomicCommit
  writer := .bootloader

instance (cuts atomicCommit : Bool) : (cutMode cuts atomicCommit).Sound := ⟨rfl⟩

theorem cutMode_works (cuts atomicCommit : Bool) : ¬ (cutMode cuts atomicCommit).Faulty :=
  Bool.false_ne_true

theorem boot_env (cut : Option Nat) (atomicCommit : Bool) (d : Device) :
    Env (cutMode true atomicCommit) false
      ⟨d, ⟨false, .notInitialized⟩, powerCut cut, atomicCommit, .bootloader⟩ :=
  ⟨Mode.admits_powerCut rfl cut, by simp, rfl, rfl⟩

theorem boot_env_uncut (atomicCommit : Bool) (d : Device) :
    Env (cutMode false atomicCommit) false
      ⟨d, ⟨false, .notInitialized⟩, powerCut none, atomicCommit, .bootloader⟩ :=
  ⟨fun _ h => absurd h List.not_mem_nil, by simp, rfl, rfl⟩

section Rule

variable {μ : Mode} [μ.Sound] {s : Machine} {build : Build} {c : BootMetadata}

omit [μ.Sound] in
/--
The rule for boots. `S n` describes the records and devices from which at most
`n` further transitions lead to an end of the boot.
-/
theorem run_holds {S : Nat → BootMetadata → Device → Prop} {Q : Ending → Device → Prop}
    {C : Device → Prop}
    (hstep : ∀ n c t, Env μ false t → S n c t.device →
      Holds μ false (transition build.key c t)
        (Exits (fun c' d => ∃ n' < n, S n' c' d) Q) C)
    (hs : Env μ false s) (hc : Persisted s.device c) {n : Nat} (hn : n < maxBootTransitions)
    (hstart : S n c s.device) : Holds μ false (run build s) Q C := by
  unfold run loadMetadata
  refine Holds.bind (R := fun r d => r = some c ∧ d = s.device) (D := C) ?_ ?_ (fun _ h => h)
  · refine Holds.read_bind ?_
    rw [hc.load]
    exact Holds.pure hs ⟨rfl, rfl⟩
  rintro r t ht ⟨rfl, hd⟩
  rw [← hd] at hstart
  -- the turns left are enough for the rank
  refine Holds.loopThen
    (I := fun st d => ∃ n, S n st.1 d ∧ n + st.2 < maxBootTransitions)
    (fun st => maxBootTransitions - st.2) ?_ ?_ ?_ ht (Nat.sub_le _ _) ⟨n, hstart, hn⟩
  · intro st d hguard _
    simp only [decide_eq_true_eq] at hguard
    omega
  · rintro st u hu hguard ⟨n, hS, hroom⟩
    simp only [decide_eq_true_eq] at hguard
    refine Holds.bind (hstep n st.1 u hu hS) ?_ (fun _ h => h)
    rintro r v hv hr
    cases r with
    | ok c' =>
        obtain ⟨n', hlt, hS'⟩ := hr
        exact Holds.pure hv ⟨⟨n', hS', by dsimp only; omega⟩, by dsimp only; omega⟩
    | error ending => exact Holds.pure hv hr
  · rintro st u hu hguard ⟨n, hS, hroom⟩
    simp only [decide_eq_false_iff_not, not_lt] at hguard
    omega

end Rule

/-! ## Decisions -/

section Decisions

variable {m : BootMetadata} {st : UpdateState}

theorem evaluate_true (hm : m.Valid) :
    BootDecision.evaluate m true = BootDecision.ofMetadata m := by
  unfold BootDecision.evaluate
  rw [if_neg (not_not.2 (BootMetadata.validate_eq_valid.2 hm))]
  simp

/-- The validity of the application matters only where it is to be started. -/
theorem evaluate_eq (hm : m.Valid) {action : BootAction}
    (haction : (BootDecision.ofMetadata m).action = action) (htrial : action ≠ .bootTrial)
    (hjump : action ≠ .jumpActive) (hresume : action ≠ .resumeDownload) (valid : Bool) :
    BootDecision.evaluate m valid = BootDecision.ofMetadata m := by
  unfold BootDecision.evaluate
  rw [if_neg (not_not.2 (BootMetadata.validate_eq_valid.2 hm))]
  simp [haction, htrial, hjump, hresume]

variable (key : TrustedKey) {s : Machine}

/-- An action that does not start the application is taken whatever the application is. -/
theorem transition_recover (hm : m.Valid) {action : BootAction}
    (haction : (BootDecision.ofMetadata m).action = action) (htrial : action ≠ .bootTrial)
    (hjump : action ≠ .jumpActive) (hresume : action ≠ .resumeDownload) :
    ∃ pulses, transition key m s = recover key m action (.fatal pulses) s := by
  unfold transition
  rw [Prog.bind_apply]
  simp only [Prog.read, Prog.andThen]
  cases ApplicationJump.validate s.device applicationStartAddress with
  | ok vector =>
      refine ⟨recoveryActionPulses, ?_⟩
      dsimp only
      rw [evaluate_eq hm haction htrial hjump hresume, haction, if_neg htrial,
        if_neg (by simp [hjump, hresume])]
  | error status =>
      dsimp only
      rw [evaluate_eq hm haction htrial hjump hresume, haction]
      exact ⟨_, rfl⟩

/-- A valid application is started as the record says. -/
theorem transition_start (hm : m.Valid) (hvectors : VectorsValid applicationMaxSize s.device.app) :
    ∃ vector, ApplicationJump.validate s.device applicationStartAddress = .ok vector ∧
      transition key m s =
      (if (BootDecision.ofMetadata m).action = .bootTrial then bootTrial m vector
      else if (BootDecision.ofMetadata m).action = .jumpActive ∨
        (BootDecision.ofMetadata m).action = .resumeDownload then execute vector
      else recover key m (BootDecision.ofMetadata m).action (.fatal recoveryActionPulses)) s := by
  obtain ⟨vector, hvector⟩ := (applicationJump_validate s.device).2 hvectors
  refine ⟨vector, hvector, ?_⟩
  unfold transition
  rw [Prog.bind_apply]
  simp only [Prog.read, Prog.andThen, hvector]
  rw [evaluate_true hm]

/-- Without valid vectors nothing is started. -/
theorem transition_invalid (hvectors : ¬ VectorsValid applicationMaxSize s.device.app) :
    ∃ pulses, transition key m s =
      recover key m (BootDecision.evaluate m false).action (.fatal pulses) s := by
  unfold transition
  rw [Prog.bind_apply]
  simp only [Prog.read, Prog.andThen]
  cases hvector : ApplicationJump.validate s.device applicationStartAddress with
  | ok vector => exact absurd ((applicationJump_validate s.device).1 ⟨vector, hvector⟩) hvectors
  | error status => exact ⟨_, rfl⟩

end Decisions

/-! ## Transitions -/

section Transitions

variable {μ : Mode} [μ.Sound] {s : Machine} {key : TrustedKey} {m c : BootMetadata}

open SecureContainer (ContainerFrame Candidate reconstructed imageReady rejected unprocessed)

omit [μ.Sound] in
/-- In the states of an unprocessed container it is processed. -/
theorem transition_artifact (hm : m.Valid) (hstate : ∃ st ∈ unprocessed, m.state = st.code) :
    transition key m s = processArtifact key m s := by
  obtain ⟨st, hst, hcode⟩ := hstate
  have haction : (BootDecision.ofMetadata m).action = .processArtifact ∨
      (BootDecision.ofMetadata m).action = .restartValidation ∨
      (BootDecision.ofMetadata m).action = .restartPatch := by
    unfold BootDecision.ofMetadata
    rw [hcode, UpdateState.ofCode_code]
    fin_cases hst <;> simp
  obtain ⟨pulses, htaken⟩ := transition_recover key (s := s) hm rfl
    (by rcases haction with h | h | h <;> simp [h])
    (by rcases haction with h | h | h <;> simp [h])
    (by rcases haction with h | h | h <;> simp [h])
  rw [htaken, recover, if_pos haction]

/-- A received artifact becomes a verified image, or the update is rejected. -/
theorem artifact_holds (key : TrustedKey) (hs : Env μ false s) (hfault : ¬ μ.Faulty)
    (hm : Persisted s.device m) (hstate : ∃ st ∈ unprocessed, m.state = st.code) :
    Holds μ false (transition key m s)
      (fun r d => ContainerFrame s.device d ∧ ∃ c, r = .ok c ∧ Persisted d c ∧
        ((∃ info image, Candidate key m s.device info image ∧ reconstructed d info = image ∧
          c.Stores (imageReady info m)) ∨ ∃ reason, c.Stores (rejected m reason)))
      (SecureContainer.Interrupted key m s.device) := by
  rw [transition_artifact hm.valid hstate]
  obtain ⟨st, hst, hcode⟩ := hstate
  have hinterrupted : SecureContainer.Interrupted key m s.device s.device :=
    ⟨refl_of ContainerFrame _, m, hm, .inl ⟨⟨st, hst, hcode⟩, BootMetadata.SameUpdate.refl m⟩⟩
  refine Holds.bind (SecureContainer.isIncoming_holds hs).weaken ?_
    (by rintro d rfl; exact hinterrupted)
  rintro incoming t ht (⟨hd, hmagic⟩ | ⟨-, -, hfaulty⟩)
  swap
  · exact absurd hfaulty hfault
  rw [← hd] at hm hmagic hinterrupted ⊢
  refine Holds.bind (SecureContainer.process_holds key ht hm ⟨st, hst, hcode⟩).weaken ?_
    (fun _ h => h)
  rintro r u hu (⟨hframe, hresult⟩ | ⟨hfaulty, -⟩)
  swap
  · exact absurd hfaulty hfault
  rcases hresult with ⟨info, image, c, rfl, hcandidate, himage, hstores, hpersisted⟩ |
    ⟨⟨reason, c, rfl, hstores, hpersisted⟩, -⟩
  · -- an image is made of a container only
    rw [if_pos (hmagic.2 hcandidate.authentic.magic)]
    exact Holds.pure hu ⟨hframe, c, rfl, hpersisted, .inl ⟨info, image, hcandidate, himage, hstores⟩⟩
  · split
    · exact Holds.pure hu ⟨hframe, c, rfl, hpersisted, .inr ⟨reason, hstores⟩⟩
    · exact Holds.pure hu ⟨hframe, c, rfl, hpersisted, .inr ⟨reason, hstores⟩⟩

/-- In the states of an installation the installer runs. -/
theorem transition_install (hm : m.Valid)
    (hstate : ∃ st ∈ ImageInstaller.Installation.openStates, m.state = st.code) :
    transition key m s = (ImageInstaller.processBasicFull key m >>= fun outcome =>
      pure (proceed installErrorPulses
        (fun status => status = .ok || status = .sourceRejected) outcome)) s := by
  obtain ⟨st, hst, hcode⟩ := hstate
  have haction : (BootDecision.ofMetadata m).action = .continueBackup ∨
      (BootDecision.ofMetadata m).action = .resumeInstall ∨
      (BootDecision.ofMetadata m).action = .verifyInstall := by
    unfold BootDecision.ofMetadata
    rw [hcode, UpdateState.ofCode_code]
    fin_cases hst <;> simp
  obtain ⟨pulses, htaken⟩ := transition_recover key (s := s) hm rfl
    (by rcases haction with h | h | h <;> simp [h])
    (by rcases haction with h | h | h <;> simp [h])
    (by rcases haction with h | h | h <;> simp [h])
  have hwork : actionNeedsInstallWork (BootDecision.ofMetadata m).action = true := by
    rcases haction with h | h | h <;> simp [h, actionNeedsInstallWork]
  rw [htaken, recover, if_neg (by rcases haction with h | h | h <;> simp [h]), if_pos hwork]

open ImageInstaller (Installation Installable BackupHolds RollingBack Restored RollbackOpen
  RecordsFrame Untouched reverted rollbackDiagnostic)

/-- An open installation is brought to its trial. -/
theorem install_holds {I : Installation} (hs : Env μ false s) (hfault : ¬ μ.Faulty)
    (h : I.Open c s.device) :
    Holds μ false (transition I.key c s)
      (fun r d => ∃ c', r = .ok c' ∧
        (I.Trial c' d ∧ c'.bootAttempts = 0 ∧ d.CheckpointIdle ∨ I.Abandoned c' d))
      I.Interrupted := by
  obtain ⟨st, hst, hrecord⟩ := h.record
  rw [transition_install h.persisted.valid ⟨st, hst, hrecord.state⟩]
  refine Holds.bind (I.processBasicFull_holds hs hfault h).weaken ?_ (fun _ hd => hd)
  rintro r t ht (⟨c', rfl, htrial⟩ | ⟨c', rfl, habandoned⟩)
  · exact Holds.pure ht ⟨c', rfl, .inl htrial⟩
  · exact Holds.pure ht ⟨c', rfl, .inr habandoned⟩

/-- An image that is not installable is rejected. -/
theorem image_rejected (hs : Env μ false s) (hfault : ¬ μ.Faulty) (hm : Persisted s.device m)
    (hstate : m.state = UpdateState.imageReady.code)
    (hnone : ∀ info, ¬ Installable key m s.device info) :
    Holds μ false (transition key m s)
      (fun r d => RecordsFrame s.device d ∧ ∃ reason c, r = .ok c ∧ c.Stores (reverted m reason) ∧
        Persisted d c)
      (fun d => RecordsFrame s.device d ∧ (persisted d = persisted s.device ∨
        ∃ reason c, Persisted d c ∧ c.Agrees (reverted m reason))) := by
  rw [transition_install hm.valid ⟨_, by decide, hstate⟩]
  refine Holds.bind (ImageInstaller.processBasicFull_rejects key hs hfault hstate hnone).weaken ?_
    (fun _ hd => hd)
  rintro r t ht ⟨hframe, reason, c, rfl, hstores, hpersisted⟩
  exact Holds.pure ht ⟨hframe, reason, c, rfl, hstores, hpersisted⟩

/-- The record of the next attempt may be committed. -/
theorem attempt_acceptable (hm : m.Valid) (hstate : m.state = UpdateState.trialBoot.code)
    (hlimit : ¬ m.bootAttempts ≥ BootMetadata.maxBootAttempts) :
    ({ m with bootAttempts := m.bootAttempts + 1, lastError := 0 } : BootMetadata).Acceptable := by
  obtain ⟨hcomplete, hpending, hcopied, -⟩ := hm.fieldsOf hstate
  have hlt : m.bootAttempts.toNat < 3 := by
    have hnot := UInt32.not_le.1 hlimit
    rwa [UInt32.lt_iff_toNat_lt] at hnot
  refine BootMetadata.acceptable_of (s := .trialBoot) hstate hm.received hm.expected hm.copied
    ⟨⟨hcomplete.updateId, hcomplete.size, hcomplete.received⟩, hpending, hcopied, ?_⟩
  rw [UInt32.toNat_add]
  have hone : (1 : UInt32).toNat = 1 := rfl
  omega

/-- A trial attempt is counted before the application is started. -/
theorem trial_holds (key : TrustedKey) (hs : Env μ false s) (hm : Persisted s.device m)
    (hstate : m.state = UpdateState.trialBoot.code)
    (hlimit : ¬ m.bootAttempts ≥ BootMetadata.maxBootAttempts)
    (hvectors : VectorsValid applicationMaxSize s.device.app) :
    Holds μ false (transition key m s)
      (fun r d => ∃ vector c, r = .error (.jump vector) ∧ Persisted d c ∧
        c.Stores { m with bootAttempts := m.bootAttempts + 1, lastError := 0 } ∧
        MetadataFrame s.device d)
      (fun d => MetadataFrame s.device d ∧ (persisted d = persisted s.device ∨
        μ.atomicCommit = false ∧ ∃ c, Persisted d c ∧
          c.Agrees { m with bootAttempts := m.bootAttempts + 1, lastError := 0 })) := by
  have hdecision : BootDecision.ofMetadata m = ⟨.bootTrial, .none⟩ := by
    unfold BootDecision.ofMetadata
    rw [hstate, UpdateState.ofCode_code]
    exact if_neg hlimit
  obtain ⟨vector, -, htaken⟩ := transition_start key hm.valid hvectors
  rw [htaken, hdecision, if_pos rfl, bootTrial, TrialBoot.prepareAttempt,
    if_neg (not_not.2 hstate), if_neg hlimit, TrialBoot.commit]
  refine Holds.bind (R := fun r d => ∃ c, r = (.ok, some c) ∧ Persisted d c ∧
      c.Stores { m with bootAttempts := m.bootAttempts + 1, lastError := 0 } ∧
      MetadataFrame s.device d)
    (Holds.bind (commit_holds hs (attempt_acceptable hm.valid hstate hlimit)) ?_
      (fun d hd => ⟨hd.1, hd.2.2⟩)) ?_ (fun _ hd => hd)
  · rintro r t ht ⟨c, rfl, hstores, hpersisted, hframe, -⟩
    exact Holds.pure ht ⟨c, rfl, hpersisted, hstores, hframe⟩
  · rintro r t ht ⟨c, rfl, hpersisted, hstores, hframe⟩
    dsimp only
    rw [if_neg (not_not.2 rfl), execute]
    refine Holds.update_bind ?_
    exact Holds.pure (ht.withDevice _) ⟨vector, c, rfl,
      (persisted_record t.device .jump).trans hpersisted, hstores, hframe.internal,
      hframe.external⟩

/-- A trial that failed and an open rollback lead back to the backup. -/
theorem rollback_holds (key : TrustedKey) {record : BackupImageRecord} {image : Nat → UInt8}
    (hs : Env μ false s) (hfault : ¬ μ.Faulty)
    (hvectors : VectorsValid applicationMaxSize image) (hm : Persisted s.device m)
    (hbackup : BackupHolds record image s.device)
    (hstate : m.state = UpdateState.trialBoot.code ∧
        (m.bootAttempts ≥ BootMetadata.maxBootAttempts ∨
          ¬ VectorsValid applicationMaxSize s.device.app) ∨
      RollingBack μ m m.lastError record image m s.device) :
    Holds μ false (transition key m s)
      (fun r d => ∃ c, r = .ok c ∧ Restored m record image c d ∧ c.bootAttempts = 0 ∧
        c.lastError = rollbackDiagnostic m)
      (fun d => Untouched s.device d ∨
        RollbackOpen μ m (rollbackDiagnostic m) record image d) := by
  have hrecover : ∃ pulses, transition key m s =
      recover key m .resumeRollback (.fatal pulses) s := by
    rcases hstate with ⟨htrial, hlimit | hinvalid⟩ | hrolling
    · refine transition_recover key hm.valid ?_ (by decide) (by decide) (by decide)
      unfold BootDecision.ofMetadata
      rw [htrial, UpdateState.ofCode_code]
      simp only [if_pos hlimit]
    · obtain ⟨pulses, htaken⟩ := transition_invalid key (m := m) hinvalid
      refine ⟨pulses, htaken.trans ?_⟩
      unfold BootDecision.evaluate BootDecision.ofMetadata
      rw [if_neg (not_not.2 (BootMetadata.validate_eq_valid.2 hm.valid)), htrial,
        UpdateState.ofCode_code]
      dsimp only
      by_cases hlimit : m.bootAttempts ≥ BootMetadata.maxBootAttempts
      · simp [hlimit]
      · simp [hlimit]
    · refine transition_recover key hm.valid ?_ (by decide) (by decide) (by decide)
      unfold BootDecision.ofMetadata
      rw [hrolling.record.state, UpdateState.ofCode_code]
  obtain ⟨pulses, htaken⟩ := hrecover
  rw [htaken, recover, if_neg (by decide), if_neg (by decide), if_neg (by decide), if_pos rfl]
  refine Holds.bind (ImageInstaller.processRollback_holds hs hfault hvectors hm hbackup
    (hstate.imp_left And.left)).weaken ?_ (fun _ hd => hd)
  rintro r t ht ⟨c, rfl, hrestored⟩
  exact Holds.pure ht ⟨c, rfl, hrestored⟩

omit [μ.Sound] in
/-- In `IDLE` the application is started, unless its vectors are invalid. -/
theorem idle_holds (key : TrustedKey) (hs : Env μ false s) (hm : Persisted s.device m)
    (hstate : m.state = UpdateState.idle.code) :
    Holds μ false (transition key m s)
      (fun r d => MetadataFrame s.device d ∧ Persisted d m ∧
        ∃ ending, r = .error ending ∧ ((∃ vector, ending = .jump vector) ↔
          VectorsValid applicationMaxSize s.device.app))
      (fun d => d = s.device) := by
  have hdecision : BootDecision.ofMetadata m = ⟨.jumpActive, .none⟩ := by
    unfold BootDecision.ofMetadata
    rw [hstate, UpdateState.ofCode_code]
  by_cases hvectors : VectorsValid applicationMaxSize s.device.app
  · obtain ⟨vector, -, htaken⟩ := transition_start key hm.valid hvectors
    rw [htaken, hdecision, if_neg (by decide), if_pos (.inl rfl), execute]
    refine Holds.update_bind ?_
    exact Holds.pure (hs.withDevice _) ⟨⟨fun _ _ => rfl, fun _ _ => rfl⟩,
      (persisted_record s.device .jump).trans hm, .jump vector, rfl,
      fun _ => hvectors, fun _ => ⟨vector, rfl⟩⟩
  · obtain ⟨pulses, htaken⟩ := transition_invalid key (m := m) hvectors
    have haction : (BootDecision.evaluate m false).action = .stayRecovery := by
      unfold BootDecision.evaluate
      rw [if_neg (not_not.2 (BootMetadata.validate_eq_valid.2 hm.valid)), hdecision]
      rfl
    rw [htaken, haction, recover, if_neg (by decide), if_neg (by decide), if_neg (by decide),
      if_neg (by decide)]
    refine Holds.pure hs ⟨refl_of MetadataFrame _, hm, .fatal pulses, rfl, ?_,
      fun h => absurd h hvectors⟩
    rintro ⟨vector, h⟩
    cases h

/-- A confirmed update is closed with its version. -/
theorem confirmed_holds (key : TrustedKey) (hs : Env μ false s) (hm : Persisted s.device m)
    (hstate : m.state = UpdateState.confirmed.code) :
    Holds μ false (transition key m s)
      (fun r d => ∃ c, r = .ok c ∧ Persisted d c ∧ c.Stores (TrialBoot.finalized m) ∧
        MetadataFrame s.device d)
      (fun d => MetadataFrame s.device d ∧ (persisted d = persisted s.device ∨
        μ.atomicCommit = false ∧ ∃ c, Persisted d c ∧ c.Agrees (TrialBoot.finalized m))) := by
  obtain ⟨-, hpending, -⟩ := hm.valid.fieldsOf hstate
  have haction : (BootDecision.ofMetadata m).action = .finalizeConfirmation := by
    unfold BootDecision.ofMetadata
    rw [hstate, UpdateState.ofCode_code]
  have hacceptable : (TrialBoot.finalized m).Acceptable :=
    ⟨rfl, UInt32.le_refl _, Nat.zero_le _, Nat.zero_le _, rfl⟩
  obtain ⟨pulses, htaken⟩ := transition_recover key (s := s) hm.valid haction (by decide)
    (by decide) (by decide)
  rw [htaken, recover, if_neg (by decide), if_neg (by decide), if_pos rfl,
    TrialBoot.finalizeConfirmation, if_neg (by simp [hstate, hpending]), TrialBoot.commit]
  refine Holds.bind (R := fun r d => ∃ c, r = (.ok, some c) ∧ Persisted d c ∧
      c.Stores (TrialBoot.finalized m) ∧ MetadataFrame s.device d)
    (Holds.bind (commit_holds hs hacceptable) ?_
      (fun d hd => ⟨hd.1, hd.2.2⟩)) ?_ (fun _ hd => hd)
  · rintro r t ht ⟨c, rfl, hstores, hpersisted, hframe, -⟩
    exact Holds.pure ht ⟨c, rfl, hpersisted, hstores, hframe⟩
  · rintro r t ht ⟨c, rfl, hrest⟩
    exact Holds.pure ht ⟨c, rfl, hrest⟩

end Transitions

end BootManager

end SecureDeltaOta
