import SecureDeltaOta.Boot.InstallerOutcomes
import SecureDeltaOta.Boot.UpdateStages

/-!
# The boot loop on any contents

One turn of the boot loop and whole boots, whatever the flash memories hold and
whatever the environment does: the records they request, the record that is
current after each turn, and the condition of the node when the application is
started.
-/

namespace SecureDeltaOta

open Memory Crash MetadataStorage

namespace BootManager

open SecureContainer (unprocessed)

/-! ## Starting the application -/

/-- The record of a trial whose attempt is counted. -/
def attempted (m : BootMetadata) : BootMetadata :=
  { m with bootAttempts := m.bootAttempts + 1, lastError := 0 }

/-- The states in which the active application is started. -/
def activeStates : List UpdateState := [.idle, .receiving]

/-- Why a turn with the record `c` starts the application, and what it committed before. -/
inductive Cause (μ : Mode) (c : BootMetadata) (d₀ d : Device) : Prop
  | active {st : UpdateState} (hst : st ∈ activeStates) (hstate : c.state = st.code)
      (hsame : d = d₀)
  | trial {c' : BootMetadata} (hstate : c.state = UpdateState.trialBoot.code)
      (hattempts : ¬ c.bootAttempts ≥ BootMetadata.maxBootAttempts)
      (hstores : c'.Stores (attempted c)) (hpersisted : Persisted d c')
      (hhistory : d.history = .commit μ.writer (persisted d₀) c' :: d₀.history)

/-- The node at the moment the application is started with a vector. -/
structure Starts (μ : Mode) (c : BootMetadata) (d₀ : Device) (vector : ApplicationVector)
    (d : Device) : Prop where
  moves : Moves μ d₀ d
  vectors : ApplicationJump.validate d applicationStartAddress = .ok vector
  cause : Cause μ c d₀ d

/-- How a turn with the record `c` ends the boot. -/
def Stops (μ : Mode) (c : BootMetadata) (d₀ : Device) : Ending → Device → Prop
  | .jump vector, d => ∃ d₁, d = d₁.record .jump ∧ Starts μ c d₀ vector d₁
  | .fatal _, d => Moves μ d₀ d

/-- The result of a turn with the record `c`. -/
abbrev Turns (μ : Mode) (c : BootMetadata) (d₀ : Device) :
    Except Ending BootMetadata → Device → Prop :=
  Exits (fun c' d => Moves μ d₀ d ∧ Persisted d c' ∧ rank c' < rank c) (Stops μ c d₀)

section Turn

variable {μ : Mode} {s : Machine} {key : TrustedKey} {c : BootMetadata} {d₀ : Device}

/-- The loop goes on with a record handed to it, whose rank is lower. -/
theorem proceed_turns {status : Type} {states : List UpdateState} {pulses : Nat}
    {accepted : status → Bool} {r : status × Option BootMetadata} {d : Device}
    (h : Hands μ states d₀ r.2 d) (hrank : ∀ st ∈ states, stateRank st < rank c) :
    Turns μ c d₀ (proceed pulses accepted r) d := by
  obtain ⟨status, next⟩ := r
  cases next with
  | none => exact h.moves
  | some c' =>
      obtain ⟨hpersisted, st, hst, hstate⟩ := h.current c' rfl
      have hlower : rank c' < rank c := by
        rw [rank_eq hstate]
        exact hrank st hst
      unfold proceed
      dsimp only
      by_cases haccepted : accepted status = true
      · rw [if_pos haccepted]
        exact ⟨h.moves, hpersisted, hlower⟩
      · rw [if_neg haccepted]
        exact h.moves

theorem artifact_turns (hs : Env μ false s) (hc : Persisted s.device c)
    (hstate : ∃ st ∈ unprocessed, c.state = st.code) :
    Holds μ false (transition key c s) (Turns μ c s.device) (Moves μ s.device) := by
  rw [transition_artifact hc.valid hstate]
  have hrank : ∀ st ∈ processed, stateRank st < rank c := by
    obtain ⟨st, hst, hcode⟩ := hstate
    rw [rank_eq hcode]
    revert hst
    cases st <;> decide
  refine Holds.bind (SecureContainer.isIncoming_holds hs).weaken ?_ (fun d hd => hd ▸ .refl μ _)
  intro incoming t ht hd
  replace hd : t.device = s.device := hd.elim And.left And.left
  rw [← hd] at hc ⊢
  refine Holds.bind (process_moves key ht hc hstate).weaken ?_ (fun _ hd => hd)
  intro r u hu h
  split
  · exact Holds.pure hu (proceed_turns h hrank)
  · exact Holds.pure hu (proceed_turns h hrank)

theorem install_turns (hs : Env μ false s) (hc : Persisted s.device c)
    (hstate : ∃ st ∈ ImageInstaller.Installation.openStates, c.state = st.code) :
    Holds μ false (transition key c s) (Turns μ c s.device) (Moves μ s.device) := by
  rw [transition_install hc.valid hstate]
  obtain ⟨st, hst, hcode⟩ := hstate
  have hrank : ∀ st' ∈ installed, stateRank st' < rank c := by
    rw [rank_eq hcode]
    revert hst
    cases st <;> decide
  refine Holds.bind (processBasicFull_installs key hs hst ⟨hc, hcode, .refl c⟩).weaken ?_
    (fun _ hd => hd)
  intro r t ht h
  exact Holds.pure ht (proceed_turns h.hands hrank)

theorem rollback_turns (hs : Env μ false s) (hc : Persisted s.device c) {st : UpdateState}
    (hst : st ∈ [UpdateState.trialBoot, .rollback]) (hstate : c.state = st.code) (stop : Ending) :
    Holds μ false (recover key c .resumeRollback stop s) (Turns μ c s.device)
      (Moves μ s.device) := by
  rw [recover, if_neg (by decide), if_neg (by decide), if_neg (by decide), if_pos rfl]
  refine Holds.bind (processRollback_installs hs hst ⟨hc, hstate, .refl c⟩).weaken ?_
    (fun _ hd => hd)
  intro r t ht h
  refine Holds.pure ht (proceed_turns h.hands ?_)
  rw [rank_eq hstate]
  revert hst
  cases st <;> decide

/-- Without an action the boot stops. -/
theorem stay_turns (hs : Env μ false s) (pulses : Nat) :
    Holds μ false (recover key c .stayRecovery (.fatal pulses) s) (Turns μ c s.device)
      (Moves μ s.device) := by
  rw [recover, if_neg (by decide), if_neg (by decide), if_neg (by decide), if_neg (by decide)]
  exact Holds.pure hs (Moves.refl μ _)

/-- The jump itself is recorded in the history. -/
theorem execute_turns (hs : Env μ false s) {vector : ApplicationVector}
    (h : Starts μ c d₀ vector s.device) :
    Holds μ false (execute vector s) (Turns μ c d₀) (Moves μ d₀) :=
  Holds.update_bind (Holds.pure (hs.withDevice _) ⟨s.device, rfl, h⟩)

/-- The vectors lie outside the metadata pages. -/
theorem validate_congr {d d' : Device} (h : MetadataFrame d d') :
    ApplicationJump.validate d' applicationStartAddress =
      ApplicationJump.validate d applicationStartAddress := by
  have hword : ∀ offset ≤ 4, d'.internalWord (applicationStartAddress + offset) =
      d.internalWord (applicationStartAddress + offset) := by
    intro offset hoffset
    have hbyte : ∀ i < 4, d'.internal (applicationStartAddress + offset + i) =
        d.internal (applicationStartAddress + offset + i) := by
      intro i hi
      refine h.internal _ fun hpage => ?_
      have hlow := hpage.1
      unfold bootMetadataAAddress at hlow
      unfold applicationStartAddress at *
      omega
    unfold Device.internalWord
    rw [window_eq_iff.2 hbyte]
  unfold ApplicationJump.validate
  rw [← Nat.add_zero applicationStartAddress, hword 0 (by decide), hword 4 le_rfl]

theorem trialCommit_moves {requested : BootMetadata} (hs : Env μ false s)
    (hrequest : μ.internalFaults = false → Request (persisted s.device) requested) :
    Holds μ false (TrialBoot.commit requested s)
      (fun r d => Moves μ s.device d ∧ ((∃ c', r = (.ok, some c') ∧ c'.Stores requested ∧
          Persisted d c' ∧ MetadataFrame s.device d ∧
          d.history = .commit μ.writer (persisted s.device) c' :: s.device.history) ∨
        r = (.metadataCommitFailed, none)))
      (Moves μ s.device) := by
  refine Holds.bind (commit_moves hs hrequest) ?_ (fun _ hd => hd)
  intro r t ht h
  rcases h.ends.cases with ⟨c', rfl, hstores, hpersisted, hhistory⟩ | ⟨⟨e, rfl⟩, -⟩
  · exact Holds.pure ht ⟨h.moves, .inl ⟨c', rfl, hstores, hpersisted, h.ends.frame, hhistory⟩⟩
  · exact Holds.pure ht ⟨h.moves, .inr rfl⟩

/-- A trial attempt is counted, then the application is started. -/
theorem bootTrial_turns (hs : Env μ false s) (hc : Persisted s.device c)
    (hstate : c.state = UpdateState.trialBoot.code)
    (hattempts : ¬ c.bootAttempts ≥ BootMetadata.maxBootAttempts) {vector : ApplicationVector}
    (hvector : ApplicationJump.validate s.device applicationStartAddress = .ok vector) :
    Holds μ false (bootTrial c vector s) (Turns μ c s.device) (Moves μ s.device) := by
  rw [bootTrial, TrialBoot.prepareAttempt, if_neg (not_not.2 hstate), if_neg hattempts]
  refine Holds.bind (trialCommit_moves hs fun _ => hc ▸ .attempt hstate hattempts) ?_
    (fun _ hd => hd)
  rintro r t ht ⟨hmoves, ⟨c', rfl, hstores, hpersisted, hframe, hhistory⟩ | rfl⟩
  · dsimp only
    rw [if_neg (not_not.2 rfl)]
    exact (execute_turns ht ⟨hmoves, (validate_congr hframe).trans hvector,
      .trial hstate hattempts hstores hpersisted hhistory⟩)
  · exact Holds.pure ht hmoves

theorem confirmed_turns (hs : Env μ false s) (hc : Persisted s.device c)
    (hstate : c.state = UpdateState.confirmed.code) (stop : Ending) :
    Holds μ false (recover key c .finalizeConfirmation stop s) (Turns μ c s.device)
      (Moves μ s.device) := by
  obtain ⟨-, hpending, -⟩ := hc.valid.fieldsOf hstate
  rw [recover, if_neg (by decide), if_neg (by decide), if_pos rfl,
    TrialBoot.finalizeConfirmation, if_neg (by simp [hstate, hpending])]
  refine Holds.bind (trialCommit_moves hs fun _ => hc ▸ .finalized hstate hpending) ?_
    (fun _ hd => hd)
  rintro r t ht ⟨hmoves, ⟨c', rfl, hstores, hpersisted, -, -⟩ | rfl⟩
  · refine Holds.pure ht ⟨hmoves, hpersisted, ?_⟩
    rw [rank_eq hstate, rank_eq (show c'.state = UpdateState.idle.code from hstores.state)]
    decide
  · exact Holds.pure ht hmoves

/-- In a state of an active application it is started, if it can be. -/
theorem active_turns (hs : Env μ false s) (hc : c.Valid) {st : UpdateState}
    (hst : st ∈ activeStates) (hstate : c.state = st.code) :
    Holds μ false (transition key c s) (Turns μ c s.device) (Moves μ s.device) := by
  have hdecision : (BootDecision.ofMetadata c).action = .jumpActive ∨
      (BootDecision.ofMetadata c).action = .resumeDownload := by
    unfold BootDecision.ofMetadata
    rw [hstate, UpdateState.ofCode_code]
    fin_cases hst <;> simp
  by_cases hvectors : VectorsValid applicationMaxSize s.device.app
  · obtain ⟨vector, hvector, htaken⟩ := transition_start key hc hvectors
    rw [htaken, if_neg (by rcases hdecision with h | h <;> simp [h]), if_pos hdecision]
    exact execute_turns hs ⟨.refl μ _, hvector, .active hst hstate rfl⟩
  · obtain ⟨pulses, htaken⟩ := transition_invalid key (m := c) hvectors
    have haction : (BootDecision.evaluate c false).action = .stayRecovery := by
      unfold BootDecision.evaluate
      rw [if_neg (not_not.2 (BootMetadata.validate_eq_valid.2 hc))]
      rcases hdecision with h | h <;> simp [h]
    rw [htaken, haction]
    exact stay_turns hs pulses

theorem trial_turns (hs : Env μ false s) (hc : Persisted s.device c)
    (hstate : c.state = UpdateState.trialBoot.code) :
    Holds μ false (transition key c s) (Turns μ c s.device) (Moves μ s.device) := by
  have hdecision : BootDecision.ofMetadata c =
      if c.bootAttempts ≥ BootMetadata.maxBootAttempts then ⟨.resumeRollback, .trialLimitReached⟩
      else ⟨.bootTrial, .none⟩ := by
    unfold BootDecision.ofMetadata
    rw [hstate, UpdateState.ofCode_code]
  by_cases hlimit : c.bootAttempts ≥ BootMetadata.maxBootAttempts
  · rw [if_pos hlimit] at hdecision
    obtain ⟨pulses, htaken⟩ := transition_recover key (s := s) hc.valid
      (congrArg BootDecision.action hdecision) (by decide) (by decide) (by decide)
    rw [htaken]
    exact rollback_turns hs hc (by decide) hstate _
  rw [if_neg hlimit] at hdecision
  by_cases hvectors : VectorsValid applicationMaxSize s.device.app
  · obtain ⟨vector, hvector, htaken⟩ := transition_start key hc.valid hvectors
    rw [htaken, hdecision, if_pos rfl]
    exact bootTrial_turns hs hc hstate hlimit hvector
  · obtain ⟨pulses, htaken⟩ := transition_invalid key (m := c) hvectors
    have haction : (BootDecision.evaluate c false).action = .resumeRollback := by
      unfold BootDecision.evaluate
      rw [if_neg (not_not.2 (BootMetadata.validate_eq_valid.2 hc.valid)), hdecision]
      rfl
    rw [htaken, haction]
    exact rollback_turns hs hc (by decide) hstate _

/-- One turn of the loop with a record that is current, or the default one. -/
theorem transition_turns (hs : Env μ false s) (hc : c.Valid)
    (hcurrent : c.state ≠ UpdateState.idle.code → Persisted s.device c) :
    Holds μ false (transition key c s) (Turns μ c s.device) (Moves μ s.device) := by
  obtain ⟨st, hstate⟩ := hc.exists_state
  have hcurrent' : st ≠ .idle → Persisted s.device c := fun hne =>
    hcurrent (by rw [hstate]; exact fun h => hne (UpdateState.code_inj.1 h))
  cases st with
  | idle => exact active_turns hs hc (by decide) hstate
  | receiving => exact active_turns hs hc (by decide) hstate
  | artifactReady => exact artifact_turns hs (hcurrent' (by decide)) ⟨_, by decide, hstate⟩
  | verifyingContainer => exact artifact_turns hs (hcurrent' (by decide)) ⟨_, by decide, hstate⟩
  | verifyingBase => exact artifact_turns hs (hcurrent' (by decide)) ⟨_, by decide, hstate⟩
  | patching => exact artifact_turns hs (hcurrent' (by decide)) ⟨_, by decide, hstate⟩
  | imageReady => exact install_turns hs (hcurrent' (by decide)) ⟨_, by decide, hstate⟩
  | backingUp => exact install_turns hs (hcurrent' (by decide)) ⟨_, by decide, hstate⟩
  | installing => exact install_turns hs (hcurrent' (by decide)) ⟨_, by decide, hstate⟩
  | verifyingInstall => exact install_turns hs (hcurrent' (by decide)) ⟨_, by decide, hstate⟩
  | trialBoot => exact trial_turns hs (hcurrent' (by decide)) hstate
  | confirmed =>
      have haction : (BootDecision.ofMetadata c).action = .finalizeConfirmation := by
        rw [BootDecision.ofMetadata, hstate, UpdateState.ofCode_code]
      obtain ⟨pulses, htaken⟩ := transition_recover key (s := s) hc haction (by decide)
        (by decide) (by decide)
      rw [htaken]
      exact confirmed_turns hs (hcurrent' (by decide)) hstate _
  | rollback =>
      have haction : (BootDecision.ofMetadata c).action = .resumeRollback := by
        rw [BootDecision.ofMetadata, hstate, UpdateState.ofCode_code]
      obtain ⟨pulses, htaken⟩ := transition_recover key (s := s) hc haction (by decide)
        (by decide) (by decide)
      rw [htaken]
      exact rollback_turns hs (hcurrent' (by decide)) (by decide) hstate _
  | failed =>
      have haction : (BootDecision.ofMetadata c).action = .stayRecovery := by
        rw [BootDecision.ofMetadata, hstate, UpdateState.ofCode_code]
      obtain ⟨pulses, htaken⟩ := transition_recover key (s := s) hc haction (by decide)
        (by decide) (by decide)
      rw [htaken]
      exact stay_turns hs pulses

end Turn

/-! ## Whole boots -/

section Boots

variable {μ : Mode} {s : Machine} {c : BootMetadata}

/-- The loop of `BootManager_Run`: it is left early with an ending, or the turns are used up. -/
def turns (key : TrustedKey) (metadata : BootMetadata) :
    Prog Machine (Except Ending (BootMetadata × Nat)) :=
  Prog.loop (fun st : BootMetadata × Nat => st.2 < maxBootTransitions)
    (fun st => do
      match ← transition key st.1 with
      | .ok metadata => pure (.ok (metadata, st.2 + 1))
      | .error ending => pure (.error ending))
    maxBootTransitions (metadata, 0)

theorem transitions_eq (key : TrustedKey) (metadata : BootMetadata) :
    transitions key metadata = turns key metadata >>= fun
      | .ok _ => pure (.fatal recoveryActionPulses)
      | .error ending => pure ending := by
  unfold transitions turns Prog.loopThen
  refine congrArg _ (funext fun r => ?_)
  cases r <;> rfl

/-- A turn begins with the current record, or with the default record of the first turn. -/
def Current (c₀ : BootMetadata) (d₀ : Device) (c : BootMetadata) (d : Device) : Prop :=
  Persisted d c ∨ c = c₀ ∧ d = d₀ ∧ c₀.Valid ∧ c₀.state = UpdateState.idle.code

theorem Current.valid {c₀ : BootMetadata} {d₀ d : Device} (h : Current c₀ d₀ c d) : c.Valid := by
  rcases h with hc | ⟨rfl, -, hvalid, -⟩
  · exact hc.valid
  · exact hvalid

theorem Current.persisted {c₀ : BootMetadata} {d₀ d : Device} (h : Current c₀ d₀ c d)
    (hne : c.state ≠ UpdateState.idle.code) : Persisted d c := by
  rcases h with hc | ⟨rfl, -, -, hidle⟩
  · exact hc
  · exact absurd hidle hne

/-- How a boot that began on `d₀` with the record `c₀` ends: its last turn stops it. -/
def Boots (μ : Mode) (c₀ : BootMetadata) (d₀ : Device) (ending : Ending) (d : Device) : Prop :=
  ∃ c d₁, Moves μ d₀ d₁ ∧ Current c₀ d₀ c d₁ ∧ Stops μ c d₁ ending d

/-- The loop is left by a turn that ends the boot. -/
theorem turns_stops (key : TrustedKey) (hs : Env μ false s) (hc : Current c s.device c s.device) :
    Holds μ false (turns key c s) (Exits (fun _ _ => False) (Boots μ c s.device))
      (Moves μ s.device) := by
  have hpost : ∀ st : BootMetadata × Nat, ∀ t : Machine, st.2 < maxBootTransitions →
      Env μ false t ∧ Moves μ s.device t.device ∧ Current c s.device st.1 t.device ∧
        rank st.1 + st.2 < maxBootTransitions →
      Holds μ false (transition key st.1 t)
        (Exits (fun c' d => Moves μ s.device d ∧ Current c s.device c' d ∧ rank c' < rank st.1)
          (Boots μ c s.device)) (Moves μ s.device) := by
    rintro st t - ⟨ht, hmoves, hcurrent, -⟩
    refine (transition_turns ht hcurrent.valid hcurrent.persisted).mono ?_ (fun _ hd => hmoves.trans hd)
    intro r d hr
    cases r with
    | ok c' => exact ⟨hmoves.trans hr.1, .inl hr.2.1, hr.2.2⟩
    | error ending => exact ⟨st.1, t.device, hmoves, hcurrent, hr⟩
  refine Result.Ensures.mono (ensures_loop (I := fun st t => Env μ false t ∧
      Moves μ s.device t.device ∧ Current c s.device st.1 t.device ∧ rank st.1 + st.2 < maxBootTransitions)
    (E := fun ending t => Env μ false t ∧ Boots μ c s.device ending t.device)
    (C := fun t => μ.cuts = true ∧ Moves μ s.device t.device)
    (fun st => maxBootTransitions - st.2) ?_ ?_ maxBootTransitions (c, 0) s (Nat.sub_le _ _)
    ⟨hs, .refl μ _, hc, lt_of_le_of_lt (rank_le c) (by decide)⟩) ?_ (fun _ h => h)
  · intro st t hguard _
    simp only [decide_eq_true_eq] at hguard
    omega
  · intro st t hguard hI
    simp only [decide_eq_true_eq] at hguard
    refine Ensures.bind (hpost st t hguard hI) ?_ (fun _ h => h)
    rintro r u ⟨hu, hr⟩
    cases r with
    | ok c' =>
        obtain ⟨hmoves, hcurrent, hlower⟩ := hr
        have hroom := hI.2.2.2
        exact ⟨⟨hu, hmoves, hcurrent, by dsimp only; omega⟩, by dsimp only; omega⟩
    | error ending => exact ⟨hu, hr⟩
  · intro r t hr
    cases r with
    | ok st =>
        obtain ⟨⟨-, -, -, hroom⟩, hguard⟩ := hr
        simp only [decide_eq_false_iff_not, not_lt] at hguard
        omega
    | error ending => exact hr

/-- The record of a node whose factory record could not be committed. -/
def unpersisted (version : UInt32) : BootMetadata :=
  BootMetadata.finalize { BootMetadata.init version with generation := 1 }

theorem unpersisted_valid (version : UInt32) : (unpersisted version).Valid :=
  ⟨rfl, rfl, (by decide : (1 : UInt32) ≠ 0), rfl, UInt32.le_refl _, Nat.zero_le _, Nat.zero_le _, rfl,
    rfl⟩

/-- The record a boot starts with: the current one, or the default one that was not stored. -/
def Loaded (version : UInt32) (s : Machine) (c : BootMetadata) (d : Device) : Prop :=
  Persisted d c ∨ c = unpersisted version ∧ persisted s.device = none ∧
    ∃ e t, commit (BootMetadata.init version) s = .done (.error e) t

theorem loadMetadata_moves (hs : Env μ false s) (version : UInt32) :
    Holds μ false (loadMetadata version s)
      (fun r d => ∃ c, r = some c ∧ Moves μ s.device d ∧ Loaded version s c d)
      (Moves μ s.device) := by
  refine Holds.read_bind ?_
  rw [load_eq]
  cases hpersisted : persisted s.device with
  | some c => exact Holds.pure hs ⟨c, rfl, .refl μ _, .inl hpersisted⟩
  | none =>
      refine Holds.bind_eq (commit_moves hs fun _ => hpersisted ▸ .factory version) ?_
        (fun _ hd => hd)
      intro r t hr ht h
      rcases h.cases with ⟨c, rfl, -, hc⟩ | ⟨⟨e, rfl⟩, -⟩
      · exact Holds.pure ht ⟨c, rfl, h.moves, .inl hc⟩
      · exact Holds.pure ht ⟨_, rfl, h.moves, .inr ⟨rfl, hpersisted, e, t, hr⟩⟩

theorem Loaded.current {version : UInt32} {d : Device} (h : Loaded version s c d) :
    Current c d c d := by
  rcases h with hc | ⟨rfl, -⟩
  · exact .inl hc
  · exact .inr ⟨rfl, rfl, unpersisted_valid version, rfl⟩

/-- A whole boot: a record is loaded, then the loop is left with an ending. -/
theorem run_boots (build : Build) (hs : Env μ false s) :
    Holds μ false (run build s)
      (fun ending d => ∃ c₀ d₀, Moves μ s.device d₀ ∧ Loaded build.applicationVersion s c₀ d₀ ∧
        Boots μ c₀ d₀ ending d)
      (Moves μ s.device) := by
  refine Holds.bind (loadMetadata_moves hs build.applicationVersion) ?_ (fun _ hd => hd)
  rintro r t ht ⟨c₀, rfl, hmoves, hloaded⟩
  dsimp only
  rw [transitions_eq]
  refine Holds.bind (turns_stops build.key ht hloaded.current) ?_ (fun _ hd => hmoves.trans hd)
  intro r u hu hr
  cases r with
  | ok st => exact hr.elim
  | error ending => exact Holds.pure hu ⟨c₀, t.device, hmoves, hloaded, hr⟩

/-- The jump is the only thing a boot does besides its moves. -/
theorem Boots.moves {c₀ : BootMetadata} {d₀ d : Device} {ending : Ending}
    (h : Boots μ c₀ d₀ ending d) : ∃ d₁, Moves μ d₀ d₁ ∧ (d = d₁ ∨ d = d₁.record .jump) := by
  obtain ⟨c, d₁, hmoves, -, hstops⟩ := h
  cases ending with
  | fatal pulses => exact ⟨d, hmoves.trans hstops, .inl rfl⟩
  | jump vector =>
      obtain ⟨d₂, rfl, hstarts⟩ := hstops
      exact ⟨d₂, hmoves.trans hstarts.moves, .inr rfl⟩

end Boots

/-! ## Safe starts -/

/-- Any flash operation may fail, but power stays on. -/
def failingMode (atomicCommit : Bool) : Mode where
  cuts := false
  tornPrograms := false
  externalFaults := true
  internalFaults := true
  atomicCommit := atomicCommit
  writer := .bootloader

/-- The states in which an application may be started. -/
def startStates : List UpdateState := [.idle, .receiving, .trialBoot]

/-- A machine at power-up. -/
def powerUp (atomicCommit : Bool) (script : List Outcome) (d : Device) : Machine :=
  ⟨d.record .boot, ⟨false, .notInitialized⟩, script, atomicCommit, .bootloader⟩

/-- The condition of a node whose application is started. -/
theorem Boots.startState {μ : Mode} {c₀ : BootMetadata} {d₀ d : Device}
    {vector : ApplicationVector} (h : Boots μ c₀ d₀ (.jump vector) d) :
    ApplicationJump.validate d applicationStartAddress = .ok vector ∧
      ((∃ c, Persisted d c ∧ ∃ st ∈ startStates, c.state = st.code) ∨ ¬ Persisted d₀ c₀) := by
  obtain ⟨c, d₁, -, hcurrent, d₂, rfl, hstarts⟩ := h
  refine ⟨hstarts.vectors, ?_⟩
  have hjump : ∀ c', Persisted d₂ c' → Persisted (d₂.record .jump) c' :=
    fun c' hc' => (persisted_record d₂ .jump).trans hc'
  cases hstarts.cause with
  | active hst hstate hsame =>
      subst hsame
      have hstart : ∃ st ∈ startStates, c.state = st.code := by
        refine ⟨_, ?_, hstate⟩
        fin_cases hst <;> decide
      rcases hcurrent with hc | ⟨rfl, rfl, -⟩
      · exact .inl ⟨c, hjump c hc, hstart⟩
      · by_cases hc : Persisted d₂ c
        · exact .inl ⟨c, hjump c hc, hstart⟩
        · exact .inr hc
  | trial hstate _ hstores hpersisted _ =>
      exact .inl ⟨_, hjump _ hpersisted, .trialBoot, by decide, hstores.state.trans hstate⟩

/--
The boot loop is left before its turns are used up, and an application is
started with the vector that is valid at that moment, in a state that allows it.
-/
theorem boot_starts_valid_application (build : Build) (atomicCommit : Bool)
    (script : List Outcome) (hpower : ∀ written, Outcome.cut written ∉ script) (d : Device) :
    ∃ c s ending s', loadMetadata build.applicationVersion (powerUp atomicCommit script d) =
        .done (some c) s ∧
      turns build.key c s = .done (.error ending) s' ∧
      boot build atomicCommit script d = .done ending s' ∧
      ∀ vector, ending = .jump vector →
        ApplicationJump.validate s'.device applicationStartAddress = .ok vector ∧
        ((∃ c', Persisted s'.device c' ∧ ∃ st ∈ startStates, c'.state = st.code) ∨
          persisted d = none ∧ ∃ e t, MetadataStorage.commit
            (BootMetadata.init build.applicationVersion) (powerUp atomicCommit script d) =
              .done (.error e) t) := by
  have hadmits : ∀ o ∈ script, (failingMode atomicCommit).Admits o := by
    intro o ho
    cases o with
    | ok => trivial
    | externalFault => rfl
    | internalFault => rfl
    | cut written => exact absurd ho (hpower written)
  have hs : Env (failingMode atomicCommit) false (powerUp atomicCommit script d) :=
    ⟨hadmits, by simp, rfl, rfl⟩
  obtain ⟨r, s, hload, hs₁, c, rfl, -, hloaded⟩ :=
    (loadMetadata_moves hs build.applicationVersion).exists_done rfl
  obtain ⟨r, s', hturns, -, hr⟩ := (turns_stops build.key hs₁ hloaded.current).exists_done rfl
  cases r with
  | ok st => exact hr.elim
  | error ending =>
      refine ⟨c, s, ending, s', hload, hturns, ?_, ?_⟩
      · unfold boot run
        rw [Prog.bind_apply]
        change Prog.andThen (loadMetadata build.applicationVersion (powerUp atomicCommit script d)) _
          = _
        rw [hload]
        change transitions build.key c s = _
        rw [transitions_eq, Prog.bind_apply, hturns]
        rfl
      · rintro vector rfl
        obtain ⟨hvector, hstate⟩ := Boots.startState hr
        refine ⟨hvector, hstate.imp_right fun hnot => ?_⟩
        obtain ⟨-, hnone, hfailed⟩ := hloaded.resolve_left hnot
        exact ⟨(persisted_record d .boot).symm.trans hnone, hfailed⟩

/-- An erased node whose first commit fails. -/
theorem boot_starts_valid_application_erased :
    ∃ ending s', boot ⟨⟨true, 1, []⟩, 1⟩ false [.ok, .internalFault fun _ => 0]
      ⟨fun _ => 0xFF, fun _ => 0xFF, []⟩ = .done ending s' := by
  obtain ⟨-, -, ending, s', -, -, hboot, -⟩ :=
    boot_starts_valid_application ⟨⟨true, 1, []⟩, 1⟩ false [.ok, .internalFault fun _ => 0]
      (by simp) ⟨fun _ => 0xFF, fun _ => 0xFF, []⟩
  exact ⟨ending, s', hboot⟩

end BootManager

end SecureDeltaOta
