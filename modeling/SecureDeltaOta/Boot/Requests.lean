import SecureDeltaOta.Boot.BootManager
import SecureDeltaOta.Boot.ContainerProcessing
import SecureDeltaOta.Boot.InstallerPages
import SecureDeltaOta.Storage.CommitLog

/-!
# What the bootloader asks to be persisted

The records the bootloader passes to the metadata storage, one constructor for
each place in the source where it does so. Everything the bootloader does to the
log of the node is a sequence of such requests, on any contents of the flash
memories and whatever the environment does to the flash operations.
-/

namespace SecureDeltaOta

open Memory Crash MetadataStorage

namespace BootManager

open SecureContainer (unprocessed)
open FirmwareContainer (Info)

/-- The record with another state, progress and diagnostic. -/
def moved (m : BootMetadata) (st : UpdateState) (copyOffset lastError : UInt32) : BootMetadata :=
  { m with state := st.code, copyOffset := copyOffset, lastError := lastError }

/-- The states in which the candidate is being installed or taken back. -/
def installingStates : List UpdateState :=
  [.imageReady, .backingUp, .installing, .verifyingInstall, .trialBoot, .rollback]

/-- The steps of the copies, which change the progress and at most the state. -/
def copySteps : List (UpdateState × UpdateState) :=
  [(.backingUp, .backingUp), (.backingUp, .installing), (.installing, .installing),
    (.installing, .verifyingInstall), (.verifyingInstall, .installing), (.rollback, .rollback)]

/-- What may be requested, given the record that is current. -/
inductive Request : Option BootMetadata → BootMetadata → Prop
  | factory (version : UInt32) : Request none (BootMetadata.init version)
  | rejected {m : BootMetadata} {st : UpdateState} (hst : st ∈ unprocessed)
      (hstate : m.state = st.code) (reason : SecureContainerStatus) :
      Request (some m) (SecureContainer.rejected m reason)
  | entering {m : BootMetadata} {st st' : UpdateState} (hst : st ∈ unprocessed)
      (hstate : m.state = st.code) (hst' : st' ∈ unprocessed) :
      Request (some m) (SecureContainer.entering m st')
  | imageReady {m : BootMetadata} {info : Info} (hstate : m.state = UpdateState.patching.code)
      (hw : FirmwareContainer.WellFormed info.header info.extension)
      (hpolicy : SecureContainer.validateMetadataPolicy info m = .ok) :
      Request (some m) (SecureContainer.imageReady info m)
  | reverted {m : BootMetadata}
      (hstate : m.state = UpdateState.imageReady.code ∨ m.state = UpdateState.backingUp.code)
      (reason : ImageInstallerStatus) : Request (some m) (ImageInstaller.reverted m reason)
  | failed {m : BootMetadata} {st : UpdateState} (hst : st ∈ installingStates)
      (hstate : m.state = st.code) (reason : ImageInstallerStatus) :
      Request (some m) (moved m .failed m.copyOffset (ImageInstaller.installerError reason))
  | backup {m : BootMetadata} (hstate : m.state = UpdateState.imageReady.code)
      (hpending : m.pendingVersion ≠ 0) :
      Request (some m) { moved m .backingUp 0 0 with bootAttempts := 0 }
  | copy {m : BootMetadata} {st st' : UpdateState} {copyOffset lastError : UInt32}
      (hst : (st, st') ∈ copySteps) (hstate : m.state = st.code)
      (hacceptable : (moved m st' copyOffset lastError).Acceptable) :
      Request (some m) (moved m st' copyOffset lastError)
  | trial {m : BootMetadata} (hstate : m.state = UpdateState.verifyingInstall.code)
      (hpending : m.pendingVersion ≠ 0) :
      Request (some m) { moved m .trialBoot 0 0 with bootAttempts := 0 }
  | rollback {m : BootMetadata} {st : UpdateState}
      (hst : st ∈ [.installing, .verifyingInstall, .trialBoot]) (hstate : m.state = st.code)
      (diagnostic : UInt32) : Request (some m) (moved m .rollback 0 diagnostic)
  | rolledBack {m : BootMetadata} (hstate : m.state = UpdateState.rollback.code)
      (backup : BackupImageRecord) (diagnostic : UInt32) :
      Request (some m) (ImageInstaller.rolledBack m backup diagnostic)
  | attempt {m : BootMetadata} (hstate : m.state = UpdateState.trialBoot.code)
      (hattempts : ¬ m.bootAttempts ≥ BootMetadata.maxBootAttempts) :
      Request (some m) { m with bootAttempts := m.bootAttempts + 1, lastError := 0 }
  | finalized {m : BootMetadata} (hstate : m.state = UpdateState.confirmed.code)
      (hpending : m.pendingVersion ≠ 0) : Request (some m) (TrialBoot.finalized m)

/-! ## Moves -/

/-- What a part of a boot may do to the node. -/
structure Moves (μ : Mode) (d d' : Device) : Prop where
  incoming : ∀ i < ExternalPartition.incoming.size, d'.part .incoming i = d.part .incoming i
  checkpoint : μ.Faulty ∨ d'.checkpoint = d.checkpoint ∨ d'.CheckpointIdle
  log : μ.Logged → Log.Steps μ.writer Request d.log d'.log

theorem Moves.refl (μ : Mode) (d : Device) : Moves μ d d :=
  ⟨fun _ _ => rfl, .inr (.inl rfl), fun _ => .refl⟩

theorem Moves.trans {μ : Mode} {d d' d'' : Device} (h : Moves μ d d') (h' : Moves μ d' d'') :
    Moves μ d d'' := by
  refine ⟨fun i hi => (h'.incoming i hi).trans (h.incoming i hi), ?_,
    fun hlogged => (h.log hlogged).trans (h'.log hlogged)⟩
  rcases h'.checkpoint with hfaulty | hsame | hidle
  · exact .inl hfaulty
  · rcases h.checkpoint with hfaulty | hsame' | hidle
    · exact .inl hfaulty
    · exact .inr (.inl (hsame.trans hsame'))
    · obtain ⟨c, hc, hstate⟩ := hidle
      exact .inr (.inr ⟨c, hsame.trans hc, hstate⟩)
  · exact .inr (.inr hidle)

/-- Neither the records nor the received artifact nor the history change. -/
structure Quiet (d d' : Device) : Prop where
  frame : PartFrame Page (fun p => p = .incoming ∨ p = .metadataA ∨ p = .metadataB) d d'
  history : d'.history = d.history

instance : IsPreorder Device Quiet where
  refl d := ⟨refl_of (PartFrame Page _) d, rfl⟩
  trans _ _ _ h h' := ⟨trans_of (PartFrame Page _) h.frame h'.frame, h'.history.trans h.history⟩

theorem Quiet.persisted {d d' : Device} (h : Quiet d d') : persisted d' = persisted d :=
  persisted_congr h.frame.internal

theorem Quiet.moves {d d' : Device} (h : Quiet d d') (μ : Mode) : Moves μ d d' := by
  refine ⟨fun i hi => h.frame.part (.inl rfl) hi, .inr (.inl (Device.checkpoint_congr ?_)), ?_⟩
  · rintro p (rfl | rfl) i hi
    · exact h.frame.part (.inr (.inl rfl)) hi
    · exact h.frame.part (.inr (.inr rfl)) hi
  · intro _
    have hlog : d'.log = d.log := by
      unfold Device.log
      rw [h.persisted, h.history]
    rw [hlog]

theorem allows_quiet {p : ExternalPartition}
    (hp : ¬ (p = .incoming ∨ p = .metadataA ∨ p = .metadataB)) :
    Allows Quiet p.address (p.address + p.size) :=
  fun d start n bytes hlo hhi => ⟨allows_partFrame hp d start n bytes hlo hhi, rfl⟩

section Commits

variable {μ : Mode} {up : Bool} {s : Machine} {requested : BootMetadata}

/-- A commit moves only the log. -/
theorem moves_of_frame {d d' : Device} (hframe : MetadataFrame d d')
    (hlog : μ.Logged → Log.Steps μ.writer Request d.log d'.log) : Moves μ d d' :=
  ⟨fun _ _ => hframe.external _ trivial,
    .inr (.inl (Device.checkpoint_congr fun _ _ _ _ => hframe.external _ trivial)), hlog⟩

/-- How a request is answered. -/
structure Answered (μ : Mode) (requested : BootMetadata) (d₀ : Device)
    (r : Except MetadataStorageStatus BootMetadata) (d : Device) : Prop where
  moves : Moves μ d₀ d
  ends : CommitEnd μ requested d₀ r d

theorem Answered.cases {d₀ d : Device} {r : Except MetadataStorageStatus BootMetadata}
    (h : Answered μ requested d₀ r d) :
    (∃ c, r = .ok c ∧ c.Stores requested ∧ Persisted d c) ∨
      (∃ e, r = .error e) ∧ (¬ requested.Acceptable ∧ persisted d = persisted d₀ ∨
        μ.internalFaults = true) := by
  rcases h.ends.cases with ⟨c, hr, hstores, hpersisted, -⟩ | ⟨herror, ⟨hrefused, rfl⟩ | hfault⟩
  · exact .inl ⟨c, hr, hstores, hpersisted⟩
  · exact .inr ⟨herror, .inl ⟨hrefused, persisted_record _ _⟩⟩
  · exact .inr ⟨herror, .inr hfault⟩

theorem commit_moves (hs : Env μ up s)
    (hrequest : μ.internalFaults = false → Request (persisted s.device) requested) :
    Holds μ up (commit requested s) (Answered μ requested s.device) (Moves μ s.device) := by
  refine (commit_ends hs requested).mono ?_ ?_
  · exact fun r d h => ⟨moves_of_frame h.frame fun hlogged =>
      .single (h.step hlogged (hrequest hlogged.internal)), h⟩
  · rintro d ⟨hframe, -, hatomic⟩
    refine moves_of_frame hframe fun hlogged => ?_
    rw [hatomic hlogged.atomic]

/-- Clearing the download checkpoint. -/
theorem clear_moves (hs : Env μ up s) (hup : μ.Usable up) :
    Holds μ up (DownloadCheckpointStorage.clear s)
      (fun r d => Moves μ s.device d ∧ persisted d = persisted s.device ∧ (r = .ok ∨ μ.Faulty))
      (Moves μ s.device) := by
  have hhistory : Keeps SameHistory DownloadCheckpointStorage.clear :=
    DownloadCheckpointStorage.clear_keeps fun _ => allows_sameHistory _ _
  have hmoves : ∀ d, DownloadCheckpointStorage.CheckpointFrame s.device d →
      SameHistory s.device d →
      (μ.Faulty ∨ d.checkpoint = s.device.checkpoint ∨ d.CheckpointIdle) →
      Moves μ s.device d ∧ persisted d = persisted s.device := by
    intro d hframe hsame hcheckpoint
    have hpersisted := persisted_congr fun a _ => hframe.internal a trivial
    refine ⟨⟨fun i hi => hframe.part (by decide) hi, hcheckpoint, fun _ => ?_⟩, hpersisted⟩
    have hlog : d.log = s.device.log := by
      unfold Device.log
      rw [hpersisted, hsame]
    rw [hlog]
  refine (((DownloadCheckpointStorage.clear_holds hs hup).and_keeps
    DownloadCheckpointStorage.clear_frame).and_keeps hhistory).mono ?_ ?_
  · rintro r d ⟨⟨hr, hframe⟩, hsame⟩
    obtain ⟨hmoves, hpersisted⟩ := hmoves d hframe hsame
      (hr.symm.imp_right fun h => .inr h.2)
    exact ⟨hmoves, hpersisted, hr.imp_left And.left⟩
  · rintro d ⟨⟨hd, hframe⟩, hsame⟩
    exact (hmoves d hframe hsame (.inr hd)).1

end Commits

/-! ## Containers -/

/-- What a function hands to the boot loop: a record that is current, in one of some states. -/
structure Hands (μ : Mode) (states : List UpdateState) (d₀ : Device) (next : Option BootMetadata)
    (d : Device) : Prop where
  moves : Moves μ d₀ d
  current : ∀ c, next = some c → Persisted d c ∧ ∃ st ∈ states, c.state = st.code

/-- The states the processing of a container ends in. -/
abbrev processed : List UpdateState := [.idle, .imageReady]

section Container

variable {μ : Mode} {up : Bool} {s : Machine} {key : TrustedKey} {info : Info}
  {m metadata : BootMetadata} {d₀ : Device} {states : List UpdateState}

theorem Hands.none {d : Device} (h : Moves μ d₀ d) : Hands μ states d₀ none d :=
  ⟨h, fun _ hc => nomatch hc⟩

theorem Hands.after {d₁ d : Device} {next : Option BootMetadata} (h : Moves μ d₀ d₁)
    (h' : Hands μ states d₁ next d) : Hands μ states d₀ next d :=
  ⟨h.trans h'.moves, h'.current⟩

theorem Hands.mono {states' : List UpdateState} {d : Device} {next : Option BootMetadata}
    (h : Hands μ states d₀ next d) (hsub : ∀ st ∈ states, st ∈ states') :
    Hands μ states' d₀ next d := by
  refine ⟨h.moves, fun c hc => ?_⟩
  obtain ⟨hpersisted, st, hst, hstate⟩ := h.current c hc
  exact ⟨hpersisted, st, hsub st hst, hstate⟩

/-- Go on after a part that has moved the node. -/
theorem hands_after {α : Type} {r : Result Machine α} {next : α → Option BootMetadata}
    {d₁ : Device} (hmoves : Moves μ d₀ d₁)
    (h : Holds μ up r (fun a d => Hands μ states d₁ (next a) d) (Moves μ d₁)) :
    Holds μ up r (fun a d => Hands μ states d₀ (next a) d) (Moves μ d₀) :=
  h.mono (fun _ _ hr => hr.after hmoves) (fun _ hd => hmoves.trans hd)

theorem reject_moves (hs : Env μ up s) (hup : μ.Usable up) (hm : Persisted s.device m)
    {st : UpdateState} (hst : st ∈ unprocessed) (hstate : m.state = st.code)
    (reason : SecureContainerStatus) :
    Holds μ up (SecureContainer.reject m reason s)
      (fun r d => Hands μ [.idle] s.device r.2 d) (Moves μ s.device) := by
  refine Holds.bind (clear_moves hs hup) ?_ (fun _ hd => hd)
  rintro cleared t ht ⟨hmoves, hpersisted, -⟩
  refine hands_after hmoves ?_
  refine Holds.bind (commit_moves ht fun _ => (hpersisted.trans hm) ▸
    .rejected hst hstate reason) ?_ (fun _ hd => hd)
  intro r u hu h
  rcases h.cases with ⟨c, rfl, hstores, hc⟩ | ⟨⟨e, rfl⟩, -⟩
  · refine Holds.pure hu ⟨h.moves, ?_⟩
    rintro c' ⟨⟩
    exact ⟨hc, .idle, by decide, hstores.state⟩
  · exact Holds.pure hu (.none h.moves)

/-- The record of an update whose container is still to be processed is current. -/
structure Pending (m metadata : BootMetadata) (d : Device) : Prop where
  persisted : Persisted d metadata
  unprocessed : SecureContainer.Unprocessed m metadata

theorem Pending.quiet {d d' : Device} (h : Pending m metadata d) (hquiet : Quiet d d') :
    Pending m metadata d' :=
  ⟨hquiet.persisted.trans h.persisted, h.unprocessed⟩

theorem Pending.reject (hs : Env μ up s) (hup : μ.Usable up) (h : Pending m metadata s.device)
    (reason : SecureContainerStatus) :
    Holds μ up (SecureContainer.reject metadata reason s)
      (fun r d => Hands μ processed s.device r.2 d) (Moves μ s.device) := by
  obtain ⟨st, hst, hstate⟩ := h.unprocessed.state
  exact (reject_moves hs hup h.persisted hst hstate reason).mono
    (fun _ _ hr => hr.mono (by decide)) (fun _ hd => hd)

theorem transitionFrom_moves (hs : Env μ up s) (h : Pending m metadata s.device)
    (source : UpdateState) {target : UpdateState} (htarget : target ∈ unprocessed) :
    Holds μ up (SecureContainer.transitionFrom metadata source target s)
      (fun r d => Moves μ s.device d ∧
        ((∃ c, r = .ok c ∧ Pending m c d) ∨ ∃ status, r = .error (status, none)))
      (Moves μ s.device) := by
  unfold SecureContainer.transitionFrom
  split
  swap
  · exact Holds.pure hs ⟨.refl μ _, .inl ⟨metadata, rfl, h⟩⟩
  obtain ⟨st, hst, hstate⟩ := h.unprocessed.state
  refine Holds.bind (commit_moves hs fun _ => h.persisted ▸ .entering hst hstate htarget) ?_
    (fun _ hd => hd)
  intro r t ht hr
  rcases hr.cases with ⟨c, rfl, hstores, hc⟩ | ⟨⟨e, rfl⟩, -⟩
  · have hentered : BootMetadata.SameUpdate (SecureContainer.entering metadata target) metadata :=
      ⟨rfl, rfl, rfl, rfl, rfl⟩
    exact Holds.pure ht ⟨hr.moves, .inl ⟨c, rfl, hc, ⟨target, htarget, hstores.state⟩,
      hstores.toAgrees.sameUpdate.trans (hentered.trans h.unprocessed.update)⟩⟩
  · exact Holds.pure ht ⟨hr.moves, .inr ⟨_, rfl⟩⟩

theorem advance_moves (hs : Env μ up s) (hup : μ.Usable up) (h : Pending m m s.device) :
    Holds μ up (SecureContainer.advance info m s)
      (fun r d => (∃ c, r = .ok c ∧ Moves μ s.device d ∧ Pending m c d) ∨
        ∃ outcome, r = .error outcome ∧ Hands μ processed s.device outcome.2 d)
      (Moves μ s.device) := by
  have hcontainer : UpdateState.verifyingContainer ∈ unprocessed := by decide
  have hbase : UpdateState.verifyingBase ∈ unprocessed := by decide
  have hpatching : UpdateState.patching ∈ unprocessed := by decide
  -- a last transition ends the sequence
  have hlast : ∀ t c source, Env μ up t → Moves μ s.device t.device → Pending m c t.device →
      Holds μ up (SecureContainer.transitionFrom c source .patching t)
        (fun r d => (∃ c, r = .ok c ∧ Moves μ s.device d ∧ Pending m c d) ∨
          ∃ outcome, r = .error outcome ∧ Hands μ processed s.device outcome.2 d)
        (Moves μ s.device) := by
    intro t c source ht hmoves hc
    refine (transitionFrom_moves ht hc source hpatching).mono ?_ (fun _ hd => hmoves.trans hd)
    rintro r d ⟨hmoves', ⟨c', rfl, hc'⟩ | ⟨status, rfl⟩⟩
    · exact .inl ⟨c', rfl, hmoves.trans hmoves', hc'⟩
    · exact .inr ⟨_, rfl, .none (hmoves.trans hmoves')⟩
  refine Holds.bind (transitionFrom_moves hs h .artifactReady hcontainer) ?_ (fun _ hd => hd)
  rintro r t ht ⟨hmoves₁, ⟨c₁, rfl, h₁⟩ | ⟨status, rfl⟩⟩
  swap
  · exact Holds.pure ht (.inr ⟨_, rfl, .none hmoves₁⟩)
  dsimp only
  split
  swap
  · exact hlast t c₁ _ ht hmoves₁ h₁
  refine Holds.bind (transitionFrom_moves ht h₁ .verifyingContainer hbase) ?_
    (fun _ hd => hmoves₁.trans hd)
  rintro r u hu ⟨hmoves₂, ⟨c₂, rfl, h₂⟩ | ⟨status, rfl⟩⟩
  swap
  · exact Holds.pure hu (.inr ⟨_, rfl, .none (hmoves₁.trans hmoves₂)⟩)
  refine Holds.bind (SecureContainer.validateBase_holds hu) ?_
    (fun d hd => hd ▸ hmoves₁.trans hmoves₂)
  rintro status v hv ⟨hd, -⟩
  rw [← hd] at hmoves₂ h₂
  split
  · refine Holds.bind (h₂.reject hv hup status) ?_ (fun _ hd => (hmoves₁.trans hmoves₂).trans hd)
    intro outcome w hw hhands
    exact Holds.pure hw (.inr ⟨outcome, rfl, hhands.after (hmoves₁.trans hmoves₂)⟩)
  · exact hlast v c₂ _ hv (hmoves₁.trans hmoves₂) h₂

theorem Moves.authentic {d d' : Device} {size : UInt32} (h : Moves μ d d')
    (hauthentic : SecureContainer.Authentic key d size info) :
    SecureContainer.Authentic key d' size info :=
  (SecureContainer.authentic_congr h.incoming).2 hauthentic

theorem reconstruct_moves (hs : Env μ up s) (hup : μ.Usable up) {size : UInt32}
    (h : Pending m metadata s.device) (hstate : metadata.state = UpdateState.patching.code)
    (hauthentic : SecureContainer.Authentic key s.device size info)
    (hpolicy : SecureContainer.validateMetadataPolicy info m = .ok) :
    Holds μ up (SecureContainer.reconstruct info metadata s)
      (fun r d => Hands μ processed s.device r.2 d) (Moves μ s.device) := by
  have hw := hauthentic.wellFormed
  have hge := hw.targetSize_ge
  have hle := hw.targetSize_le
  have hallows : JanpatchPort.AllowsReconstructed Quiet := allows_quiet (by decide)
  refine Holds.bind ((SecureContainer.eraseReconstructed_holds hs hup (by omega) hle).and_keeps
    (SecureContainer.eraseReconstructed_keeps hallows _)) ?_ (fun d hd => hd.2.moves μ)
  rintro erased t ht ⟨herased, hquiet₁⟩
  split
  · exact hands_after (hquiet₁.moves μ) ((h.quiet hquiet₁).reject ht hup _)
  next hgood =>
  have hff := (herased.resolve_right fun hbad => by rw [hbad.1] at hgood; exact hgood (by decide)).2
  refine Holds.bind ((SecureContainer.rebuild_holds ht hup
    ((hquiet₁.moves μ).authentic hauthentic) hff).and_keeps
    (SecureContainer.rebuild_keeps hallows info)) ?_
    (fun d hd => (trans_of Quiet hquiet₁ hd.2).moves μ)
  rintro built u hu ⟨-, hquiet₂⟩
  have hquiet := trans_of Quiet hquiet₁ hquiet₂
  split
  · exact hands_after (hquiet.moves μ) ((h.quiet hquiet).reject hu hup _)
  refine Holds.bind (SecureContainer.verifyReconstructed_holds hu hup hge hle) ?_
    (fun d hd => hd ▸ hquiet.moves μ)
  rintro verified v hv ⟨hd, -⟩
  rw [← hd] at hquiet
  split
  · exact hands_after (hquiet.moves μ) ((h.quiet hquiet).reject hv hup _)
  refine hands_after (hquiet.moves μ) ?_
  have hpolicy' := (SecureContainer.policy_congr h.unprocessed.update info).trans hpolicy
  refine Holds.bind (commit_moves hv fun _ => (h.quiet hquiet).persisted ▸
    .imageReady hstate hw hpolicy') ?_ (fun _ hd => hd)
  intro r w hw' hr
  rcases hr.cases with ⟨c, rfl, hstores, hc⟩ | ⟨⟨e, rfl⟩, -⟩
  · refine Holds.pure hw' ⟨hr.moves, ?_⟩
    rintro c' ⟨⟩
    exact ⟨hc, .imageReady, by decide, hstores.state⟩
  · exact Holds.pure hw' (.none hr.moves)

theorem processVerified_moves (hs : Env μ up s) (hup : μ.Usable up) {size : UInt32}
    (h : Pending m m s.device)
    (hauthentic : SecureContainer.Authentic key s.device size info) :
    Holds μ up (SecureContainer.processVerified info m s)
      (fun r d => Hands μ processed s.device r.2 d) (Moves μ s.device) := by
  unfold SecureContainer.processVerified
  split
  · exact h.reject hs hup _
  next hpolicy =>
  refine Holds.bind (advance_moves hs hup h) ?_ (fun _ hd => hd)
  rintro r t ht (⟨c, rfl, hmoves, hc⟩ | ⟨outcome, rfl, hhands⟩)
  · refine hands_after hmoves ?_
    dsimp only
    split
    · exact hc.reject ht hup _
    · next hpatching =>
      exact reconstruct_moves ht hup hc (not_not.1 hpatching) (hmoves.authentic hauthentic)
        (not_not.1 hpolicy)
  · exact Holds.pure ht hhands

theorem processArtifact_moves (key : TrustedKey) (hs : Env μ up s) (h : Pending m m s.device) :
    Holds μ μ.ready (SecureContainer.processArtifact key m s)
      (fun r d => Hands μ processed s.device r.2 d) (Moves μ s.device) := by
  refine Holds.bind (SecureContainer.isIncoming_holds hs) ?_ (by rintro d rfl; exact .refl μ _)
  intro present t ht hpresent
  have hd : t.device = s.device := by
    rcases hpresent with ⟨h, -⟩ | ⟨h, -⟩ <;> exact h
  rw [← hd] at h ⊢
  split
  · exact h.reject ht μ.usable_ready _
  refine Holds.bind (SecureContainer.loadVerifiedInfo_holds ht key m.expectedSize) ?_
    (by rintro d rfl; exact .refl μ _)
  rintro r u hu ⟨hd', ⟨info, rfl, hauthentic⟩ | ⟨⟨status, rfl, -⟩, -⟩⟩
  · rw [← hd'] at h hauthentic ⊢
    exact processVerified_moves hu μ.usable_ready h hauthentic
  · rw [← hd'] at h ⊢
    exact h.reject hu μ.usable_ready _

/-- `SecureContainer_Process` on any contents. -/
theorem process_moves (key : TrustedKey) (hs : Env μ up s) (hm : Persisted s.device m)
    (hstate : ∃ st ∈ unprocessed, m.state = st.code) :
    Holds μ μ.ready (SecureContainer.process key m s)
      (fun r d => Hands μ processed s.device r.2 d) (Moves μ s.device) := by
  refine init_bind_holds hs (.refl μ _) ?_
  intro ok t _ ht hd
  rw [← hd] at hm ⊢
  split
  · exact Holds.pure ht (.none (.refl μ _))
  · exact processArtifact_moves key ht ⟨hm, hstate, .refl m⟩

end Container

end BootManager

end SecureDeltaOta
