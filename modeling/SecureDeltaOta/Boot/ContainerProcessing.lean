import SecureDeltaOta.Boot.ContainerReconstruction

/-!
# From a container to a verified image

The persisted states between a received artifact and a verified image. A record
stays unprocessed until the image is verified or the update is rejected, and
nothing but the reconstructed partition, the checkpoints and the record changes.
-/

namespace SecureDeltaOta

open Memory Crash

namespace SecureContainer

open FirmwareContainer (Info WellFormed headerSize signatureSize imageFull imageDelta)
open BootMetadata (SameUpdate)

/-- The container in a device may be installed for a record, and makes this image. -/
structure Candidate (key : TrustedKey) (metadata : BootMetadata) (d : Device) (info : Info)
    (image : List UInt8) : Prop where
  authentic : Authentic key d metadata.expectedSize info
  policy : validateMetadataPolicy info metadata = .ok
  base : BaseMatches d info
  rebuilt : rebuilt d info = some image
  verified : Verified info image

/-! ## The state machine -/

/-- What processing a container leaves alone. -/
abbrev ContainerFrame : Device → Device → Prop :=
  PartFrame (fun a => ¬ MetadataStorage.Page a) fun p => p = .incoming ∨ p = .backup

theorem MetadataFrame.container {d d' : Device} (h : MetadataStorage.MetadataFrame d d') :
    ContainerFrame d d' :=
  ⟨h.internal, fun a _ => h.external a trivial⟩

/-- The states in which the container is still to be processed. -/
def unprocessed : List UpdateState :=
  [.artifactReady, .verifyingContainer, .verifyingBase, .patching]

/-- A record of an update whose container is still to be processed. -/
structure Unprocessed (m c : BootMetadata) : Prop where
  state : ∃ st ∈ unprocessed, c.state = st.code
  update : SameUpdate c m

theorem policy_congr {c m : BootMetadata} (h : SameUpdate c m) (info : Info) :
    validateMetadataPolicy info c = validateMetadataPolicy info m := by
  unfold validateMetadataPolicy
  rw [h.activeVersion, h.pendingVersion, h.activeUpdateId, h.receivedSize, h.expectedSize]

theorem rejected_congr {c m r : BootMetadata} (h : SameUpdate c m)
    {reason : SecureContainerStatus} (hr : r.Agrees (rejected c reason)) :
    r.Agrees (rejected m reason) :=
  ⟨hr.state, hr.activeVersion.trans h.activeVersion, hr.pendingVersion, hr.activeUpdateId,
    hr.receivedSize, hr.expectedSize, hr.copyOffset⟩

theorem imageReady_congr {c m r : BootMetadata} (h : SameUpdate c m) {info : Info}
    (hr : r.Agrees (imageReady info c)) : r.Agrees (imageReady info m) :=
  ⟨hr.state, hr.activeVersion.trans h.activeVersion, hr.pendingVersion.trans h.pendingVersion,
    hr.activeUpdateId.trans h.activeUpdateId, hr.receivedSize, hr.expectedSize, hr.copyOffset⟩

/-- Every rejection may be committed. -/
theorem rejected_acceptable (m : BootMetadata) (reason : SecureContainerStatus) :
    (rejected m reason).Acceptable :=
  ⟨rfl, UInt32.le_refl _, Nat.zero_le _, Nat.zero_le _, rfl⟩

/-- A valid record of a container still to be processed describes a complete artifact. -/
theorem Unprocessed.complete {m c : BootMetadata} (h : Unprocessed m c) (hv : c.Valid) :
    c.updatePayloadIsComplete = true := by
  obtain ⟨st, hst, hcode⟩ := h.state
  have hfields := hv.fields
  unfold BootMetadata.stateFieldsAreConsistent at hfields
  rw [hcode, UpdateState.ofCode_code] at hfields
  fin_cases hst <;> simp_all

theorem entering_acceptable {m c : BootMetadata} (h : Unprocessed m c) (hv : c.Valid)
    {st : UpdateState} (hst : st ∈ unprocessed) : (entering c st).Acceptable := by
  have hcomplete := h.complete hv
  refine ⟨?_, hv.received, hv.expected, Nat.zero_le _, ?_⟩
  · fin_cases hst <;> rfl
  · have hcomplete' : (entering c st).updatePayloadIsComplete = true := hcomplete
    have hcopy : (entering c st).copyOffset = 0 := rfl
    unfold BootMetadata.stateFieldsAreConsistent
    rw [show (entering c st).state = st.code from rfl, UpdateState.ofCode_code]
    fin_cases hst <;> simp only [hcomplete', hcopy, Bool.true_and, decide_true]

theorem imageReady_acceptable {m c : BootMetadata} (h : Unprocessed m c) (hv : c.Valid)
    {info : Info} (hw : WellFormed info.header info.extension) :
    (imageReady info c).Acceptable := by
  have hcomplete := h.complete hv
  have htarget := hw.targetSize_ge
  have hmax := hw.targetSize_le
  have hle : applicationMaxSize ≤ extIncomingSize := by decide
  refine ⟨rfl, UInt32.le_refl _, hmax.trans hle, Nat.zero_le _, ?_⟩
  unfold BootMetadata.updatePayloadIsComplete at hcomplete
  simp only [Bool.and_eq_true, decide_eq_true_eq] at hcomplete
  have hsize : info.header.targetImageSize ≠ 0 := by
    intro hzero
    rw [hzero] at htarget
    exact absurd htarget (by decide)
  unfold BootMetadata.stateFieldsAreConsistent imageReady
  dsimp only
  rw [UpdateState.ofCode_code]
  simp [BootMetadata.updatePayloadIsComplete, hcomplete.1.1, hsize]

theorem ContainerFrame.app {d d' : Device} (h : ContainerFrame d d') {n : Nat}
    (hn : n ≤ applicationMaxSize) : window d'.app 0 n = window d.app 0 n := by
  rw [window_eq_iff]
  intro i hi
  refine h.internal _ ?_
  unfold MetadataStorage.Page
  have hend : applicationStartAddress + applicationMaxSize ≤ bootMetadataAAddress := by decide
  omega

section Congruence

variable {key : TrustedKey} {d d' : Device} {info : Info} {size : UInt32}

/-- The parts of a device an image is made of are kept. -/
theorem sources_congr (hframe : ContainerFrame d d') (h : Authentic key d size info) :
    Authentic key d' size info ∧ rebuilt d' info = rebuilt d info ∧
      (BaseMatches d' info ↔ BaseMatches d info) := by
  obtain ⟨hoffset, -, hrange⟩ := parse_ranges h.parsed
  have hpayload : payload d' info = payload d info := hframe.slice (.inl rfl) (by omega)
  have happ : info.header.imageType = imageDelta →
      window d'.app 0 info.extension.baseImageSize.toNat =
        window d.app 0 info.extension.baseImageSize.toNat :=
    fun hdelta => hframe.app (h.wellFormed.delta hdelta).2.2.1
  refine ⟨(authentic_congr fun i hi => hframe.part (.inl rfl) hi).2 h, ?_, ?_⟩
  · rw [rebuilt, rebuilt, hpayload]
    split
    · next hdelta => rw [happ hdelta]
    · rfl
  · unfold BaseMatches
    constructor
    · intro hbase hdelta
      rw [← happ hdelta]
      exact hbase hdelta
    · intro hbase hdelta
      rw [happ hdelta]
      exact hbase hdelta

end Congruence

section Machine

variable {μ : Mode} [μ.Sound] {up : Bool} {s : Machine} {key : TrustedKey} {info : Info}
  {m metadata : BootMetadata}

/-- Clearing the checkpoint keeps the record and what processing keeps. -/
theorem checkpointFrame_container {d d' : Device}
    (h : DownloadCheckpointStorage.CheckpointFrame d d') :
    ContainerFrame d d' ∧ MetadataStorage.persisted d' = MetadataStorage.persisted d := by
  refine ⟨h.mono (fun _ _ => trivial) ?_,
    MetadataStorage.persisted_congr fun a _ => h.internal a trivial⟩
  rintro a ⟨p, rfl | rfl, hin⟩
  · exact ⟨_, by decide, hin⟩
  · exact ⟨_, by decide, hin⟩

/-- A rejection persists `IDLE`, whatever becomes of the download checkpoint. -/
theorem reject_holds (hs : Env μ up s) (hup : μ.Usable up) (reason : SecureContainerStatus) :
    Holds μ up (reject m reason s)
      (fun r d => ContainerFrame s.device d ∧ ∃ c, r = (.sourceRejected, some c) ∧
        c.Stores (rejected m reason) ∧ MetadataStorage.Persisted d c)
      (fun d => ContainerFrame s.device d ∧
        (MetadataStorage.persisted d = MetadataStorage.persisted s.device ∨
          ∃ c, MetadataStorage.Persisted d c ∧ c.Agrees (rejected m reason))) := by
  have hclear := fun d (h : DownloadCheckpointStorage.CheckpointFrame s.device d) =>
    checkpointFrame_container h
  refine Holds.bind ((DownloadCheckpointStorage.clear_holds hs hup).and_keeps
    DownloadCheckpointStorage.clear_frame) ?_
    (fun d hd => ⟨(hclear d hd.2).1, .inl (hclear d hd.2).2⟩)
  rintro r t ht ⟨-, hframe⟩
  obtain ⟨hframe, hpersisted⟩ := hclear _ hframe
  refine Holds.bind (MetadataStorage.commit_holds ht (rejected_acceptable m reason)) ?_ ?_
  · rintro r u hu ⟨c, rfl, hstores, hnew, hcommit, -⟩
    exact Holds.pure hu ⟨trans_of ContainerFrame hframe (MetadataFrame.container hcommit), c, rfl,
      hstores, hnew⟩
  · rintro d ⟨hcommit, -, hold⟩
    refine ⟨trans_of ContainerFrame hframe (MetadataFrame.container hcommit), ?_⟩
    rw [← hpersisted]
    exact hold.imp_right And.right

/-- The device while the container for `m` is processed, with the record `c` persisted. -/
structure Processing (m : BootMetadata) (d₀ : Device) (c : BootMetadata) (d : Device) : Prop where
  frame : ContainerFrame d₀ d
  persisted : MetadataStorage.Persisted d c
  unprocessed : Unprocessed m c

/-- How the processing ends: with a verified image, or with a rejection that has a cause. -/
def Finished (μ : Mode) (key : TrustedKey) (m : BootMetadata) (d₀ : Device) (r : Outcome)
    (d : Device) : Prop :=
  ContainerFrame d₀ d ∧
    ((∃ info image c, r = (.ok, some c) ∧ Candidate key m d₀ info image ∧
        reconstructed d info = image ∧ c.Stores (imageReady info m) ∧
        MetadataStorage.Persisted d c) ∨
      (∃ reason c, r = (.sourceRejected, some c) ∧ c.Stores (rejected m reason) ∧
        MetadataStorage.Persisted d c) ∧
        (μ.Faulty ∨ m.state = UpdateState.verifyingBase.code ∨
          ∀ info image, ¬ Candidate key m d₀ info image))

/-- What an interrupted processing leaves behind. -/
def Interrupted (key : TrustedKey) (m : BootMetadata) (d₀ d : Device) : Prop :=
  ContainerFrame d₀ d ∧ ∃ c, MetadataStorage.Persisted d c ∧
    (Unprocessed m c ∨
      (∃ info image, Candidate key m d₀ info image ∧ reconstructed d info = image ∧
        c.Agrees (imageReady info m)) ∨
      ∃ reason, c.Agrees (rejected m reason))

variable {d₀ : Device}

theorem Processing.interrupted {d : Device} (h : Processing m d₀ metadata d) :
    Interrupted key m d₀ d :=
  ⟨h.frame, metadata, h.persisted, .inl h.unprocessed⟩

/-- A device that differs outside the record and the kept partitions is as far. -/
theorem Processing.congr {d d' : Device} (h : Processing m d₀ metadata d)
    (hframe : PartFrame (fun _ => True) (fun p => p = .incoming ∨ p = .backup) d d') :
    Processing m d₀ metadata d' := by
  refine ⟨trans_of ContainerFrame h.frame (hframe.mono (fun _ _ => trivial) fun _ h => h), ?_,
    h.unprocessed⟩
  have hsame := MetadataStorage.persisted_congr fun a _ => hframe.internal a trivial
  exact hsame.trans h.persisted

theorem reject_finished (hs : Env μ up s) (hup : μ.Usable up) (h : Processing m d₀ metadata s.device)
    (reason : SecureContainerStatus)
    (hcause : μ.Faulty ∨ m.state = UpdateState.verifyingBase.code ∨
      ∀ info image, ¬ Candidate key m d₀ info image) :
    Holds μ up (reject metadata reason s) (Finished μ key m d₀) (Interrupted key m d₀) := by
  refine (reject_holds hs hup reason).mono ?_ ?_
  · rintro r d ⟨hframe, c, rfl, hstores, hpersisted⟩
    have hagrees := rejected_congr h.unprocessed.update hstores.toAgrees
    exact ⟨trans_of ContainerFrame h.frame hframe,
      .inr ⟨⟨reason, c, rfl, ⟨hagrees, hstores.bootAttempts, hstores.lastError⟩, hpersisted⟩,
        hcause⟩⟩
  · rintro d ⟨hframe, hold | ⟨c, hpersisted, hagrees⟩⟩
    · exact ⟨trans_of ContainerFrame h.frame hframe, metadata, hold.trans h.persisted,
        .inl h.unprocessed⟩
    · exact ⟨trans_of ContainerFrame h.frame hframe, c, hpersisted,
        .inr (.inr ⟨reason, rejected_congr h.unprocessed.update hagrees⟩)⟩

theorem transitionFrom_holds (hs : Env μ up s) (h : Processing m d₀ metadata s.device)
    (source : UpdateState) {target : UpdateState} (htarget : target ∈ unprocessed) :
    Holds μ up (transitionFrom metadata source target s)
      (fun r d => ∃ c, r = .ok c ∧ Processing m d₀ c d ∧
        (metadata.state = source.code → c.state = target.code) ∧
        (metadata.state ≠ source.code → c.state = metadata.state))
      (Interrupted key m d₀) := by
  unfold transitionFrom
  split
  swap
  · next hne => exact Holds.pure hs ⟨metadata, rfl, h, fun heq => absurd heq hne, fun _ => rfl⟩
  next hsource =>
  have hacceptable := entering_acceptable h.unprocessed h.persisted.valid htarget
  have hafter : ∀ c d, ContainerFrame s.device d → MetadataStorage.Persisted d c →
      c.Agrees (entering metadata target) → Processing m d₀ c d := by
    intro c d hframe hpersisted hagrees
    have hentered : SameUpdate (entering metadata target) metadata := ⟨rfl, rfl, rfl, rfl, rfl⟩
    exact ⟨trans_of ContainerFrame h.frame hframe, hpersisted, ⟨target, htarget, hagrees.state⟩,
      hagrees.sameUpdate.trans (hentered.trans h.unprocessed.update)⟩
  refine Holds.bind (MetadataStorage.commit_holds hs hacceptable) ?_ ?_
  · rintro r t ht ⟨c, rfl, hstores, hpersisted, hcommit, -⟩
    exact Holds.pure ht ⟨c, rfl, hafter c _ (MetadataFrame.container hcommit) hpersisted
      hstores.toAgrees, fun _ => hstores.state, fun hne => absurd hsource hne⟩
  · rintro d ⟨hcommit, -, hold | ⟨-, c, hpersisted, hagrees⟩⟩
    · exact ⟨trans_of ContainerFrame h.frame (MetadataFrame.container hcommit), metadata,
        hold.trans h.persisted, .inl h.unprocessed⟩
    · exact (hafter c d (MetadataFrame.container hcommit) hpersisted hagrees).interrupted

omit [μ.Sound] in
theorem validateBase_holds (hs : Env μ up s) :
    Holds μ up (validateBase info s)
      (fun r d => d = s.device ∧
        (r = .ok ∧ BaseMatches s.device info ∨ r ≠ .ok ∧ ¬ BaseMatches s.device info))
      (fun d => d = s.device) := by
  unfold validateBase
  split
  · next hfull => exact Holds.pure hs ⟨rfl, .inl ⟨rfl, fun hdelta => absurd hdelta hfull⟩⟩
  next hdelta =>
  refine Holds.read hs ⟨rfl, ?_⟩
  split
  · next hhash => exact .inl ⟨rfl, fun _ => hhash⟩
  · next hhash => exact .inr ⟨by decide, fun h => hhash (h (not_not.1 hdelta))⟩

/-- The transitions before the reconstruction. -/
theorem advance_holds (hs : Env μ up s) (hup : μ.Usable up) (h : Processing m d₀ m s.device)
    (hauthentic : Authentic key d₀ m.expectedSize info) :
    Holds μ up (advance info m s)
      (fun r d => (∃ c, r = .ok c ∧ Processing m d₀ c d ∧ BaseMatches d₀ info ∧
          (c.state ≠ UpdateState.patching.code → m.state = UpdateState.verifyingBase.code)) ∨
        ∃ outcome, r = .error outcome ∧ Finished μ key m d₀ outcome d)
      (Interrupted key m d₀) := by
  have hcontainer : UpdateState.verifyingContainer ∈ unprocessed := by decide
  have hbase : UpdateState.verifyingBase ∈ unprocessed := by decide
  have hpatching : UpdateState.patching ∈ unprocessed := by decide
  obtain ⟨st, hst, hcode⟩ := h.unprocessed.state
  refine Holds.bind (transitionFrom_holds hs h .artifactReady hcontainer) ?_ (fun _ hd => hd)
  rintro r t ht ⟨c₁, rfl, h₁, hmoved₁, hkept₁⟩
  dsimp only
  split
  · next hdelta =>
    refine Holds.bind (transitionFrom_holds ht h₁ .verifyingContainer hbase) ?_ (fun _ hd => hd)
    rintro r u hu ⟨c₂, rfl, h₂, hmoved₂, hkept₂⟩
    refine Holds.bind (validateBase_holds hu) ?_ (fun _ hd => hd ▸ h₂.interrupted)
    rintro status v hv ⟨hd, hstatus⟩
    rw [← hd] at h₂ hstatus
    obtain ⟨-, -, hmatches⟩ := sources_congr h₂.frame hauthentic
    rw [hmatches] at hstatus
    split
    · next hbad =>
      have hmismatch := (hstatus.resolve_left fun hok => hbad hok.1).2
      have hnone : ∀ info' image, ¬ Candidate key m d₀ info' image := by
        intro info' image hcandidate
        have hsame := hauthentic.unique hcandidate.authentic
        subst hsame
        exact hmismatch hcandidate.base
      refine Holds.bind (reject_finished hv hup h₂ status (.inr (.inr hnone))) ?_ (fun _ hd => hd)
      intro outcome w hw hfinished
      exact Holds.pure hw (.inr ⟨outcome, rfl, hfinished⟩)
    · next hgood =>
      have hmatch := (hstatus.resolve_right fun hbad => hbad.1 (not_not.1 hgood)).2
      refine (transitionFrom_holds hv h₂ .verifyingBase hpatching).mono ?_ (fun _ hd => hd)
      rintro r d ⟨c₃, rfl, h₃, hmoved₃, hkept₃⟩
      refine .inl ⟨c₃, rfl, h₃, hmatch, fun hne => ?_⟩
      -- a delta container reaches `PATCHING` from each of the four states
      exfalso
      apply hne
      fin_cases hst <;> simp_all
  · next hfull =>
    refine (transitionFrom_holds ht h₁ .verifyingContainer hpatching).mono ?_ (fun _ hd => hd)
    rintro r d ⟨c₂, rfl, h₂, hmoved₂, hkept₂⟩
    refine .inl ⟨c₂, rfl, h₂, fun hdelta => absurd hdelta hfull, fun hne => ?_⟩
    by_contra hother
    apply hne
    fin_cases hst <;> simp_all

theorem reconstruct_holds (hs : Env μ up s) (hup : μ.Usable up)
    (h : Processing m d₀ metadata s.device) (hauthentic : Authentic key d₀ m.expectedSize info)
    (hpolicy : validateMetadataPolicy info m = .ok) (hbase : BaseMatches d₀ info) :
    Holds μ up (reconstruct info metadata s) (Finished μ key m d₀) (Interrupted key m d₀) := by
  have hw := hauthentic.wellFormed
  have hge := hw.targetSize_ge
  have hle := hw.targetSize_le
  refine Holds.bind ((eraseReconstructed_holds hs hup (by omega) hle).and_keeps
    (eraseReconstructed_keeps allows_rebuild _)) ?_ (fun d hd => (h.congr hd.2).interrupted)
  rintro erased t ht ⟨herased, hframe⟩
  have h₁ := h.congr hframe
  split
  · next hbad =>
    exact reject_finished ht hup h₁ _ (.inl (herased.resolve_left fun hok => hbad hok.1).2)
  next hgood =>
  have hff := (herased.resolve_right fun hbad => by rw [hbad.1] at hgood; exact hgood (by decide)).2
  obtain ⟨hauthentic₁, hrebuilt₁, -⟩ := sources_congr h₁.frame hauthentic
  refine Holds.bind (rebuild_holds ht hup hauthentic₁ hff) ?_ (fun d hd => (h₁.congr hd).interrupted)
  rintro built u hu ⟨hframe₂, hbuilt⟩
  have h₂ := h₁.congr hframe₂
  rw [hrebuilt₁] at hbuilt
  -- a candidate for the record is made of the container that was authenticated
  have hcandidate : ∀ info' image, Candidate key m d₀ info' image →
      info' = info ∧ rebuilt d₀ info = some image := by
    intro info' image hc
    have hsame := hauthentic.unique hc.authentic
    subst hsame
    exact ⟨rfl, hc.rebuilt⟩
  split
  · next hbad =>
    refine reject_finished hu hup h₂ _ ((hbuilt.resolve_left fun hok => hbad hok.1).2.imp_right
      fun hnone => .inr fun info' image hc => ?_)
    have hsome := (hcandidate info' image hc).2
    rw [hnone] at hsome
    cases hsome
  next hgood =>
  have himage := (hbuilt.resolve_right fun hbad => hbad.1 (not_not.1 hgood)).2
  refine Holds.bind (verifyReconstructed_holds hu hup hge hle) ?_ (fun d hd => hd ▸ h₂.interrupted)
  rintro verified v hv ⟨hd, hverified⟩
  split
  · next hbad =>
    refine reject_finished hv hup (hd ▸ h₂) _ ((hverified.resolve_left fun hok => hbad hok.1).2.imp_right
      fun hnot => .inr fun info' image hc => hnot ?_)
    obtain ⟨rfl, hsome⟩ := hcandidate info' image hc
    rw [himage] at hsome
    cases hsome
    exact hc.verified
  next hgood =>
  have hverified := (hverified.resolve_right fun hbad => hbad.1 (not_not.1 hgood)).2
  have hready : Candidate key m d₀ info (reconstructed u.device info) :=
    ⟨hauthentic, hpolicy, hbase, himage, hverified⟩
  have hacceptable := imageReady_acceptable h₂.unprocessed h₂.persisted.valid hw
  have hafter : ∀ d, MetadataStorage.MetadataFrame v.device d → ContainerFrame d₀ d ∧
      reconstructed d info = reconstructed u.device info := by
    intro d hcommit
    rw [hd] at hcommit
    refine ⟨trans_of ContainerFrame h₂.frame (MetadataFrame.container hcommit), ?_⟩
    unfold reconstructed Device.slice
    rw [window_eq_iff]
    exact fun i _ => hcommit.external _ trivial
  refine Holds.bind (MetadataStorage.commit_holds hv hacceptable) ?_ ?_
  · rintro r w hw' ⟨c, rfl, hstores, hpersisted, hcommit, -⟩
    obtain ⟨hframe₃, hkept⟩ := hafter _ hcommit
    refine Holds.pure hw' ⟨hframe₃, .inl ⟨info, _, c, rfl, hready, hkept, ?_, hpersisted⟩⟩
    exact ⟨imageReady_congr h₂.unprocessed.update hstores.toAgrees, hstores.bootAttempts,
      hstores.lastError⟩
  · rintro d ⟨hcommit, -, hold | ⟨-, c, hpersisted, hagrees⟩⟩
    · rw [hd] at hold
      exact ⟨(hafter d hcommit).1, metadata, hold.trans h₂.persisted, .inl h₂.unprocessed⟩
    · exact ⟨(hafter d hcommit).1, c, hpersisted, .inr (.inl ⟨info, _, hready, (hafter d hcommit).2,
        imageReady_congr h₂.unprocessed.update hagrees⟩)⟩

theorem processVerified_holds (hs : Env μ up s) (hup : μ.Usable up)
    (h : Processing m d₀ m s.device) (hauthentic : Authentic key d₀ m.expectedSize info) :
    Holds μ up (processVerified info m s) (Finished μ key m d₀) (Interrupted key m d₀) := by
  unfold processVerified
  split
  · next hbad =>
    refine reject_finished hs hup h _ (.inr (.inr fun info' image hc => hbad ?_))
    have hsame := hauthentic.unique hc.authentic
    subst hsame
    exact hc.policy
  next hpolicy =>
  refine Holds.bind (advance_holds hs hup h hauthentic) ?_ (fun _ hd => hd)
  rintro r t ht (⟨c, rfl, hc, hbase, hstate⟩ | ⟨outcome, rfl, hfinished⟩)
  · dsimp only
    split
    · next hne => exact reject_finished ht hup hc _ (.inr (.inl (hstate hne)))
    · exact reconstruct_holds ht hup hc hauthentic (not_not.1 hpolicy) hbase
  · exact Holds.pure ht hfinished

theorem processArtifact_holds (key : TrustedKey) (hs : Env μ up s) (h : Processing m s.device m s.device) :
    Holds μ μ.ready (processArtifact key m s) (Finished μ key m s.device)
      (Interrupted key m s.device) := by
  refine Holds.bind (isIncoming_holds hs) ?_ (by rintro d rfl; exact h.interrupted)
  intro present t ht hpresent
  have hd : t.device = s.device := by
    rcases hpresent with ⟨h, -⟩ | ⟨h, -⟩ <;> exact h
  rw [← hd] at h hpresent ⊢
  split
  · next habsent =>
    refine reject_finished ht μ.usable_ready h _ ?_
    rcases hpresent with ⟨-, hmagic⟩ | ⟨-, -, hfaulty⟩
    · refine .inr (.inr fun info image hc => ?_)
      rw [hmagic.2 hc.authentic.magic] at habsent
      cases habsent
    · exact .inl hfaulty
  refine Holds.bind (loadVerifiedInfo_holds ht key m.expectedSize) ?_
    (by rintro d rfl; exact h.interrupted)
  rintro r u hu ⟨hd', ⟨info, rfl, hauthentic⟩ | ⟨⟨status, rfl, -⟩, hbad⟩⟩
  · exact processVerified_holds hu μ.usable_ready (hd' ▸ h) hauthentic
  · exact reject_finished hu μ.usable_ready (hd' ▸ h) _
      (hbad.imp_right fun hnot => .inr fun info image hc => hnot info hc.authentic)

/-- What `SecureContainer_Process` does with a record that is still to be processed. -/
theorem process_holds (key : TrustedKey) (hs : Env μ up s) (hm : MetadataStorage.Persisted s.device m)
    (hstate : ∃ st ∈ unprocessed, m.state = st.code) :
    Holds μ μ.ready (process key m s)
      (fun r d => Finished μ key m s.device r d ∨
        μ.Faulty ∧ r = (.flashInitFailed, none) ∧ d = s.device)
      (Interrupted key m s.device) := by
  have hstart : Processing m s.device m s.device :=
    ⟨refl_of ContainerFrame _, hm, hstate, SameUpdate.refl m⟩
  refine init_bind_holds hs hstart.interrupted ?_
  intro ok t hok ht hd
  split
  · next hfail =>
    refine Holds.pure ht (.inr ⟨hok.resolve_left ?_, rfl, hd⟩)
    rintro rfl
    cases hfail
  · rw [← hd] at hstart ⊢
    exact (processArtifact_holds key ht hstart).mono (fun _ _ => Or.inl) (fun _ h => h)

end Machine

/-! ## Rejected updates -/

/-- External flash operations may fail, nothing else does. -/
def faultMode (atomicCommit : Bool) : Mode where
  cuts := false
  tornPrograms := false
  externalFaults := true
  atomicCommit := atomicCommit
  writer := .bootloader

instance (atomicCommit : Bool) : (faultMode atomicCommit).Sound := ⟨rfl⟩

/-- An operation that works, or an operation of the external flash that does not. -/
def IsExternalFault : SecureDeltaOta.Outcome → Prop
  | .ok => True
  | .externalFault _ _ => True
  | _ => False

/-- Every reason of a rejection is recorded in the range of the secure container. -/
theorem errorBase_range (reason : SecureContainerStatus) :
    0x00140000 ≤ errorBase ||| reason.code ∧ errorBase ||| reason.code ≤ 0x0014FFFF := by
  cases reason <;> decide

/--
Whatever the artifact and however the external flash fails after its first
initialisation, processing ends, leaves the installed application, the backup
and the artifact alone, and persists either a verified image of a container that
passed every check, or `IDLE` with the active version kept and no update left.
-/
theorem process_ready_or_rejected (key : TrustedKey) (d : Device) (spi : SpiState)
    (atomicCommit : Bool) (m : BootMetadata) (faults : List SecureDeltaOta.Outcome)
    (hm : MetadataStorage.Persisted d m) (hstate : ∃ st ∈ unprocessed, m.state = st.code)
    (hfaults : ∀ o ∈ faults, IsExternalFault o) :
    ∃ r t c, process key m ⟨d, spi, .ok :: faults, atomicCommit, .bootloader⟩ = .done r t ∧
      MetadataStorage.Persisted t.device c ∧
      (∀ i < applicationMaxSize, t.device.app i = d.app i) ∧
      (∀ p, p = .incoming ∨ p = .backup → ∀ i < p.size, t.device.part p i = d.part p i) ∧
      ((∃ info image, r = (.ok, some c) ∧ c.Stores (imageReady info m) ∧
          Candidate key m d info image ∧ reconstructed t.device info = image) ∨
        r = (.sourceRejected, some c) ∧ c.state = UpdateState.idle.code ∧
          c.activeVersion = m.activeVersion ∧ c.pendingVersion = 0 ∧ c.activeUpdateId = 0 ∧
          c.receivedSize = 0 ∧ c.expectedSize = 0 ∧ c.copyOffset = 0 ∧ c.bootAttempts = 0 ∧
          0x00140000 ≤ c.lastError ∧ c.lastError ≤ 0x0014FFFF) := by
  let s : Machine := ⟨d, ⟨true, .ok⟩, faults, atomicCommit, .bootloader⟩
  have henv : Env (faultMode atomicCommit) false s := by
    refine ⟨fun o ho => ?_, by simp, rfl, rfl⟩
    have hfault := hfaults o ho
    cases o with
    | ok => exact trivial
    | externalFault status junk => exact rfl
    | internalFault junk => exact hfault.elim
    | cut written => exact hfault.elim
  have hstart : Processing m d m s.device :=
    ⟨refl_of ContainerFrame _, hm, hstate, SameUpdate.refl m⟩
  -- the first operation is the initialisation, which succeeds
  have hinit : process key m ⟨d, spi, .ok :: faults, atomicCommit, .bootloader⟩ =
      processArtifact key m s := rfl
  obtain ⟨r, t, hdone, -, hframe, hresult⟩ :=
    (processArtifact_holds key henv hstart).exists_done rfl
  have happ : ∀ i < applicationMaxSize, t.device.app i = d.app i := by
    intro i hi
    have hwindow := hframe.app (le_refl applicationMaxSize)
    rw [window_eq_iff] at hwindow
    simpa using hwindow i hi
  have hparts : ∀ p, p = .incoming ∨ p = .backup → ∀ i < p.size, t.device.part p i = d.part p i :=
    fun p hp i hi => hframe.part hp hi
  rcases hresult with ⟨info, image, c, rfl, hcandidate, himage, hstores, hpersisted⟩ |
    ⟨⟨reason, c, rfl, hstores, hpersisted⟩, -⟩
  · exact ⟨_, t, c, hinit.trans hdone, hpersisted, happ, hparts,
      .inl ⟨info, image, rfl, hstores, hcandidate, himage⟩⟩
  · have hrange := errorBase_range reason
    refine ⟨_, t, c, hinit.trans hdone, hpersisted, happ, hparts, .inr ⟨rfl, hstores.state,
      hstores.activeVersion, hstores.pendingVersion, hstores.activeUpdateId, hstores.receivedSize,
      hstores.expectedSize, hstores.copyOffset, hstores.bootAttempts, ?_⟩⟩
    rw [hstores.lastError]
    exact hrange

/-- The record of a complete artifact of the smallest size. -/
def receivedRecord : BootMetadata :=
  BootMetadata.finalize
    { BootMetadata.init 1 with
      generation := 1
      state := UpdateState.artifactReady.code
      pendingVersion := 2
      activeUpdateId := 7
      receivedSize := 212
      expectedSize := 212 }

theorem receivedRecord_valid : receivedRecord.Valid :=
  (BootMetadata.finalize_valid (by decide)).2
    ⟨by decide, by decide, by decide, by decide, by decide⟩

/-- An erased artifact partition whose reads time out. -/
theorem process_ready_or_rejected_erased :
    ∃ r t c, process ⟨true, 1, []⟩ receivedRecord
        ⟨MetadataStorage.holding receivedRecord (fun _ => 0) fun _ => 0xFF, ⟨false, .notInitialized⟩,
          [.ok, .ok, .externalFault .transferTimeout fun _ => 0], false, .bootloader⟩ = .done r t ∧
      MetadataStorage.Persisted t.device c ∧
      (∀ i < applicationMaxSize, t.device.app i = 0) := by
  obtain ⟨r, t, c, hdone, hpersisted, happ, -, -⟩ :=
    process_ready_or_rejected ⟨true, 1, []⟩
      (MetadataStorage.holding receivedRecord (fun _ => 0) fun _ => 0xFF) ⟨false, .notInitialized⟩
      false receivedRecord [.ok, .externalFault .transferTimeout fun _ => 0]
      (MetadataStorage.persisted_holding receivedRecord_valid _ _)
      ⟨.artifactReady, by decide, rfl⟩ (by simp [IsExternalFault])
  refine ⟨r, t, c, hdone, hpersisted, fun i hi => (happ i hi).trans ?_⟩
  have hend : applicationStartAddress + applicationMaxSize ≤ bootMetadataAAddress := by decide
  simp only [Device.app, MetadataStorage.holding]
  rw [if_pos (by omega)]

end SecureContainer

end SecureDeltaOta
