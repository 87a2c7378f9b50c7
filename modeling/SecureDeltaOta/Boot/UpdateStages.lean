import SecureDeltaOta.Boot.BootRun

/-!
# The stages of an update

What holds of the node in each persisted state, up to what is known about where
the images come from. Every transition of the bootloader leads from a stage to a
later one, and every power cut on the way leaves a stage.
-/

namespace SecureDeltaOta

open Memory Crash MetadataStorage

namespace BootManager

open ImageInstaller (Installation Installable BackupHolds Copied RollingBack Restored RecordsFrame)
open SecureContainer (ContainerFrame Candidate reconstructed imageReady unprocessed)

/-- The installation that an installable image allows. -/
def installationOf {key : TrustedKey} {c : BootMetadata} {d : Device}
    {info : FirmwareContainer.Info} (h : Installable key c d info) : Installation where
  key := key
  info := info
  base := d.app
  target := d.part .reconstructed
  record := c
  wellFormed := h.authentic.wellFormed
  pendingVersion := h.matching.pendingVersion
  activeUpdateId := h.matching.activeUpdateId
  receivedSize := h.matching.receivedSize
  expectedSize := h.matching.expectedSize
  baseVersion := h.matching.baseVersion
  vectors := h.vectors
  crc := by
    rw [← h.crc, Device.slice_eq_window]

/--
What is known about the images of a node. An application is active under a
version; a verified image may be installed over it; the image on trial may
become the active one.
-/
structure Provenance (key : TrustedKey) where
  Active : (Nat → UInt8) → UInt32 → Prop
  Verified : BootMetadata → Device → Prop
  Accepted : Installation → Prop
  Trial : BootMetadata → (Nat → UInt8) → Prop
  /-- Whether the application may confirm a trial. -/
  Confirmable : Prop
  active_congr : ∀ {image image' version}, (∀ i < applicationMaxSize, image' i = image i) →
    Active image version → Active image' version
  verified_candidate : ∀ {m c d d' info image}, Active d.app m.activeVersion →
    Candidate key m d info image → ContainerFrame d d' → reconstructed d' info = image →
    c.Agrees (imageReady info m) → Verified c d'
  verified_records : ∀ {c d d'}, RecordsFrame d d' → Verified c d → Verified c d'
  accept : ∀ {c d info} (h : Installable key c d info), Active d.app c.activeVersion →
    Verified c d → Accepted (installationOf h)
  base : ∀ {I}, Accepted I → Active I.base I.record.activeVersion
  installed : ∀ {I c app}, Accepted I → BootMetadata.SameUpdate c I.record →
    Copied I.target I.size I.size app → Trial c app
  trial_congr : ∀ {c c' app app'}, BootMetadata.SameUpdate c' c →
    (∀ i < applicationMaxSize, app' i = app i) → Trial c app → Trial c' app'
  confirm : ∀ {c app}, Confirmable → Trial c app → Active app c.pendingVersion

variable {key : TrustedKey} {μ : Mode} [μ.Sound] {P : Provenance key}

/-- The image a rollback restores. -/
structure Fallback (P : Provenance key) (record : BackupImageRecord) (base : Nat → UInt8)
    (c : BootMetadata) (d : Device) : Prop where
  backup : BackupHolds record base d
  vectors : VectorsValid applicationMaxSize base
  active : P.Active base c.activeVersion
  version : record.activeVersion = c.activeVersion

/-- The stages between two closed updates. -/
inductive Stage (μ : Mode) (P : Provenance key) (c : BootMetadata) (d : Device) : Prop
  | idle (hstate : c.state = UpdateState.idle.code) (hpersisted : Persisted d c)
      (hactive : P.Active d.app c.activeVersion)
  | received (hstate : ∃ st ∈ unprocessed, c.state = st.code) (hpersisted : Persisted d c)
      (hactive : P.Active d.app c.activeVersion)
      (hvectors : VectorsValid applicationMaxSize d.app)
  | verified (hstate : c.state = UpdateState.imageReady.code) (hpersisted : Persisted d c)
      (hactive : P.Active d.app c.activeVersion)
      (hvectors : VectorsValid applicationMaxSize d.app) (hverified : P.Verified c d)
  | installing (I : Installation) (hkey : I.key = key) (haccepted : P.Accepted I)
      (hvectors : VectorsValid applicationMaxSize I.base) (hopen : I.Open c d)
  | trial (record : BackupImageRecord) (base : Nat → UInt8)
      (hstate : c.state = UpdateState.trialBoot.code) (hpersisted : Persisted d c)
      (hfallback : Fallback P record base c d) (htrial : P.Trial c d.app)
  | rollingBack (record : BackupImageRecord) (base : Nat → UInt8)
      (hfallback : Fallback P record base c d)
      (hrolling : RollingBack μ c c.lastError record base c d)
  | confirmed (hstate : c.state = UpdateState.confirmed.code) (hpersisted : Persisted d c)
      (hconfirmable : P.Confirmable) (htrial : P.Trial c d.app)

omit [μ.Sound] in
theorem Stage.persisted {c : BootMetadata} {d : Device} (h : Stage μ P c d) : Persisted d c := by
  cases h with
  | idle _ hpersisted => exact hpersisted
  | received _ hpersisted => exact hpersisted
  | verified _ hpersisted => exact hpersisted
  | installing I _ _ _ hopen => exact hopen.persisted
  | trial _ _ _ hpersisted => exact hpersisted
  | rollingBack _ _ _ hrolling => exact hrolling.persisted
  | confirmed _ hpersisted => exact hpersisted

/-- How a record of a boot relates to the record the boot began with. -/
def Follows (c c' : BootMetadata) : Prop :=
  (c'.activeVersion = c.activeVersion ∧ (c.state = UpdateState.idle.code → c'.state = c.state) ∧
      (c'.state = UpdateState.confirmed.code → c' = c)) ∨
    c.state = UpdateState.confirmed.code ∧ c'.state = UpdateState.idle.code ∧
      c'.activeVersion = c.pendingVersion

theorem Follows.refl (c : BootMetadata) : Follows c c :=
  .inl ⟨rfl, fun _ => rfl, fun _ => rfl⟩

theorem Follows.trans {c c' c'' : BootMetadata} (h : Follows c c') (h' : Follows c' c'') :
    Follows c c'' := by
  rcases h with ⟨hversion, hidle, hconfirmed⟩ | ⟨hstate, hidle, hversion⟩
  · rcases h' with ⟨hversion', hidle', hconfirmed'⟩ | ⟨hstate', hidle', hversion'⟩
    · refine .inl ⟨hversion'.trans hversion, fun h => ?_, fun h => ?_⟩
      · have hsame := hidle h
        rw [hidle' (hsame.trans h), hsame]
      · have hsame := hconfirmed' h
        rw [hsame]
        exact hconfirmed (hsame ▸ h)
    · have hsame := hconfirmed hstate'
      rw [hsame] at hstate' hversion'
      exact .inr ⟨hstate', hidle', hversion'⟩
  · rcases h' with ⟨hversion', hidle', -⟩ | ⟨hstate', -, -⟩
    · exact .inr ⟨hstate, (hidle' hidle).trans hidle, hversion'.trans hversion⟩
    · rw [hidle] at hstate'
      exact absurd hstate' (by decide)

/-! ## One transition -/

/-- The transitions left after a state. -/
def stateRank : UpdateState → Nat
  | .idle => 0
  | .trialBoot | .rollback | .confirmed => 1
  | .imageReady | .backingUp | .installing | .verifyingInstall => 2
  | _ => 3

def rank (c : BootMetadata) : Nat :=
  (UpdateState.ofCode c.state).elim 0 stateRank

theorem rank_eq {c : BootMetadata} {st : UpdateState} (h : c.state = st.code) :
    rank c = stateRank st := by
  rw [rank, h, UpdateState.ofCode_code]
  rfl

theorem rank_le (c : BootMetadata) : rank c ≤ 3 := by
  unfold rank
  cases UpdateState.ofCode c.state with
  | none => exact Nat.zero_le _
  | some st => cases st <;> decide

/-- What a power cut leaves of a boot that began with the record `c`. -/
def Leaves (μ : Mode) (P : Provenance key) (c : BootMetadata) (d : Device) : Prop :=
  ∃ c', Stage μ P c' d ∧ Follows c c'

/-- What a boot ends with. -/
def Ended (μ : Mode) (P : Provenance key) (c : BootMetadata) (ending : Ending) (d : Device) :
    Prop :=
  ∃ c', Stage μ P c' d ∧ Follows c c' ∧ ∀ vector, ending = .jump vector →
    VectorsValid applicationMaxSize d.app ∧
      (c'.state = UpdateState.idle.code ∨ c'.state = UpdateState.trialBoot.code)

/-- Where a transition from the record `c` leads. -/
abbrev Advances (μ : Mode) (P : Provenance key) (c : BootMetadata) :
    Except Ending BootMetadata → Device → Prop :=
  Exits (fun c' d => Stage μ P c' d ∧ Follows c c' ∧ rank c' < rank c) (Ended μ P c)

/-- A record of the same version in a state that is neither `IDLE` before nor confirmed now. -/
theorem Follows.of_state {c c' : BootMetadata} {st st' : UpdateState} (hstate : c.state = st.code)
    (hstate' : c'.state = st'.code) (hidle : st ≠ .idle) (hconfirmed : st' ≠ .confirmed)
    (hversion : c'.activeVersion = c.activeVersion) : Follows c c' := by
  refine .inl ⟨hversion, fun h => ?_, fun h => ?_⟩
  · exact absurd (UpdateState.code_inj.1 (hstate.symm.trans h)) hidle
  · exact absurd (UpdateState.code_inj.1 (hstate'.symm.trans h)) hconfirmed

section Frames

variable {d d' : Device} {c : BootMetadata}

theorem active_metadata (hframe : Frame (fun a => ¬ Page a) external d d')
    {version : UInt32} (h : P.Active d.app version) : P.Active d'.app version :=
  P.active_congr (fun _ hi => ImageInstaller.MetadataFrame.app hframe hi) h

theorem vectors_metadata (hframe : Frame (fun a => ¬ Page a) external d d')
    (h : VectorsValid applicationMaxSize d.app) : VectorsValid applicationMaxSize d'.app :=
  (vectorsValid_congr fun _ hi =>
    ImageInstaller.MetadataFrame.app hframe (hi.trans (by decide))).2 h

theorem Fallback.commit {record : BackupImageRecord} {base : Nat → UInt8} {c' : BootMetadata}
    (h : Fallback P record base c d) (hframe : MetadataFrame d d')
    (hversion : c'.activeVersion = c.activeVersion) : Fallback P record base c' d' :=
  ⟨h.backup.commit hframe, h.vectors, hversion ▸ h.active, h.version.trans hversion.symm⟩

omit [μ.Sound] in
/-- A stage lasts as long as no record is committed. -/
theorem Stage.kept (h : Stage μ P c d) (hframe : MetadataFrame d d')
    (hold : MetadataStorage.persisted d' = MetadataStorage.persisted d) : Stage μ P c d' := by
  have happ : ∀ i < applicationMaxSize, d'.app i = d.app i :=
    fun i hi => ImageInstaller.MetadataFrame.app hframe hi
  cases h with
  | idle hstate hpersisted hactive =>
      exact .idle hstate (hold.trans hpersisted) (P.active_congr happ hactive)
  | received hstate hpersisted hactive hvectors =>
      exact .received hstate (hold.trans hpersisted) (P.active_congr happ hactive)
        (vectors_metadata hframe hvectors)
  | verified hstate hpersisted hactive hvectors hverified =>
      exact .verified hstate (hold.trans hpersisted) (P.active_congr happ hactive)
        (vectors_metadata hframe hvectors)
        (P.verified_records (hframe.mono (fun _ ha => ha) fun _ _ => trivial) hverified)
  | installing I hkey haccepted hvectors hopen =>
      exact .installing I hkey haccepted hvectors (hopen.kept hframe hold)
  | trial record base hstate hpersisted hfallback htrial =>
      exact .trial record base hstate (hold.trans hpersisted) (hfallback.commit hframe rfl)
        (P.trial_congr (.refl c) happ htrial)
  | rollingBack record base hfallback hrolling =>
      exact .rollingBack record base (hfallback.commit hframe rfl)
        ⟨hrolling.record, hold.trans hrolling.persisted, hrolling.context.commit hframe,
          hrolling.progress, hrolling.copied.congr happ hrolling.progress⟩
  | confirmed hstate hpersisted hconfirmable htrial =>
      exact .confirmed hstate (hold.trans hpersisted) hconfirmable
        (P.trial_congr (.refl c) happ htrial)

omit [μ.Sound] in
/-- Events are not part of the node. -/
theorem Stage.record (h : Stage μ P c d) (e : Event) : Stage μ P c (d.record e) :=
  h.kept ⟨fun _ _ => rfl, fun _ _ => rfl⟩ (persisted_record d e)

end Frames

section Transitions

variable {s : Machine} {c : BootMetadata}

omit [μ.Sound] in
theorem idle_stage (hs : Env μ false s) (hstate : c.state = UpdateState.idle.code)
    (hpersisted : Persisted s.device c) (hactive : P.Active s.device.app c.activeVersion) :
    Holds μ false (transition key c s) (Advances μ P c) (Leaves μ P c) := by
  refine (idle_holds key hs hpersisted hstate).mono ?_ ?_
  · rintro r d ⟨hframe, hc, ending, rfl, hjump⟩
    refine ⟨c, .idle hstate hc (active_metadata hframe hactive), Follows.refl c, ?_⟩
    rintro vector rfl
    exact ⟨vectors_metadata hframe (hjump.1 ⟨vector, rfl⟩), .inl hstate⟩
  · rintro d rfl
    exact ⟨c, .idle hstate hpersisted hactive, Follows.refl c⟩

theorem received_stage (hs : Env μ false s) (hfault : ¬ μ.Faulty)
    (hstate : ∃ st ∈ unprocessed, c.state = st.code) (hpersisted : Persisted s.device c)
    (hactive : P.Active s.device.app c.activeVersion)
    (hvectors : VectorsValid applicationMaxSize s.device.app) :
    Holds μ false (transition key c s) (Advances μ P c) (Leaves μ P c) := by
  obtain ⟨st, hst, hcode⟩ := hstate
  have hnotIdle : st ≠ .idle := by
    rintro rfl
    exact absurd hst (by decide)
  have hrank : rank c = 3 := by
    rw [rank_eq hcode]
    fin_cases hst <;> rfl
  have hverified : ∀ c' d info image, ContainerFrame s.device d →
      Candidate key c s.device info image → reconstructed d info = image →
      c'.Agrees (imageReady info c) → Persisted d c' →
      Stage μ P c' d ∧ Follows c c' ∧ rank c' < rank c := by
    intro c' d info image hframe hcandidate himage hagrees hc'
    have hversion : c'.activeVersion = c.activeVersion := hagrees.activeVersion
    have hstate' : c'.state = UpdateState.imageReady.code := hagrees.state
    refine ⟨.verified hstate' hc' (active_metadata hframe (hversion ▸ hactive))
      (vectors_metadata hframe hvectors)
      (P.verified_candidate hactive hcandidate hframe himage hagrees),
      .of_state hcode hstate' hnotIdle (by decide) hversion, ?_⟩
    rw [hrank, rank_eq hstate']
    decide
  have hrejected : ∀ c' d reason, ContainerFrame s.device d →
      c'.Agrees (SecureContainer.rejected c reason) → Persisted d c' →
      Stage μ P c' d ∧ Follows c c' ∧ rank c' < rank c := by
    intro c' d reason hframe hagrees hc'
    have hversion : c'.activeVersion = c.activeVersion := hagrees.activeVersion
    have hstate' : c'.state = UpdateState.idle.code := hagrees.state
    refine ⟨.idle hstate' hc' (active_metadata hframe (hversion ▸ hactive)),
      .of_state hcode hstate' hnotIdle (by decide) hversion, ?_⟩
    rw [hrank, rank_eq hstate']
    decide
  refine (artifact_holds key hs hfault hpersisted ⟨st, hst, hcode⟩).mono ?_ ?_
  · rintro r d ⟨hframe, c', rfl, hc', ⟨info, image, hcandidate, himage, hstores⟩ |
      ⟨reason, hstores⟩⟩
    · exact hverified c' d info image hframe hcandidate himage hstores.toAgrees hc'
    · exact hrejected c' d reason hframe hstores.toAgrees hc'
  · rintro d ⟨hframe, c', hc', hunprocessed | ⟨info, image, hcandidate, himage, hagrees⟩ |
      ⟨reason, hagrees⟩⟩
    · obtain ⟨st', hst', hcode'⟩ := hunprocessed.state
      have hversion := hunprocessed.update.activeVersion
      refine ⟨c', .received ⟨st', hst', hcode'⟩ hc' (active_metadata hframe (hversion ▸ hactive))
        (vectors_metadata hframe hvectors), .of_state hcode hcode' hnotIdle ?_ hversion⟩
      rintro rfl
      exact absurd hst' (by decide)
    · obtain ⟨hstage, hfollows, -⟩ := hverified c' d info image hframe hcandidate himage hagrees hc'
      exact ⟨c', hstage, hfollows⟩
    · obtain ⟨hstage, hfollows, -⟩ := hrejected c' d reason hframe hagrees hc'
      exact ⟨c', hstage, hfollows⟩

/-- The stage an open installation or its end is in. -/
theorem installing_stage (hs : Env μ false s) (hfault : ¬ μ.Faulty) {I : Installation}
    (hkey : I.key = key) (haccepted : P.Accepted I)
    (hvectors : VectorsValid applicationMaxSize I.base) (hopen : I.Open c s.device) :
    Holds μ false (transition key c s) (Advances μ P c) (Leaves μ P c) := by
  obtain ⟨st, hst, hrecord⟩ := hopen.record
  have hnotIdle : st ≠ .idle := by
    rintro rfl
    exact absurd hst (by decide)
  have hrank : rank c = 2 := by
    rw [rank_eq hrecord.state]
    fin_cases hst <;> rfl
  have hversion : ∀ c', BootMetadata.SameUpdate c' I.record → c'.activeVersion = c.activeVersion :=
    fun c' h => h.activeVersion.trans hrecord.update.activeVersion.symm
  have htrial : ∀ c' d, I.Trial c' d → Stage μ P c' d ∧ Follows c c' ∧ rank c' < rank c := by
    intro c' d h
    have hactive := P.base haccepted
    rw [← h.record.update.activeVersion] at hactive
    refine ⟨.trial I.backup I.base h.record.state h.persisted
        ⟨h.backup, hvectors, hactive, h.record.update.activeVersion.symm⟩
        (P.installed haccepted h.record.update h.installed.copied),
      .of_state hrecord.state h.record.state hnotIdle (by decide) (hversion c' h.record.update), ?_⟩
    rw [hrank, rank_eq h.record.state]
    decide
  have habandoned : ∀ c' d, I.Abandoned c' d →
      Stage μ P c' d ∧ Follows c c' ∧ rank c' < rank c := by
    intro c' d h
    have hsame : c'.activeVersion = I.record.activeVersion :=
      h.activeVersion.trans h.unversioned.symm
    refine ⟨.idle h.state h.persisted (P.active_congr h.intact (hsame ▸ P.base haccepted)),
      .of_state hrecord.state h.state hnotIdle (by decide)
        (hsame.trans hrecord.update.activeVersion.symm), ?_⟩
    rw [hrank, rank_eq h.state]
    decide
  subst hkey
  refine (install_holds hs hfault hopen).mono ?_ ?_
  · rintro r d ⟨c', rfl, ⟨h, -⟩ | h⟩
    · exact htrial c' d h
    · exact habandoned c' d h
  · rintro d ⟨c', h | h | h⟩
    · obtain ⟨st', hst', hrecord'⟩ := h.record
      refine ⟨c', .installing I rfl haccepted hvectors h,
        .of_state hrecord.state hrecord'.state hnotIdle ?_ (hversion c' hrecord'.update)⟩
      rintro rfl
      exact absurd hst' (by decide)
    · exact ⟨c', (htrial c' d h).1, (htrial c' d h).2.1⟩
    · exact ⟨c', (habandoned c' d h).1, (habandoned c' d h).2.1⟩

/-- A verified image is installed if it still is installable, and rejected otherwise. -/
theorem verified_stage (hs : Env μ false s) (hfault : ¬ μ.Faulty)
    (hstate : c.state = UpdateState.imageReady.code) (hpersisted : Persisted s.device c)
    (hactive : P.Active s.device.app c.activeVersion)
    (hvectors : VectorsValid applicationMaxSize s.device.app) (hverified : P.Verified c s.device) :
    Holds μ false (transition key c s) (Advances μ P c) (Leaves μ P c) := by
  by_cases hinstallable : ∃ info, Installable key c s.device info
  · obtain ⟨info, h⟩ := hinstallable
    refine installing_stage hs hfault (I := installationOf h) rfl (P.accept h hactive hverified)
      hvectors (.ready ⟨⟨hstate, .refl c⟩, hpersisted, ⟨h.authentic, fun _ _ => rfl⟩,
        fun _ _ => rfl⟩)
  · have hnone := not_exists.1 hinstallable
    have hreverted : ∀ c' d reason, RecordsFrame s.device d →
        c'.Agrees (ImageInstaller.reverted c reason) → Persisted d c' →
        Stage μ P c' d ∧ Follows c c' ∧ rank c' < rank c := by
      intro c' d reason hframe hagrees hc'
      have hversion : c'.activeVersion = c.activeVersion := hagrees.activeVersion
      have hstate' : c'.state = UpdateState.idle.code := hagrees.state
      refine ⟨.idle hstate' hc' (active_metadata hframe (hversion ▸ hactive)),
        .of_state hstate hstate' (by decide) (by decide) hversion, ?_⟩
      rw [rank_eq hstate, rank_eq hstate']
      decide
    refine (image_rejected hs hfault hpersisted hstate hnone).mono ?_ ?_
    · rintro r d ⟨hframe, reason, c', rfl, hstores, hc'⟩
      exact hreverted c' d reason hframe hstores.toAgrees hc'
    · rintro d ⟨hframe, hold | ⟨reason, c', hc', hagrees⟩⟩
      · exact ⟨c, .verified hstate (hold.trans hpersisted) (active_metadata hframe hactive)
          (vectors_metadata hframe hvectors) (P.verified_records hframe hverified), .refl c⟩
      · obtain ⟨hstage, hfollows, -⟩ := hreverted c' d reason hframe hagrees hc'
        exact ⟨c', hstage, hfollows⟩

omit [μ.Sound] in
/-- The stage a rollback leads to. -/
theorem restored_stage {record : BackupImageRecord} {base : Nat → UInt8} {st : UpdateState}
    {c' : BootMetadata} {d d' : Device} (hstate : c.state = st.code)
    (hst : st = .trialBoot ∨ st = .rollback) (hfallback : Fallback P record base c d)
    (h : Restored c record base c' d') :
    Stage μ P c' d' ∧ Follows c c' ∧ rank c' < rank c := by
  have hversion : c'.activeVersion = c.activeVersion :=
    h.agrees.activeVersion.trans hfallback.version
  have hstate' : c'.state = UpdateState.idle.code := h.agrees.state
  refine ⟨.idle hstate' h.persisted (P.active_congr h.app (hversion ▸ hfallback.active)),
    .of_state hstate hstate' ?_ (by decide) hversion, ?_⟩
  · rcases hst with rfl | rfl <;> decide
  · rw [rank_eq hstate, rank_eq hstate']
    rcases hst with rfl | rfl <;> decide

/-- A failed trial and an open rollback lead back to the fallback. -/
theorem rollback_stage (hs : Env μ false s) (hfault : ¬ μ.Faulty) {record : BackupImageRecord}
    {base : Nat → UInt8} {st : UpdateState} (hstate : c.state = st.code)
    (hst : st = .trialBoot ∨ st = .rollback)
    (hpersisted : Persisted s.device c) (hfallback : Fallback P record base c s.device)
    (hstart : c.state = UpdateState.trialBoot.code ∧
        (c.bootAttempts ≥ BootMetadata.maxBootAttempts ∨
          ¬ VectorsValid applicationMaxSize s.device.app) ∨
      RollingBack μ c c.lastError record base c s.device)
    (hself : ∀ d, MetadataFrame s.device d → Persisted d c → Stage μ P c d) :
    Holds μ false (transition key c s) (Advances μ P c) (Leaves μ P c) := by
  refine (rollback_holds key hs hfault hfallback.vectors hpersisted hfallback.backup hstart).mono
    ?_ ?_
  · rintro r d ⟨c', rfl, h, -⟩
    exact restored_stage hstate hst hfallback h
  · rintro d (⟨hframe, hold⟩ | ⟨c', h | ⟨-, h⟩⟩)
    · exact ⟨c, hself d hframe (hold.trans hpersisted), .refl c⟩
    · have hversion := h.record.update.activeVersion
      refine ⟨c', .rollingBack record base ⟨h.context, hfallback.vectors,
          hversion ▸ hfallback.active, hfallback.version.trans hversion.symm⟩ ?_,
        .of_state hstate h.record.state ?_ (by decide) hversion⟩
      · exact ⟨⟨h.record.state, .refl c', fun _ => rfl⟩, h.persisted, h.context, h.progress,
          h.copied⟩
      · rcases hst with rfl | rfl <;> decide
    · obtain ⟨hstage, hfollows, -⟩ := restored_stage (μ := μ) hstate hst hfallback h
      exact ⟨c', hstage, hfollows⟩

theorem trial_stage (hs : Env μ false s) (hfault : ¬ μ.Faulty) {record : BackupImageRecord}
    {base : Nat → UInt8} (hstate : c.state = UpdateState.trialBoot.code)
    (hpersisted : Persisted s.device c) (hfallback : Fallback P record base c s.device)
    (htrial : P.Trial c s.device.app) :
    Holds μ false (transition key c s) (Advances μ P c) (Leaves μ P c) := by
  have hself : ∀ c' d, MetadataFrame s.device d → Persisted d c' →
      c'.state = UpdateState.trialBoot.code → BootMetadata.SameUpdate c' c → Stage μ P c' d := by
    intro c' d hframe hc' hstate' hsame
    exact .trial record base hstate' hc' (hfallback.commit hframe hsame.activeVersion)
      (P.trial_congr hsame (fun _ hi => ImageInstaller.MetadataFrame.app hframe hi) htrial)
  by_cases hfailed : c.bootAttempts ≥ BootMetadata.maxBootAttempts ∨
      ¬ VectorsValid applicationMaxSize s.device.app
  · exact rollback_stage hs hfault hstate (.inl rfl) hpersisted hfallback (.inl ⟨hstate, hfailed⟩)
      fun d hframe hc => hself c d hframe hc hstate (.refl c)
  obtain ⟨hlimit, hvectors⟩ := not_or.1 hfailed
  refine (trial_holds key hs hpersisted hstate hlimit (not_not.1 hvectors)).mono ?_ ?_
  · rintro r d ⟨vector, c', rfl, hc', hstores, hframe⟩
    have hsame : BootMetadata.SameUpdate c' c :=
      hstores.toAgrees.sameUpdate.trans ⟨rfl, rfl, rfl, rfl, rfl⟩
    have hstate' : c'.state = UpdateState.trialBoot.code := hstores.state.trans hstate
    exact ⟨c', hself c' d hframe hc' hstate' hsame,
      .of_state hstate hstate' (by decide) (by decide) hsame.activeVersion,
      fun _ _ => ⟨vectors_metadata hframe (not_not.1 hvectors), .inr hstate'⟩⟩
  · rintro d ⟨hframe, hold | ⟨-, c', hc', hagrees⟩⟩
    · exact ⟨c, hself c d hframe (hold.trans hpersisted) hstate (.refl c), .refl c⟩
    · have hsame : BootMetadata.SameUpdate c' c :=
        hagrees.sameUpdate.trans ⟨rfl, rfl, rfl, rfl, rfl⟩
      have hstate' : c'.state = UpdateState.trialBoot.code := hagrees.state.trans hstate
      exact ⟨c', hself c' d hframe hc' hstate' hsame,
        .of_state hstate hstate' (by decide) (by decide) hsame.activeVersion⟩

theorem confirmed_stage (hs : Env μ false s) (hstate : c.state = UpdateState.confirmed.code)
    (hpersisted : Persisted s.device c) (hconfirmable : P.Confirmable)
    (htrial : P.Trial c s.device.app) :
    Holds μ false (transition key c s) (Advances μ P c) (Leaves μ P c) := by
  have hfinalized : ∀ c' d, MetadataFrame s.device d → Persisted d c' →
      c'.Agrees (TrialBoot.finalized c) → Stage μ P c' d ∧ Follows c c' ∧ rank c' < rank c := by
    intro c' d hframe hc' hagrees
    have hversion : c'.activeVersion = c.pendingVersion := hagrees.activeVersion
    have hstate' : c'.state = UpdateState.idle.code := hagrees.state
    refine ⟨.idle hstate' hc' (active_metadata hframe (hversion ▸ P.confirm hconfirmable htrial)),
      .inr ⟨hstate, hstate', hversion⟩, ?_⟩
    rw [rank_eq hstate, rank_eq hstate']
    decide
  refine (confirmed_holds key hs hpersisted hstate).mono ?_ ?_
  · rintro r d ⟨c', rfl, hc', hstores, hframe⟩
    exact hfinalized c' d hframe hc' hstores.toAgrees
  · rintro d ⟨hframe, hold | ⟨-, c', hc', hagrees⟩⟩
    · exact ⟨c, .confirmed hstate (hold.trans hpersisted) hconfirmable
        (P.trial_congr (.refl c) (fun _ hi => ImageInstaller.MetadataFrame.app hframe hi) htrial),
        .refl c⟩
    · obtain ⟨hstage, hfollows, -⟩ := hfinalized c' d hframe hc' hagrees
      exact ⟨c', hstage, hfollows⟩

/-- One transition of the bootloader from any stage. -/
theorem transition_stage (hs : Env μ false s) (hfault : ¬ μ.Faulty) (h : Stage μ P c s.device) :
    Holds μ false (transition key c s) (Advances μ P c) (Leaves μ P c) := by
  cases h with
  | idle hstate hpersisted hactive => exact idle_stage hs hstate hpersisted hactive
  | received hstate hpersisted hactive hvectors =>
      exact received_stage hs hfault hstate hpersisted hactive hvectors
  | verified hstate hpersisted hactive hvectors hverified =>
      exact verified_stage hs hfault hstate hpersisted hactive hvectors hverified
  | installing I hkey haccepted hvectors hopen =>
      exact installing_stage hs hfault hkey haccepted hvectors hopen
  | trial record base hstate hpersisted hfallback htrial =>
      exact trial_stage hs hfault hstate hpersisted hfallback htrial
  | rollingBack record base hfallback hrolling =>
      have hstage : Stage μ P c s.device := .rollingBack record base hfallback hrolling
      exact rollback_stage hs hfault hrolling.record.state (.inr rfl) hrolling.persisted hfallback
        (.inr hrolling) fun d hframe hc => hstage.kept hframe (hc.trans hrolling.persisted.symm)
  | confirmed hstate hpersisted hconfirmable htrial =>
      exact confirmed_stage hs hstate hpersisted hconfirmable htrial

/-- A whole boot from any stage. -/
theorem run_stage {build : Build} {P : Provenance build.key} (hs : Env μ false s)
    (hfault : ¬ μ.Faulty) (h : Stage μ P c s.device) :
    Holds μ false (run build s) (Ended μ P c) (Leaves μ P c) := by
  refine run_holds (S := fun n c' d => Stage μ P c' d ∧ Follows c c' ∧ rank c' = n) ?_ hs
    h.persisted (lt_of_le_of_lt (rank_le c) (by decide)) ⟨h, .refl c, rfl⟩
  rintro n c' t ht ⟨hstage, hfollows, rfl⟩
  refine (transition_stage ht hfault hstage).mono ?_ ?_
  · intro r d hr
    cases r with
    | ok c'' => exact ⟨rank c'', hr.2.2, hr.1, hfollows.trans hr.2.1, rfl⟩
    | error ending =>
        obtain ⟨c'', hstage', hfollows', hjump⟩ := hr
        exact ⟨c'', hstage', hfollows.trans hfollows', hjump⟩
  · rintro d ⟨c'', hstage', hfollows'⟩
    exact ⟨c'', hstage', hfollows.trans hfollows'⟩

end Transitions

end BootManager

end SecureDeltaOta
