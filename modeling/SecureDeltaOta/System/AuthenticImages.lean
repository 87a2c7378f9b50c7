import SecureDeltaOta.System.DownloadIntegrity
import SecureDeltaOta.System.NodeStages

/-!
# Where the images of a node come from

Whatever packets arrive and wherever power is lost, a node whose flash memories
work runs only images that the trusted key signed, besides the one it left the
factory with. The backup of an authenticated image is in place as long as the
application may be overwritten, and the active version only grows.
-/

namespace SecureDeltaOta

open Memory Crash MetadataStorage

open FirmwareContainer (Info)

/-- The trusted key signed a container with this header. -/
structure SignedHeader (key : TrustedKey) (info : Info) (header payload signature : List UInt8) :
    Prop where
  provisioned : key.provisioned = true
  headerLength : header.length = FirmwareContainer.headerSize
  payloadLength : payload.length = info.header.payloadSize.toNat
  parsed : FirmwareContainer.parse header 0 = .ok info
  keyId : info.extension.keyId = key.keyId
  signed : EcdsaP256.verifyDigest key.publicKey (Sha256.calculate (header ++ payload)) signature =
    .valid

/-- An image is the one that a signed header names. -/
structure Genuine (key : TrustedKey) (info : Info) (image : Nat → UInt8) : Prop where
  signed : ∃ header payload signature, SignedHeader key info header payload signature
  hash : Sha256.calculate (window image 0 info.header.targetImageSize.toNat) =
    info.header.targetImageSha256

/-- An image is the one of the factory, or a genuine one. -/
def Authenticated (key : TrustedKey) (factory image : Nat → UInt8) : Prop :=
  (∀ i < applicationMaxSize, image i = factory i) ∨ ∃ info, Genuine key info image

theorem SecureContainer.Authentic.signedHeader {key : TrustedKey} {d : Device} {size : UInt32}
    {info : Info} (h : SecureContainer.Authentic key d size info) :
    SignedHeader key info (rawHeader d) (payload d info) (signature d info) := by
  obtain ⟨hw, hinfo, -⟩ := FirmwareContainer.parse_eq_ok.1 h.parsed
  exact ⟨h.provisioned, window_length _ _ _, window_length _ _ _,
    FirmwareContainer.parse_eq_ok.2 ⟨hw, hinfo, .inl rfl⟩, h.keyId, h.signed⟩

theorem SecureContainer.Authentic.info_unique {key : TrustedKey} {d : Device}
    {size size' : UInt32} {info info' : Info} (h : SecureContainer.Authentic key d size info)
    (h' : SecureContainer.Authentic key d size' info') : info' = info := by
  obtain ⟨-, hinfo, -⟩ := FirmwareContainer.parse_eq_ok.1 h.parsed
  obtain ⟨-, hinfo', -⟩ := FirmwareContainer.parse_eq_ok.1 h'.parsed
  rw [hinfo, hinfo']

section Genuine

variable {key : TrustedKey} {info : Info} {image image' factory : Nat → UInt8}

theorem Genuine.size_le (h : Genuine key info image) :
    info.header.targetImageSize.toNat ≤ applicationMaxSize := by
  obtain ⟨header, payload, signature, hsigned⟩ := h.signed
  obtain ⟨hw, rfl, -⟩ := FirmwareContainer.parse_eq_ok.1 hsigned.parsed
  exact hw.targetSize_le

/-- Only the bytes of the image matter. -/
theorem Genuine.congr (h : Genuine key info image)
    (hsame : ∀ i < info.header.targetImageSize.toNat, image' i = image i) :
    Genuine key info image' := by
  refine ⟨h.signed, ?_⟩
  rw [← h.hash]
  congr 1
  rw [window_eq_iff]
  intro i hi
  rw [Nat.zero_add]
  exact hsame i hi

theorem Authenticated.congr (h : Authenticated key factory image)
    (hsame : ∀ i < applicationMaxSize, image' i = image i) :
    Authenticated key factory image' := by
  rcases h with hfactory | ⟨info, hgenuine⟩
  · exact .inl fun i hi => (hsame i hi).trans (hfactory i hi)
  · exact .inr ⟨info, hgenuine.congr fun i hi => hsame i (hi.trans_le hgenuine.size_le)⟩

end Genuine

/-! ## The provenance of images -/

namespace BootManager

open SecureContainer (Authentic Candidate ContainerFrame reconstructed imageReady)
open ImageInstaller (Installation Installable RecordsFrame Copied)

/-- What is known of the image of an update: a signed header names it and its newer version. -/
structure Newer (key : TrustedKey) (c : BootMetadata) (info : Info) (image : Nat → UInt8) :
    Prop where
  genuine : Genuine key info image
  version : c.pendingVersion = info.header.targetVersion
  newer : c.activeVersion < c.pendingVersion

theorem Newer.congr {key : TrustedKey} {c c' : BootMetadata} {info : Info}
    {image image' : Nat → UInt8} (h : Newer key c info image) (hc : BootMetadata.SameUpdate c' c)
    (hsame : ∀ i < info.header.targetImageSize.toNat, image' i = image i) :
    Newer key c' info image' := by
  refine ⟨h.genuine.congr hsame, hc.pendingVersion.trans h.version, ?_⟩
  rw [hc.activeVersion, hc.pendingVersion]
  exact h.newer

theorem policy_newer {info : Info} {m : BootMetadata}
    (h : SecureContainer.validateMetadataPolicy info m = .ok) :
    m.pendingVersion = info.header.targetVersion ∧ m.activeVersion < m.pendingVersion := by
  unfold SecureContainer.validateMetadataPolicy at h
  split at h
  · cases h
  next hmatch =>
  split at h
  · cases h
  next hnewer =>
  have hpending : m.pendingVersion = info.header.targetVersion := by
    by_contra hne
    exact hmatch (.inr (.inl hne))
  refine ⟨hpending, ?_⟩
  rw [hpending]
  exact UInt32.not_le.1 hnewer

/-- The verified image of a device, with the container that names it. -/
def VerifiedImage (key : TrustedKey) (c : BootMetadata) (d : Device) : Prop :=
  ∃ info size, Authentic key d size info ∧ Newer key c info (d.part .reconstructed)

theorem VerifiedImage.congr {key : TrustedKey} {c : BootMetadata} {d d' : Device}
    (h : VerifiedImage key c d) (hframe : RecordsFrame d d') : VerifiedImage key c d' := by
  obtain ⟨info, size, hauthentic, hnewer⟩ := h
  have hincoming : ∀ i < ExternalPartition.incoming.size,
      d'.part .incoming i = d.part .incoming i := fun i hi => hframe.part (by decide) hi
  have hroom : applicationMaxSize ≤ ExternalPartition.reconstructed.size := by decide
  refine ⟨info, size, (SecureContainer.authentic_congr hincoming).2 hauthentic,
    hnewer.congr (.refl c) ?_⟩
  intro i hi
  have hsize := hnewer.genuine.size_le
  exact hframe.part (by decide) (by omega)

theorem verifiedImage_of_candidate {key : TrustedKey} {m c : BootMetadata} {d d' : Device}
    {info : Info} {image : List UInt8} (h : Candidate key m d info image)
    (hframe : ContainerFrame d d') (himage : reconstructed d' info = image)
    (hc : c.Agrees (imageReady info m)) : VerifiedImage key c d' := by
  obtain ⟨hversion, hnewer⟩ := policy_newer h.policy
  have hincoming : ∀ i < ExternalPartition.incoming.size,
      d'.part .incoming i = d.part .incoming i := fun i hi => hframe.part (.inl rfl) hi
  have hauthentic := (SecureContainer.authentic_congr hincoming).2 h.authentic
  have hpending : c.pendingVersion = m.pendingVersion := hc.pendingVersion
  have hactive : c.activeVersion = m.activeVersion := hc.activeVersion
  refine ⟨info, _, hauthentic, ⟨⟨_, _, _, hauthentic.signedHeader⟩, ?_⟩,
    hpending.trans hversion, ?_⟩
  · rw [← Device.slice_eq_window]
    have hhash := h.verified.hash
    rw [← himage] at hhash
    exact hhash
  · rw [hactive, hpending]
    exact hnewer

/-- Every image of the node is authenticated, and every update is a newer signed one. -/
def Provenance.authentic (key : TrustedKey) (factory : Nat → UInt8) : Provenance key where
  Active image _ := Authenticated key factory image
  Verified := VerifiedImage key
  Accepted I := Authenticated key factory I.base ∧ Newer key I.record I.info I.target
  Trial c app := ∃ info, Newer key c info app
  Confirmable := True
  active_congr hsame h := h.congr hsame
  verified_candidate _ h hframe himage hc := verifiedImage_of_candidate h hframe himage hc
  verified_records hframe h := h.congr hframe
  accept {c d info} h hactive hverified := by
    obtain ⟨info', size, hauthentic, hnewer⟩ := hverified
    have hinfo : info = info' := hauthentic.info_unique h.authentic
    subst hinfo
    exact ⟨hactive, hnewer⟩
  base h := h.1
  installed {I c app} h hc hcopied := ⟨I.info, h.2.congr hc hcopied.image⟩
  trial_congr {c c' app app'} hc hsame h := by
    obtain ⟨info, hnewer⟩ := h
    exact ⟨info, hnewer.congr hc fun i hi => hsame i (hi.trans_le hnewer.genuine.size_le)⟩
  confirm {c app} _ h := by
    obtain ⟨info, hnewer⟩ := h
    exact .inr ⟨info, hnewer.genuine⟩

theorem Provenance.authentic_retains (key : TrustedKey) (factory : Nat → UInt8) :
    (Provenance.authentic key factory).Retains := by
  intro c app h
  obtain ⟨info, hnewer⟩ := h
  exact .inr ⟨info, hnewer.genuine⟩

/-- The backup of an authenticated image is complete, under the active version. -/
structure BackedUp (key : TrustedKey) (factory : Nat → UInt8) (c : BootMetadata) (d : Device) :
    Prop where
  header : BackupImage.validate d.backupHeader = .valid
  version : d.backupHeader.activeVersion = c.activeVersion
  crc : d.backupHeader.imageCrc32 = Crc32.calculate (window d.backupImage 0 applicationMaxSize)
  image : Authenticated key factory d.backupImage
  vectors : VectorsValid applicationMaxSize d.backupImage

/-- What is in place in each state of the record. -/
inductive Safeguarded (key : TrustedKey) (factory : Nat → UInt8) (c : BootMetadata) (d : Device) :
    Prop
  /-- As long as the application is not overwritten it is authenticated. -/
  | untouched {st : UpdateState} (hst : st ∈ untouchedStates) (hstate : c.state = st.code)
      (happ : Authenticated key factory d.app)
  | overwritten {st : UpdateState} (hst : st ∈ overwritingStates) (hstate : c.state = st.code)
      (hbackup : BackedUp key factory c d)
  | confirmed (hstate : c.state = UpdateState.confirmed.code)
      (hinstalled : ∃ info, Newer key c info d.app)

section Safeguarded

variable {key : TrustedKey} {factory : Nat → UInt8} {c : BootMetadata} {d : Device}

theorem backedUp_of_holds {record : BackupImageRecord} {base : Nat → UInt8}
    (h : ImageInstaller.BackupHolds record base d)
    (hversion : record.activeVersion = c.activeVersion)
    (hbase : Authenticated key factory base) (hvectors : VectorsValid applicationMaxSize base) :
    BackedUp key factory c d := by
  have hwindow : window d.backupImage 0 applicationMaxSize = window base 0 applicationMaxSize := by
    rw [window_eq_iff]
    intro i hi
    rw [Nat.zero_add]
    exact h.image i hi
  refine ⟨?_, ?_, ?_, hbase.congr h.image,
    (vectorsValid_congr fun i hi => h.image i (hi.trans (by decide))).2 hvectors⟩
  · rw [h.header]
    exact h.valid
  · rw [h.header]
    exact hversion
  · rw [h.header, h.crc, hwindow]

/-- Every stage is safeguarded. -/
theorem Stage.safeguarded {μ : Mode} (h : Stage μ (Provenance.authentic key factory) c d) :
    Safeguarded key factory c d := by
  cases h with
  | idle hstate _ hactive => exact .untouched (by decide) hstate hactive
  | received hstate _ hactive _ =>
      obtain ⟨st, hst, hcode⟩ := hstate
      refine .untouched ?_ hcode hactive
      fin_cases hst <;> decide
  | verified hstate _ hactive _ _ => exact .untouched (by decide) hstate hactive
  | installing I _ haccepted hvectors hopen =>
      have hbase : Authenticated key factory I.base := haccepted.1
      cases hopen with
      | ready h => exact .untouched (by decide) h.record.state (hbase.congr h.intact)
      | backingUp h => exact .untouched (by decide) h.record.state (hbase.congr h.intact)
      | installing h =>
          exact .overwritten (by decide) h.record.state
            (backedUp_of_holds h.context.backup h.record.update.activeVersion.symm hbase hvectors)
      | verifying h =>
          exact .overwritten (by decide) h.record.state
            (backedUp_of_holds h.context.backup h.record.update.activeVersion.symm hbase hvectors)
  | trial record base hstate _ hfallback htrial =>
      exact .overwritten (by decide) hstate
        (backedUp_of_holds hfallback.backup hfallback.version hfallback.active hfallback.vectors)
  | rollingBack record base hfallback hrolling =>
      exact .overwritten (by decide) hrolling.record.state
        (backedUp_of_holds hfallback.backup hfallback.version hfallback.active hfallback.vectors)
  | confirmed hstate _ _ htrial => exact .confirmed hstate htrial

end Safeguarded

end BootManager

/-! ## Nodes -/

namespace Node

open BootManager (Provenance Safeguarded Newer)

/-- Whatever the node starts or runs is authenticated. -/
structure RunsAuthenticated (build : Build) (factory : Nat → UInt8) (n : Node) : Prop where
  starts : ∀ script vector s, (∀ o ∈ script, (cutsOnly true).Admits o) →
    BootManager.boot build true script n.device = .done (.jump vector) s →
    Authenticated build.key factory s.device.app
  runs : ∀ app, n.app = some app → Authenticated build.key factory n.device.app

section Authentic

variable (build : Build) {d : Device} {c : BootMetadata}

/-- A node with the record `c` whose images are authenticated. -/
abbrev Trusted (factory : Nat → UInt8) (c : BootMetadata) (n : Node) : Prop :=
  StagedAt (cutsOnly true) (Provenance.authentic build.key factory) c n

/-- In one action the active version stays, or becomes that of a confirmed signed image. -/
theorem step_version {factory : Nat → UInt8} {n : Node} (h : Trusted build factory c n) {a : Action}
    (ha : a.Admitted (cutsOnly true)) :
    ∃ c', Trusted build factory c' (n.step build true a) ∧
      (c'.activeVersion = c.activeVersion ∨
        c.state = UpdateState.confirmed.code ∧ c.activeVersion < c'.activeVersion ∧
          ∃ info, Newer build.key c info n.device.app ∧
            c'.activeVersion = info.header.targetVersion) := by
  have : (cutsOnly true).Sound := ⟨rfl⟩
  obtain ⟨c', hstep, hversion⟩ := step_staged (μ := cutsOnly true) (by decide) rfl
    (Provenance.authentic_retains build.key factory) trivial h ha
  refine ⟨c', hstep, ?_⟩
  rcases hversion with hsame | ⟨hstate, hversion⟩
  · exact .inl hsame
  cases h.stage.safeguarded with
  | untouched hst hcode =>
      obtain rfl := UpdateState.code_inj.1 (hcode.symm.trans hstate)
      exact absurd hst (by decide)
  | overwritten hst hcode =>
      obtain rfl := UpdateState.code_inj.1 (hcode.symm.trans hstate)
      exact absurd hst (by decide)
  | confirmed _ hinstalled =>
      obtain ⟨info, hnewer⟩ := hinstalled
      refine .inr ⟨hstate, ?_, info, hnewer, hversion.trans hnewer.version⟩
      rw [hversion]
      exact hnewer.newer

theorem run_version {factory : Nat → UInt8} {n : Node} (h : Trusted build factory c n)
    {actions : List Action} (hadmitted : ∀ a ∈ actions, a.Admitted (cutsOnly true)) :
    ∃ c', Trusted build factory c' (n.run build true actions) ∧
      c.activeVersion ≤ c'.activeVersion := by
  induction actions generalizing n c with
  | nil => exact ⟨c, h, UInt32.le_refl _⟩
  | cons a actions ih =>
      obtain ⟨c₁, hstep, hversion⟩ := step_version build h (hadmitted a (.head _))
      obtain ⟨c₂, hrest, hle⟩ := ih hstep fun a' ha' => hadmitted a' (.tail _ ha')
      refine ⟨c₂, hrest, UInt32.le_trans ?_ hle⟩
      rcases hversion with hsame | ⟨-, hlt, -⟩
      · rw [hsame]
        exact UInt32.le_refl _
      · exact UInt32.le_of_lt hlt

/-- A run from a device with an active application. -/
theorem run_trusted (hc : Persisted d c) (hidle : c.state = UpdateState.idle.code)
    {actions : List Action} (hadmitted : ∀ a ∈ actions, a.Admitted (cutsOnly true)) :
    ∃ c', Trusted build d.app c' ((Node.mk d none).run build true actions) := by
  have hstart : Trusted build d.app c ⟨d, none⟩ :=
    stagedAt_off (.idle hidle hc (.inl fun _ _ => rfl))
  obtain ⟨c', hstaged, -⟩ := run_version build hstart hadmitted
  exact ⟨c', hstaged⟩

theorem factory_persisted : Persisted factory (BootManager.unpersisted 1) :=
  persisted_holding (BootManager.unpersisted_valid 1) _ _

/-- The first packet of data is interrupted by a loss of power. -/
def interruptedPacket : List Action :=
  [.powerUp [] 1 0 [], .packet smallStart [], .packet smallData [.ok, .cut 3]]

theorem interruptedPacket_admitted : ∀ a ∈ interruptedPacket, a.Admitted (cutsOnly true) := by
  simp [interruptedPacket, Action.Admitted, Action.outcomes, Mode.Admits, cutsOnly]

end Authentic

end Node

end SecureDeltaOta
