import SecureDeltaOta.App.Packets
import SecureDeltaOta.Boot.BootLoop
import SecureDeltaOta.Boot.PowerLoss
import SecureDeltaOta.System.Node

/-!
# Downloads over whole runs

A node is watched through any packets, resets and power cuts while its external
flash works. What its sessions say, what is stored and what the sender was
acknowledged stay in step, and a download that was resumed goes on.
-/

namespace SecureDeltaOta

open Memory Crash MetadataStorage

namespace Node

open OtaReceiver

/-! ## Watching a node -/

/-- What is left of the transfer when the node has come up. -/
def restored (n : Node) (t : Transfer) : Transfer :=
  match n.app with
  | some app => t.restored app.session
  | none => t

/-- The transfer after an action of the node. -/
def transfer (build : Build) (atomicCommit : Bool) (n : Node) (t : Transfer) (a : Action) :
    Transfer :=
  match a, n.app with
  | .powerUp .., _ => (n.step build atomicCommit a).restored t
  | .packet request _, some app =>
      match n.act build atomicCommit a with
      | (_, some response) => t.answered app.session request response
      | (n', none) => t.interrupted app.session request n.device n'.device
  | _, _ => t

/-- A node and the transfer it is watched with. -/
def watch (build : Build) (atomicCommit : Bool) (w : Node × Transfer) (a : Action) :
    Node × Transfer :=
  (w.1.step build atomicCommit a, w.1.transfer build atomicCommit w.2 a)

def watched (build : Build) (atomicCommit : Bool) (w : Node × Transfer) (actions : List Action) :
    Node × Transfer :=
  actions.foldl (watch build atomicCommit) w

theorem watched_node (build : Build) (atomicCommit : Bool) (w : Node × Transfer)
    (actions : List Action) :
    (watched build atomicCommit w actions).1 = w.1.run build atomicCommit actions := by
  induction actions generalizing w with
  | nil => rfl
  | cons a actions ih => exact ih (watch build atomicCommit w a)

/-- The node is in step with the transfer. -/
structure Follows (t : Transfer) (n : Node) : Prop where
  stored : Stored t n.device
  app : ∀ app, n.app = some app →
    Tracks t app.session n.device ∧ app.spi.initialized = true

theorem follows_off {t : Transfer} {d : Device} (h : Stored t d) : Follows t ⟨d, none⟩ :=
  ⟨h, fun _ happ => nomatch happ⟩

theorem follows_app {t : Transfer} {d : Device} {app : App} (h : Tracks t app.session d)
    (hspi : app.spi.initialized = true) : Follows t ⟨d, some app⟩ := by
  refine ⟨h.stored, fun app' happ => ?_⟩
  cases happ
  exact ⟨h, hspi⟩

section Steps

variable {build : Build} {μ : Mode} {n : Node} {t : Transfer}

/-- The bootloader leaves the download alone, or closes it. -/
theorem stored_of_moves {d d' : Device} (h : Stored t d) (hfault : ¬ μ.Faulty)
    (hmoves : BootManager.Moves (μ.runs .bootloader) d d') : Stored t d' := by
  rcases hmoves.checkpoint.resolve_left hfault with hsame | hidle
  · exact h.congr hmoves.incoming hsame
  · exact stored_of_idle hidle

theorem boot_stored (h : Stored t n.device) (hfault : ¬ μ.Faulty) {script : List Outcome}
    (hscript : ∀ o ∈ script, μ.Admits o) :
    Holds (μ.runs .bootloader) false (BootManager.boot build μ.atomicCommit script n.device)
      (fun _ => Stored t) (Stored t) := by
  have hrecord : ∀ {d : Device} {e : Event}, Stored t d → Stored t (d.record e) :=
    fun hd => hd.congr (fun _ _ => rfl) rfl
  refine (BootManager.run_boots build (env_boot hscript n.device)).mono ?_
    (fun d hd => stored_of_moves (hrecord h) hfault hd)
  rintro ending d ⟨c₀, d₀, hmoves, -, hboots⟩
  obtain ⟨d₁, hmoves', rfl | rfl⟩ := hboots.moves
  · exact stored_of_moves (hrecord h) hfault (hmoves.trans hmoves')
  · exact hrecord (stored_of_moves (hrecord h) hfault (hmoves.trans hmoves'))

theorem startApplication_follows {d : Device} (h : Stored t d) (hfault : ¬ μ.Faulty)
    {script : List Outcome} (hscript : ∀ o ∈ script, μ.Admits o) (version nowMs : UInt32) :
    Holds (μ.runs (.application version)) true
      (startApplication version nowMs (startMachine μ.atomicCommit version script d))
      (fun app d' => Follows (t.restored app.session) ⟨d', some app⟩)
      (fun d' => Follows t ⟨d', none⟩) := by
  refine Holds.bind (OtaReceiver.init_holds (env_start hscript version d) hfault version h) ?_
    (fun d' hd => follows_off (hd ▸ h))
  rintro g u hu ⟨hd, htracks⟩
  refine Holds.read_bind (Holds.read hu ?_)
  exact follows_app htracks (hu.initialized rfl)

theorem powerUp_follows (h : Follows t n) (hfault : ¬ μ.Faulty) {boot start : List Outcome}
    {version nowMs : UInt32} (hadmitted : (Action.powerUp boot version nowMs start).Admitted μ) :
    Follows (n.transfer build μ.atomicCommit t (.powerUp boot version nowMs start))
      (n.step build μ.atomicCommit (.powerUp boot version nowMs start)) := by
  have hboot : ∀ o ∈ boot, μ.Admits o := fun o ho => hadmitted o (List.mem_append_left _ ho)
  have hstart : ∀ o ∈ start, μ.Admits o := fun o ho => hadmitted o (List.mem_append_right _ ho)
  exact powerUp_ensures (P := fun n' => Follows (n'.restored t) n')
    (boot_stored h.stored hfault hboot) (fun _ hd => follows_off hd)
    (fun _ _ hd => follows_off hd)
    fun _ d hd => startApplication_follows hd hfault hstart version nowMs

theorem follows_afterPacket {app : App} {g : Session} {d : Device} {spi : SpiState}
    (h : Tracks t g d) (hspi : spi.initialized = true) :
    Follows t ⟨d, afterPacket app g spi⟩ := by
  unfold afterPacket
  split
  · exact follows_off h.stored
  · exact follows_app h hspi

/-- How the processing of a packet ends. -/
inductive PacketEnd (μ : Mode) (t : Transfer) (n : Node) (g : Session) (request : OtaPacket) :
    Node × Option OtaPacket → Prop
  | answered {n' : Node} {response : OtaPacket}
      (hfollows : Follows (t.answered g request response) n')
      (hinstalls : request.command = OtaCommand.install.code →
        response.command = OtaCommand.ack.code → InstallRequested g n'.device)
      (htakes : Takes g request → response.command = OtaCommand.ack.code) :
      PacketEnd μ t n g request (n', some response)
  | interrupted {n' : Node} (hcuts : μ.cuts = true)
      (hfollows : Follows (t.interrupted g request n.device n'.device) n') :
      PacketEnd μ t n g request (n', none)

theorem packet_follows (build : Build) {app : App} (h : Follows t n) (happ : n.app = some app)
    (hfault : ¬ μ.Faulty) (request : OtaPacket) {script : List Outcome}
    (hscript : ∀ o ∈ script, μ.Admits o) :
    PacketEnd μ t n app.session request
      (n.act build μ.atomicCommit (.packet request script)) := by
  obtain ⟨htracks, hspi⟩ := h.app app happ
  rw [act_packet build μ.atomicCommit happ]
  refine processPacket_ensures
    (OtaReceiver.processPacket_holds (env_machine hscript (fun _ => hspi) n.device) hfault htracks
      app.version request) ?_ ?_
  · exact fun d hcuts hd => .interrupted hcuts (follows_off hd)
  · intro session response d spi hprocessed hspi'
    exact .answered (follows_afterPacket hprocessed.answers (hspi' rfl)) hprocessed.installs
      hprocessed.takes

theorem tick_follows {app : App} (h : Follows t n) (happ : n.app = some app)
    {nowMs : UInt32} {script : List Outcome} (hscript : ∀ o ∈ script, μ.Admits o) :
    Follows t (n.processTrial μ.atomicCommit app nowMs script) := by
  obtain ⟨htracks, hspi⟩ := h.app app happ
  have hprocess : Holds (μ.runs (.application app.version)) true
      (TrialConfirmation.process app.version app.trial nowMs
        (machine μ.atomicCommit app script n.device))
      (fun _ d => Tracks t app.session d) (fun d => Tracks t app.session d) := by
    have hs : Env (μ.runs (.application app.version)) true
        (machine μ.atomicCommit app script n.device) := env_machine hscript (fun _ => hspi) n.device
    unfold TrialConfirmation.process
    split
    · refine Holds.bind (confirmNow_holds hs) ?_
        (fun d hd => htracks.external fun a => hd.external a trivial)
      intro failure u hu hframe
      exact Holds.pure hu (htracks.external fun a => hframe.external a trivial)
    · exact Holds.pure hs htracks
  refine processTrial_ensures hprocess ?_ ?_ ?_
  · exact fun d hd => follows_off hd.stored
  · exact fun d hd => follows_off hd.stored
  · exact fun d spi hd hspi' => follows_app hd (hspi' rfl)

/-- Every action keeps the node in step. -/
theorem watch_follows (h : Follows t n) (hfault : ¬ μ.Faulty) {a : Action}
    (hadmitted : a.Admitted μ) :
    Follows (n.transfer build μ.atomicCommit t a) (n.step build μ.atomicCommit a) := by
  cases a with
  | powerUp boot version nowMs start => exact powerUp_follows h hfault hadmitted
  | packet request script =>
      cases happ : n.app with
      | none =>
          unfold transfer step act
          rw [happ]
          exact h
      | some app =>
          have hend : PacketEnd μ t n app.session request
              (n.act build μ.atomicCommit (.packet request script)) :=
            packet_follows build h happ hfault request hadmitted
          unfold transfer step
          rw [happ]
          dsimp only
          generalize n.act build μ.atomicCommit (.packet request script) = r at hend ⊢
          cases hend with
          | answered hfollows => exact hfollows
          | interrupted _ hfollows => exact hfollows
  | corrupted request =>
      unfold transfer step act
      cases happ : n.app <;> exact h
  | tick nowMs script =>
      unfold transfer step act
      cases happ : n.app with
      | none => exact h
      | some app => exact tick_follows h happ hadmitted

/-- Every run keeps the node in step. -/
theorem watched_follows (build : Build) {w : Node × Transfer} {actions : List Action} (h : Follows w.2 w.1)
    (hfault : ¬ μ.Faulty) (hadmitted : ∀ a ∈ actions, a.Admitted μ) :
    Follows (watched build μ.atomicCommit w actions).2
      (watched build μ.atomicCommit w actions).1 := by
  induction actions generalizing w with
  | nil => exact h
  | cons a actions ih =>
      exact ih (watch_follows h hfault (hadmitted a (.head _)))
        fun a' ha' => hadmitted a' (.tail _ ha')

end Steps

/-! ## Observed transfers -/

/-- Before the first `START`. -/
def Transfer.nothing : Transfer := ⟨0, 0, 0, 0, [], true⟩

theorem transfer_observed (build : Build) (atomicCommit : Bool) (n : Node) {t : Transfer}
    (a : Action) (h : t.observed = true) :
    (n.transfer build atomicCommit t a).observed = true := by
  have haccepted : ∀ g request, (t.accepted g request).observed = true := by
    intro g request
    unfold Transfer.accepted
    split_ifs
    · rfl
    · exact h
    · exact h
  have hrestored : ∀ g, (t.restored g).observed = true := by
    intro g
    unfold Transfer.restored
    split_ifs <;> exact h
  unfold transfer
  split
  · unfold restored
    split
    · exact hrestored _
    · exact h
  · split
    · unfold Transfer.answered
      split_ifs
      · exact haccepted _ _
      · exact h
    · unfold Transfer.interrupted
      split_ifs
      · exact h
      · exact haccepted _ _
  · exact h

theorem watched_observed (build : Build) (atomicCommit : Bool) (actions : List Action)
    {w : Node × Transfer} (h : w.2.observed = true) :
    (watched build atomicCommit w actions).2.observed = true := by
  induction actions generalizing w with
  | nil => exact h
  | cons a actions ih => exact ih (transfer_observed build atomicCommit w.1 a h)

/-! ## Download integrity -/

/-- What a session, what is stored and what was acknowledged have to do with each other. -/
structure Intact (t : Transfer) (g : Session) (d : Device) : Prop where
  offset_le : g.nextOffset.toNat ≤ g.expectedSize.toNat
  size_le : g.expectedSize.toNat ≤ extIncomingSize
  updateId : g.updateId = t.updateId
  targetVersion : g.targetVersion = t.targetVersion
  size : g.expectedSize = t.artifactSize
  bytes : d.slice .incoming 0 g.nextOffset.toNat = t.bytes

/-- The newest checkpoint of a session in `RECEIVING`. -/
def Checkpointed (g : Session) (d : Device) : Prop :=
  ∃ c, d.checkpoint = some c ∧ c.state = DownloadCheckpointState.receiving.code ∧
    c.updateId = g.updateId ∧ c.nextOffset.toNat % extFlashSectorSize = 0 ∧
    c.nextOffset.toNat ≤ g.nextOffset.toNat

/-- All bytes are there, with the CRC that was announced. -/
structure Complete (t : Transfer) (g : Session) : Prop where
  length : t.bytes.length = g.expectedSize.toNat
  crc : Crc32.calculate t.bytes = t.artifactCrc32

theorem checkpointed_of_receiving {g : Session} {d : Device} (h : Receiving g d) :
    Checkpointed g d := by
  obtain ⟨c, hc, hsaves⟩ := h.saved
  have hopen : c.state ≠ DownloadCheckpointState.idle.code := by
    rw [hsaves.state]
    decide
  obtain ⟨-, -, -, -, -, hsession, -⟩ :=
    DownloadCheckpoint.validate_eq_valid.1 (Device.checkpoint_valid hc)
  obtain ⟨-, -, -, -, ⟨-, haligned⟩ | ⟨hbad, -⟩⟩ :=
    DownloadCheckpoint.sessionFieldsValid_iff.1 (hsession hopen)
  · refine ⟨c, hc, hsaves.state, hsaves.updateId, haligned, ?_⟩
    rw [hsaves.nextOffset]
    exact h.persisted_le
  · rw [hsaves.state] at hbad
    exact absurd hbad (by decide)

theorem intact_of_carries {t : Transfer} {g : Session} {d : Device} (h : Carries t g d)
    (hg : Checkpointable g) : Intact t g d :=
  ⟨hg.offset_le, hg.size_le, h.updateId, h.targetVersion, h.size, h.bytes⟩

/-- A `RECEIVING` checkpoint in either slot that has the size of a complete session. -/
theorem slot_aligned {d : Device} {slot : Slot} {g : Session}
    (hcomplete : g.nextOffset = g.expectedSize)
    (hvalid : DownloadCheckpoint.validate (DownloadCheckpointStorage.store.slotOf d slot) = .valid)
    (hstate : (DownloadCheckpointStorage.store.slotOf d slot).state =
      DownloadCheckpointState.receiving.code)
    (hsize : (DownloadCheckpointStorage.store.slotOf d slot).imageSize = g.expectedSize) :
    (DownloadCheckpointStorage.store.slotOf d slot).nextOffset.toNat % extFlashSectorSize = 0 ∧
      (DownloadCheckpointStorage.store.slotOf d slot).nextOffset.toNat ≤ g.nextOffset.toNat := by
  obtain ⟨-, -, -, -, -, hsession, -⟩ := DownloadCheckpoint.validate_eq_valid.1 hvalid
  obtain ⟨-, -, -, hle, ⟨-, haligned⟩ | ⟨hbad, -⟩⟩ :=
    DownloadCheckpoint.sessionFieldsValid_iff.1 (hsession (by rw [hstate]; decide))
  · rw [hcomplete, ← hsize]
    exact ⟨haligned, hle⟩
  · rw [hstate] at hbad
    exact absurd hbad (by decide)

/--
Through any packets, resets and power cuts a download is intact: the stored bytes
are the ones acknowledged since its `START`, its checkpoints are aligned and not
ahead, only a complete artifact with the announced CRC is ready, and an
acknowledged `INSTALL` has persisted the request to install it.
-/
theorem download_integrity (build : Build) (μ : Mode) (hstorage : μ.externalFaults = false)
    (d : Device) (hclosed : ∀ c, d.checkpoint = some c →
      c.state = DownloadCheckpointState.idle.code)
    (actions : List Action) (hadmitted : ∀ a ∈ actions, a.Admitted μ) (app : App) :
    let w := watched build μ.atomicCommit (⟨d, none⟩, Transfer.nothing) actions
    w.1.app = some app →
    (app.session.state = .receiving ∨ app.session.state = .artifactReady →
      Intact w.2 app.session w.1.device) ∧
    (app.session.state = .receiving → Checkpointed app.session w.1.device) ∧
    (app.session.state = .artifactReady → Complete w.2 app.session ∧
      ∀ slot, let c := DownloadCheckpointStorage.store.slotOf w.1.device slot
        DownloadCheckpoint.validate c = .valid →
        c.state = DownloadCheckpointState.receiving.code → c.imageSize = app.session.expectedSize →
        c.nextOffset.toNat % extFlashSectorSize = 0 ∧
          c.nextOffset.toNat ≤ app.session.nextOffset.toNat) ∧
    ∀ request script response, (Action.packet request script).Admitted μ →
      request.command = OtaCommand.install.code →
      (w.1.act build μ.atomicCommit (.packet request script)).2 = some response →
      response.command = OtaCommand.ack.code →
      InstallRequested app.session
        (w.1.step build μ.atomicCommit (.packet request script)).device := by
  intro w happ
  have hfault : ¬ μ.Faulty := by simp [hstorage]
  have hstart : Stored Transfer.nothing d := fun c hc hopen => absurd (hclosed c hc) hopen
  have hfollows : Follows w.2 w.1 := watched_follows build (follows_off hstart) hfault hadmitted
  have hobserved : w.2.observed = true := watched_observed build μ.atomicCommit actions rfl
  obtain ⟨htracks, -⟩ := hfollows.app app happ
  refine ⟨?_, ?_, ?_, ?_⟩
  · rintro (hstate | hstate)
    · obtain ⟨hg, hcarries⟩ := htracks.receiving hstate
      exact intact_of_carries hcarries hg.toCheckpointable
    · obtain ⟨hg, hcarries, -⟩ := htracks.ready hstate
      exact intact_of_carries hcarries hg.toCheckpointable
  · exact fun hstate => checkpointed_of_receiving (htracks.receiving hstate).1
  · intro hstate
    obtain ⟨hg, hcarries, hcrc⟩ := htracks.ready hstate
    refine ⟨⟨?_, hcrc hobserved⟩, fun slot => slot_aligned hg.complete⟩
    rw [← hcarries.bytes, ← hg.complete]
    exact window_length _ _ _
  · intro request script response hscript hcommand hresponse hack
    have hend : PacketEnd μ w.2 w.1 app.session request
        (w.1.act build μ.atomicCommit (.packet request script)) :=
      packet_follows build hfollows happ hfault request hscript
    unfold step
    generalize w.1.act build μ.atomicCommit (.packet request script) = r at hend hresponse ⊢
    cases hend with
    | interrupted => cases hresponse
    | answered _ hinstalls _ =>
        cases hresponse
        exact hinstalls hcommand hack

/-- A node as it leaves the factory, with the small application in version 1. -/
def factory : Device :=
  holding (BootMetadata.finalize { BootMetadata.init 1 with generation := 1 })
    BootManager.smallApplication fun _ => 0xFF

/-- A build whose key accepts nothing. -/
def factoryBuild : Build := ⟨⟨true, 1, []⟩, 1⟩

/-- Power may be lost anywhere; the flash memories work. -/
def cutsOnly (atomicCommit : Bool) : Mode where
  cuts := true
  tornPrograms := true
  externalFaults := false
  atomicCommit := atomicCommit
  writer := .bootloader

/-- The `START` of a full image of 205 bytes. -/
def smallStart : OtaPacket :=
  ⟨OtaCommand.start.code, 7, 0, 0, [1, 0, 1, 0, 0, 0, 0, 0, 2, 0, 0, 0, 0xCD, 0, 0, 0, 1, 2, 3, 4,
    140, 0, 0, 0]⟩

def smallData : OtaPacket := ⟨OtaCommand.data.code, 7, 0, 0, [1, 2, 3]⟩

/-- A node that has received one packet. -/
def firstPacket : List Action :=
  [.powerUp [] 1 0 [], .packet smallStart [], .packet smallData []]

theorem download_integrity_first_packet :
    ∃ app, (watched factoryBuild true (⟨factory, none⟩, Transfer.nothing) firstPacket).1.app =
        some app ∧ app.session.state = .receiving ∧
      Intact (watched factoryBuild true (⟨factory, none⟩, Transfer.nothing) firstPacket).2
        app.session
        (watched factoryBuild true (⟨factory, none⟩, Transfer.nothing) firstPacket).1.device := by
  have hrun : ((watched factoryBuild true (⟨factory, none⟩, Transfer.nothing) firstPacket).1.app.map
      fun app => decide (app.session.state = .receiving)) = some true := by decide +kernel
  obtain ⟨app, happ, hstate⟩ := Option.map_eq_some_iff.1 hrun
  have hnone : factory.checkpoint = none := by decide +kernel
  have hstate := of_decide_eq_true hstate
  refine ⟨app, happ, hstate, ?_⟩
  refine (download_integrity factoryBuild (cutsOnly true) rfl factory ?_ firstPacket ?_ app happ).1
    (.inl hstate)
  · intro c hc
    rw [hnone] at hc
    cases hc
  · intro a ha o ho
    fin_cases ha <;> cases ho

/-! ## Resumed downloads -/

/-- The transfer a node is found with. -/
def found (d : Device) : Transfer :=
  match d.checkpoint with
  | none => Transfer.nothing
  | some c => ⟨c.updateId, c.targetVersion, c.imageSize, c.imageCrc32,
      d.slice .incoming 0 c.nextOffset.toNat, false⟩

theorem stored_found (d : Device) : Stored (found d) d := by
  intro c hc _
  unfold found
  rw [hc]
  have hlength : (d.slice .incoming 0 c.nextOffset.toNat).length = c.nextOffset.toNat :=
    window_length _ _ _
  refine ⟨rfl, rfl, rfl, rfl, ?_, fun _ => ⟨hlength, fun h => nomatch h⟩⟩
  exact (List.take_of_length_le hlength.le).symm

/-- The packet a session waits for is not taken for a repetition. -/
theorem takes_of_next {g : Session} {d : Device} {request : OtaPacket} (h : Receiving g d)
    (hstate : g.state = .receiving) (hcommand : request.command = OtaCommand.data.code)
    (hid : request.updateId = g.updateId) (hsequence : request.sequence = g.expectedSequence)
    (hoffset : request.offset = g.nextOffset) (hpos : 0 < request.payload.length)
    (hmax : request.payload.length ≤ otaMaxPayloadSize)
    (hroom : request.payload.length ≤ g.expectedSize.toNat - g.nextOffset.toNat) :
    Takes g request := by
  refine ⟨hcommand, hstate, hid, hpos, hmax, ?_, ?_⟩
  · unfold repeatsLastData
    rw [hoffset]
    by_contra hrepeats
    simp only [Bool.not_eq_false, Bool.and_eq_true, decide_eq_true_eq] at hrepeats
    obtain ⟨⟨⟨hlast, -⟩, hsame⟩, -⟩ := hrepeats
    obtain ⟨hlength, hend⟩ := h.last hlast
    rw [hsame] at hend
    omega
  · rw [refuseData_eq_none, remaining_toNat h.offset_le]
    exact ⟨hsequence, hoffset, hroom⟩

/-- Whatever a node holds at first, a download never gets stuck. -/
theorem resumed_download_proceeds (build : Build) (μ : Mode) (hstorage : μ.externalFaults = false)
    (d : Device) (actions : List Action) (hadmitted : ∀ a ∈ actions, a.Admitted μ) (app : App) :
    let n := (Node.mk d none).run build μ.atomicCommit actions
    n.app = some app → app.session.state = .receiving →
    (∀ request : OtaPacket, request.command = OtaCommand.data.code →
      request.updateId = app.session.updateId →
      request.sequence = app.session.expectedSequence →
      request.offset = app.session.nextOffset → 0 < request.payload.length →
      request.payload.length ≤ min otaMaxPayloadSize
        (app.session.expectedSize.toNat - app.session.nextOffset.toNat) →
      (∃ response, (n.act build μ.atomicCommit (.packet request [])).2 = some response) ∧
      ∀ script response, (Action.packet request script).Admitted μ →
        (n.act build μ.atomicCommit (.packet request script)).2 = some response →
        response.command = OtaCommand.ack.code) ∧
    ∀ sector < 32, Marked app.session.erasedSectorBitmap sector →
      ∀ i, app.session.nextOffset.toNat ≤ i → sector * extFlashSectorSize ≤ i →
        i < (sector + 1) * extFlashSectorSize → n.device.part .incoming i = 0xFF := by
  intro n happ hstate
  have hfault : ¬ μ.Faulty := by simp [hstorage]
  have hfollows := watched_follows build (w := (⟨d, none⟩, found d))
    (follows_off (stored_found d)) hfault hadmitted
  rw [watched_node] at hfollows
  obtain ⟨htracks, -⟩ := hfollows.app app happ
  obtain ⟨hg, -⟩ := htracks.receiving hstate
  refine ⟨?_, fun sector hsector hmarked => hg.marks.erased sector hsector hmarked⟩
  intro request hcommand hid hsequence hoffset hpos hmax
  have htakes : Takes app.session request :=
    takes_of_next hg hstate hcommand hid hsequence hoffset hpos (by omega) (by omega)
  constructor
  · -- without a cut there is an answer
    have hend : PacketEnd { μ with cuts := false } _ n app.session request
        (n.act build μ.atomicCommit (.packet request [])) :=
      packet_follows (μ := { μ with cuts := false }) build hfollows happ hfault request (by simp)
    generalize n.act build μ.atomicCommit (.packet request []) = r at hend ⊢
    cases hend with
    | interrupted hcuts => cases hcuts
    | answered => exact ⟨_, rfl⟩
  · intro script response hscript hresponse
    have hend : PacketEnd μ _ n app.session request
        (n.act build μ.atomicCommit (.packet request script)) :=
      packet_follows build hfollows happ hfault request hscript
    generalize n.act build μ.atomicCommit (.packet request script) = r at hend hresponse
    cases hend with
    | interrupted => cases hresponse
    | answered _ _ hanswer =>
        cases hresponse
        exact hanswer htakes

/-- A checkpoint of a download that has received nothing. -/
def openedRecord : DownloadCheckpointRecord :=
  DownloadCheckpoint.finalize
    { DownloadCheckpoint.initSession .receiving 7 2 205 0 0 with generation := 1 }

/-- A node that was reset in the middle of a download. -/
def interruptedDevice : Device :=
  { factory with
    external := fun a =>
      (DownloadCheckpointStorage.store.layout.encode openedRecord).getD
        (a - (ExternalPartition.metadataA.address + DownloadCheckpointStorage.store.offset)) 0xFF }

/-- Its session after the reset takes the first packet. -/
theorem resumed_download_proceeds_reset :
    ∃ response, (((Node.mk interruptedDevice none).run factoryBuild true
      [.powerUp [] 1 0 []]).act factoryBuild true (.packet smallData [])).2 = some response ∧
        response.command = OtaCommand.ack.code := by
  have hrun : (((Node.mk interruptedDevice none).run factoryBuild true
      [.powerUp [] 1 0 []]).app.map fun app =>
        decide (app.session.state = .receiving ∧ smallData.updateId = app.session.updateId ∧
          smallData.sequence = app.session.expectedSequence ∧
          smallData.offset = app.session.nextOffset ∧
          smallData.payload.length ≤ min otaMaxPayloadSize
            (app.session.expectedSize.toNat - app.session.nextOffset.toNat))) = some true := by
    decide +kernel
  obtain ⟨app, happ, hsession⟩ := Option.map_eq_some_iff.1 hrun
  obtain ⟨hstate, hid, hsequence, hoffset, hroom⟩ := of_decide_eq_true hsession
  have hempty : ∀ a ∈ [Action.powerUp [] 1 0 []], a.Admitted (cutsOnly true) := by
    intro a ha o ho
    fin_cases ha
    cases ho
  obtain ⟨⟨response, hresponse⟩, hack⟩ :=
    (resumed_download_proceeds factoryBuild (cutsOnly true) rfl interruptedDevice _ hempty app happ
      hstate).1 smallData rfl hid hsequence hoffset (by decide) hroom
  refine ⟨response, hresponse, hack [] response ?_ hresponse⟩
  intro o ho
  cases ho

end Node

end SecureDeltaOta
