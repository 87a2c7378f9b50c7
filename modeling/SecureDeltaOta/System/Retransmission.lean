import SecureDeltaOta.App.Redelivery
import SecureDeltaOta.System.DownloadIntegrity
import SecureDeltaOta.System.SessionSoundness

/-!
# Retransmitted data

A node that has stored a `DATA` packet is sent the same packet again, any number
of times and before any other packet. If the first delivery was acknowledged,
nothing changes any more. If the flash could not take the checkpoint of the
first delivery, the second one commits it, and the node is then where it would
have been without the failure.
-/

namespace SecureDeltaOta

open Memory Crash

/-- The flash works during a run. -/
def Working (script : List Outcome) : Prop := ∀ o ∈ script, o = .ok

/-- The mode in which the flash works and power stays on. -/
def workingMode (atomicCommit : Bool) : Mode where
  cuts := false
  tornPrograms := false
  externalFaults := false
  atomicCommit := atomicCommit
  writer := .bootloader

theorem Working.admits {script : List Outcome} (h : Working script) (atomicCommit : Bool) :
    ∀ o ∈ script, (workingMode atomicCommit).Admits o := by
  intro o ho
  rw [h o ho]
  exact trivial

/-- Two checkpoints that differ at most in their generation, and so in their CRC. -/
def SameCheckpoint (c c' : DownloadCheckpointRecord) : Prop :=
  { c with generation := 0, crc32 := 0 } = { c' with generation := 0, crc32 := 0 }

theorem sameCheckpoint_numbered (generation generation' : UInt32) (r : DownloadCheckpointRecord) :
    SameCheckpoint (DownloadCheckpointStorage.store.numbered generation r)
      (DownloadCheckpointStorage.store.numbered generation' r) :=
  rfl

/-- The checkpoint of a session is the same on every device. -/
theorem sameCheckpoint_due {g g' : Session} (d d' : Device)
    (h : OtaReceiver.sessionRecord g .receiving g.nextOffset =
      OtaReceiver.sessionRecord g' .receiving g'.nextOffset) :
    SameCheckpoint (OtaReceiver.dueRecord g d) (OtaReceiver.dueRecord g' d') := by
  unfold OtaReceiver.dueRecord RecordStore.candidateFor
  rw [h]
  exact sameCheckpoint_numbered _ _ _

namespace Node

open OtaReceiver

variable (build : Build) (atomicCommit : Bool)

/-- The session in the memory of the node. -/
def session? (n : Node) : Option Session := n.app.map App.session

/-- A packet is sent once for each script. -/
def deliver (n : Node) (request : OtaPacket) (scripts : List (List Outcome)) : Node :=
  n.run build atomicCommit (scripts.map (Action.packet request))

/-- A packet that arrives again while the flash works changes nothing and is answered alike. -/
def Settled (n : Node) (request response : OtaPacket) : Prop :=
  ∀ scripts, (∀ script ∈ scripts, Working script) →
    (n.deliver build atomicCommit request scripts).device = n.device ∧
    (n.deliver build atomicCommit request scripts).session? = n.session? ∧
    ∀ script, Working script →
      ((n.deliver build atomicCommit request scripts).act build atomicCommit
        (.packet request script)).2 = some response

section Steps

variable {n : Node} {app : App} {request : OtaPacket} {script : List Outcome}

theorem env_working (h : Working script) (hinit : app.spi.initialized = true) (d : Device) :
    Env ((workingMode atomicCommit).runs (.application app.version)) true
      (machine atomicCommit app script d) :=
  env_machine (μ := workingMode atomicCommit) (h.admits atomicCommit) (fun _ => hinit) d

/-- The node has acknowledged the packet and nothing is left to be done for it. -/
structure Acknowledged (n : Node) (request : OtaPacket) (g : Session) (d : Device) : Prop where
  device : n.device = d
  running : ∃ app, n.app = some app ∧ app.session = (ack g request).1 ∧
    app.spi.initialized = true
  took : JustTook (ack g request).1 request d
  notDue : ¬ Due (ack g request).1
  stays : (ack g request).1.resetPending = false

/-- What an application that does not reset itself leaves behind. -/
theorem processPacket_done {session : Session} {response : OtaPacket} {t : Machine}
    (hrun : OtaReceiver.processPacket app.version app.session request
      (machine atomicCommit app script n.device) = .done (session, response) t)
    (hstays : session.resetPending = false) :
    n.processPacket atomicCommit app request script =
      (⟨t.device, some { app with session := session, spi := t.spi }⟩, some response) := by
  unfold processPacket
  rw [hrun]
  dsimp only
  rw [afterPacket, if_neg (by simp [hstays])]

theorem processPacket_some {n' : Node} {response : OtaPacket} {app' : App}
    (hact : n.processPacket atomicCommit app request script = (n', some response))
    (happ : n'.app = some app') :
    ∃ t, OtaReceiver.processPacket app.version app.session request
        (machine atomicCommit app script n.device) = .done (app'.session, response) t ∧
      n'.device = t.device ∧ app'.spi = t.spi ∧ app'.session.resetPending = false := by
  unfold processPacket at hact
  split at hact
  · next session answer t hrun =>
      cases hact
      dsimp only [afterPacket] at happ
      split at happ
      · cases happ
      · next hstays =>
          cases happ
          exact ⟨t, hrun, rfl, rfl, by simpa using hstays⟩
  · cases hact

/-- One more delivery of an acknowledged packet. -/
theorem Acknowledged.act {g : Session} {d : Device} (h : Acknowledged n request g d)
    (hcommand : request.command = OtaCommand.data.code) (hscript : Working script) :
    Acknowledged (n.act build atomicCommit (.packet request script)).1 request g d ∧
      (n.act build atomicCommit (.packet request script)).2 = some (ack g request).2 := by
  obtain ⟨hdevice, ⟨app, happ, hsession, hinit⟩, htook, hdue, hstays⟩ := h
  rw [← hdevice] at htook
  obtain ⟨outcome, t, hrun, ht, -, hsettled, -⟩ := processPacket_repeated app.version
    (env_working atomicCommit hscript hinit n.device) rfl Bool.false_ne_true hcommand htook
  obtain ⟨rfl, hd⟩ := hsettled hdue
  rw [← hsession] at hrun
  have hdone := processPacket_done atomicCommit hrun (by rw [hsession]; exact hstays)
  rw [act_packet build atomicCommit happ, hdone]
  rw [hdevice] at htook
  refine ⟨⟨hd.trans hdevice, ⟨_, rfl, ?_, ht.initialized rfl⟩, htook, hdue, hstays⟩, ?_⟩
  · rw [hsession]
    rfl
  · rw [hsession]
    rfl

theorem Acknowledged.deliver {g : Session} {d : Device} (h : Acknowledged n request g d)
    (hcommand : request.command = OtaCommand.data.code) {scripts : List (List Outcome)}
    (hscripts : ∀ script ∈ scripts, Working script) :
    Acknowledged (n.deliver build atomicCommit request scripts) request g d := by
  unfold Node.deliver
  induction scripts generalizing n with
  | nil => exact h
  | cons script scripts ih =>
      rw [List.map_cons, run_cons]
      exact ih (h.act build atomicCommit hcommand (hscripts script List.mem_cons_self)).1
        fun script' hmem => hscripts script' (List.mem_cons_of_mem _ hmem)

theorem Acknowledged.session {g : Session} {d : Device} (h : Acknowledged n request g d) :
    n.session? = some (ack g request).1 := by
  obtain ⟨-, ⟨app, happ, hsession, -⟩, -⟩ := h
  rw [session?, happ, Option.map_some, hsession]

theorem Acknowledged.settled {g : Session} {d : Device} (h : Acknowledged n request g d)
    (hcommand : request.command = OtaCommand.data.code) :
    n.Settled build atomicCommit request (ack g request).2 := by
  intro scripts hscripts
  have hlater := h.deliver build atomicCommit hcommand hscripts
  refine ⟨hlater.device.trans h.device.symm, hlater.session.trans h.session.symm, ?_⟩
  intro script hscript
  exact (hlater.act build atomicCommit hcommand hscript).2

end Steps

/-- A packet is answered and the session moves on. -/
structure Stores (n : Node) (request : OtaPacket) (script : List Outcome) (n' : Node)
    (response : OtaPacket) : Prop where
  answered : n.act build atomicCommit (.packet request script) = (n', some response)
  progress : ∃ app app', n.app = some app ∧ n'.app = some app' ∧
    app'.session.nextOffset ≠ app.session.nextOffset

/-- The answer is an `ACK`. -/
def IsAck (response : OtaPacket) : Prop := response.command = OtaCommand.ack.code

/-- What a packet that is stored does to the node. -/
structure Delivered (n : Node) (app : App) (request : OtaPacket)
    (outcome : RecordStorageStatus × Session) (n' : Node) : Prop where
  delivers : Delivers app.session request n.device outcome n'.device
  running : ∃ app', n'.app = some app' ∧
    app'.session = (replyCheckpoint outcome.2 request outcome.1).1 ∧
    app'.spi.initialized = true
  stays : (replyCheckpoint outcome.2 request outcome.1).1.resetPending = false

section Delivery

variable {n n' : Node} {app : App} {request response : OtaPacket} {script : List Outcome}
  {outcome : RecordStorageStatus × Session}

theorem Stores.delivered (h : n.Stores build atomicCommit request script n' response)
    (hsound : n.SoundSession) (hcommand : request.command = OtaCommand.data.code)
    (happ : n.app = some app) :
    Takes app.session request ∧ app.spi.initialized = true ∧
      Fits app.session request n.device ∧ ∃ outcome, n.Delivered app request outcome n' ∧
        response = (replyCheckpoint outcome.2 request outcome.1).2 := by
  obtain ⟨hact, app₀, app', happ₀, happ', hprogress⟩ := h
  rw [happ] at happ₀
  cases happ₀
  rw [act_packet build atomicCommit happ] at hact
  obtain ⟨t, hrun, hd, hspi, hstays⟩ := processPacket_some atomicCommit hact happ'
  obtain ⟨htakes, hinit, hinit', hfits, outcome, hr, hdelivers⟩ :=
    delivers_of_progress (hsound app happ) hcommand hrun hprogress
  have hsession : app'.session = (replyCheckpoint outcome.2 request outcome.1).1 :=
    congrArg Prod.fst hr
  refine ⟨htakes, hinit, hfits, outcome, ⟨?_, ⟨app', happ', hsession, ?_⟩, ?_⟩,
    congrArg Prod.snd hr⟩
  · rw [hd]
    exact hdelivers
  · rw [hspi]
    exact hinit'
  · rw [← hsession]
    exact hstays

/-- A first delivery that is acknowledged leaves nothing to be done. -/
theorem Delivered.acknowledged (h : n.Delivered app request outcome n')
    (hg : Checkpointable app.session) (htakes : Takes app.session request)
    (hok : outcome.1 = .ok) : n'.Acknowledged request outcome.2 n'.device := by
  have hreply : replyCheckpoint outcome.2 request outcome.1 = ack outcome.2 request := if_pos hok
  obtain ⟨app', happ', hsession, hinit⟩ := h.running
  have hstays := h.stays
  rw [hreply] at hsession hstays
  exact ⟨rfl, ⟨app', happ', hsession, hinit⟩, (h.delivers.justTook hg htakes).setStatus .ok 0,
    h.delivers.not_due hok, hstays⟩

/-- With working flash the packet would have been acknowledged. -/
theorem stores_working (hg : Checkpointable app.session) (happ : n.app = some app)
    (hstays : app.session.resetPending = false) (htakes : Takes app.session request)
    (hinit : app.spi.initialized = true) (hfits : Fits app.session request n.device)
    (hscript : Working script) :
    ∃ n' response, n.Stores build atomicCommit request script n' response ∧ IsAck response := by
  obtain ⟨hcommand, -, -, hpos, hmax, -, hnext⟩ := id htakes
  have heffects := storeData_effects (env_working atomicCommit hscript hinit n.device) hg hnext hpos
  obtain ⟨r, t, hdone, ht, hr⟩ := heffects.exists_done rfl
  obtain ⟨-, hbad⟩ | ⟨-, outcome, rfl, hdelivers, hok⟩ := hr
  · exact absurd hfits (hbad.resolve_left Bool.false_ne_true)
  have hok := hok.resolve_right Bool.false_ne_true
  have hrun : OtaReceiver.processPacket app.version app.session request
      (machine atomicCommit app script n.device) =
        .done (replyCheckpoint outcome.2 request outcome.1) t := by
    rw [processPacket_data hcommand, processData_of_takes htakes]
    exact hdone
  have hfields : (replyCheckpoint outcome.2 request outcome.1).1.resetPending = false ∧
      (replyCheckpoint outcome.2 request outcome.1).1.nextOffset ≠ app.session.nextOffset := by
    have hmoved : app.session.nextOffset + UInt32.ofNat request.payload.length ≠
        app.session.nextOffset := by
      intro heq
      have hroom := (refuseData_eq_none.1 hnext).2.2
      rw [remaining_toNat hg.offset_le] at hroom
      have hle := hg.offset_le
      have hsize := hg.size_le
      have hnat := congrArg UInt32.toNat heq
      rw [toNat_add_length (by omega)] at hnat
      omega
    rw [replyCheckpoint_nextOffset, replyCheckpoint, if_pos hok]
    by_cases hdue : Due (storedSession app.session request n.device)
    · rw [((hdelivers.due hdue).committed hok).1]
      exact ⟨hstays, hmoved⟩
    · rw [(hdelivers.settled hdue).1]
      exact ⟨hstays, hmoved⟩
  have hanswer := processPacket_done atomicCommit hrun hfields.1
  refine ⟨_, _, ⟨(act_packet build atomicCommit happ request script).trans hanswer, app, _, happ,
    rfl, hfields.2⟩, ?_⟩
  exact (replyCheckpoint_isAck outcome.2 request outcome.1).2 hok

/-- The session of a stored packet once its checkpoint is committed. -/
def checkpointed (app : App) (request : OtaPacket) (d : Device) : Session :=
  { storedSession app.session request d with
    persistedOffset := (storedSession app.session request d).nextOffset }

/-- A delivery that succeeds although a checkpoint is due. -/
theorem Delivered.succeeded (h : n.Delivered app request outcome n')
    (hdue : Due (storedSession app.session request n.device)) (hok : outcome.1 = .ok) :
    outcome.2 = checkpointed app request n.device ∧
      n'.device.checkpoint = some (dueRecord (storedSession app.session request n.device)
        (storedDevice app.session request n.device)) :=
  (h.delivers.due hdue).committed hok

theorem Delivered.incoming (h : n.Delivered app request outcome n')
    (hdue : Due (storedSession app.session request n.device)) {i : Nat}
    (hi : i < ExternalPartition.incoming.size) :
    n'.device.part .incoming i =
      (storedDevice app.session request n.device).part .incoming i :=
  incoming_of_checkpoint (h.delivers.due hdue).frame hi

/-- The second delivery commits the checkpoint that the first one could not. -/
theorem Delivered.repaired (h : n.Delivered app request outcome n')
    (hg : Checkpointable app.session) (htakes : Takes app.session request)
    (hfailed : outcome.1 ≠ .ok) (hscript : Working script) :
    ∃ n₂, n'.act build atomicCommit (.packet request script) =
        (n₂, some (ack (checkpointed app request n.device) request).2) ∧
      n₂.Acknowledged request (checkpointed app request n.device) n₂.device ∧
      DownloadCheckpointStorage.CheckpointFrame n'.device n₂.device ∧
      ∃ c, n₂.device.checkpoint = some c ∧ SameCheckpoint
        (dueRecord (storedSession app.session request n.device)
          (storedDevice app.session request n.device)) c := by
  have hdue := h.delivers.due_of_failed hfailed
  have hstored : outcome.2 = storedSession app.session request n.device :=
    (h.delivers.due hdue).failed hfailed
  have htook := h.delivers.justTook hg htakes
  obtain ⟨app', happ', hsession, hinit⟩ := h.running
  have hstays := h.stays
  have hreply : replyCheckpoint outcome.2 request outcome.1 =
      nack outcome.2 request .storageError (checkpointErrorDetail outcome.1) := if_neg hfailed
  rw [hreply, hstored] at hsession hstays
  rw [hstored] at htook
  generalize checkpointErrorDetail outcome.1 = detail at hsession hstays
  have htook' : JustTook app'.session request n'.device := by
    rw [hsession]
    exact htook.setStatus _ _
  obtain ⟨outcome₂, t, hrun, ht, hok, -, hcommit⟩ := processPacket_repeated app'.version
    (env_working atomicCommit hscript hinit n'.device) rfl Bool.false_ne_true htakes.1 htook'
  have hdue' : Due app'.session := by
    rw [hsession]
    exact hdue
  have hattempted := hcommit hdue'
  obtain ⟨hsession₂, hcheckpoint⟩ := hattempted.committed hok
  have hreply₂ : replyCheckpoint outcome₂.2 request outcome₂.1 =
      ack (checkpointed app request n.device) request := by
    rw [replyCheckpoint, if_pos hok, hsession₂, hsession]
    rfl
  rw [hreply₂] at hrun
  refine ⟨⟨t.device, _⟩, (act_packet build atomicCommit happ' request script).trans
    (processPacket_done atomicCommit hrun hstays), ⟨rfl, ⟨_, rfl, rfl, ht.initialized rfl⟩, ?_, ?_,
      hstays⟩, hattempted.frame, _, hcheckpoint, ?_⟩
  · exact (htook.persisted _ hattempted.frame).setStatus .ok 0
  · exact not_due_persisted _
  · refine sameCheckpoint_due _ _ ?_
    rw [hsession]
    rfl

theorem Delivered.stayed (h : n.Delivered app request outcome n') :
    app.session.resetPending = false := by
  have hstays := h.stays
  have hsame : (replyCheckpoint outcome.2 request outcome.1).1.resetPending =
      outcome.2.resetPending := by
    unfold replyCheckpoint
    split <;> rfl
  rw [hsame] at hstays
  by_cases hdue : Due (storedSession app.session request n.device)
  · by_cases hok : outcome.1 = .ok
    · rw [((h.delivers.due hdue).committed hok).1] at hstays
      exact hstays
    · rw [(h.delivers.due hdue).failed hok] at hstays
      exact hstays
  · rw [(h.delivers.settled hdue).1] at hstays
    exact hstays

end Delivery

end Node

open OtaReceiver Node

/-- A node that has been through anything stores a `DATA` packet.  If it acknowledges the packet,
sending it again while the flash works changes nothing, and is answered as the first time.  If it
does not, the packet is stored but its checkpoint is not committed; the next delivery with working
flash commits it and is acknowledged, later ones change nothing, and session, incoming partition
and checkpoint are those of a delivery that was acknowledged at once, up to the generation. -/
theorem retransmission_idempotent (build : Build) (atomicCommit : Bool) (d : Device)
    (actions : List Action) (n : Node) (hn : n = Node.run build atomicCommit ⟨d, none⟩ actions)
    (request : OtaPacket) (hdata : request.command = OtaCommand.data.code)
    (script : List Outcome) (n' : Node) (response : OtaPacket)
    (hstores : n.Stores build atomicCommit request script n' response) :
    (IsAck response → n'.Settled build atomicCommit request response) ∧
    (¬ IsAck response → ∀ again, Working again → ∃ n₂ response₂,
      n'.act build atomicCommit (.packet request again) = (n₂, some response₂) ∧
      IsAck response₂ ∧ n₂.Settled build atomicCommit request response₂ ∧
      (∀ script₁, Working script₁ → ∃ n₁ response₁,
        n.Stores build atomicCommit request script₁ n₁ response₁ ∧ IsAck response₁) ∧
      ∀ script₁ n₁ response₁, n.Stores build atomicCommit request script₁ n₁ response₁ →
        IsAck response₁ →
        response₂ = response₁ ∧ n₂.session? = n₁.session? ∧
        (∀ i < ExternalPartition.incoming.size,
          n₂.device.part .incoming i = n₁.device.part .incoming i) ∧
        ∃ c₁ c₂, n₁.device.checkpoint = some c₁ ∧ n₂.device.checkpoint = some c₂ ∧
          SameCheckpoint c₁ c₂) := by
  have hsound : n.SoundSession := by
    rw [hn]
    exact run_soundSession (soundSession_off d) actions
  obtain ⟨app, app', happ, -⟩ := hstores.progress
  obtain ⟨htakes, hinit, hfits, outcome, hdelivered, rfl⟩ :=
    hstores.delivered build atomicCommit hsound hdata happ
  have hg : Checkpointable app.session := hsound app happ htakes.2.1
  unfold IsAck
  rw [replyCheckpoint_isAck]
  constructor
  · intro hok
    have hack := hdelivered.acknowledged hg htakes hok
    have hsettled := hack.settled build atomicCommit hdata
    rwa [replyCheckpoint, if_pos hok]
  · intro hfailed again hagain
    have hdue := hdelivered.delivers.due_of_failed hfailed
    obtain ⟨n₂, hact, hack, hframe, c₂, hc₂, hsame⟩ :=
      hdelivered.repaired build atomicCommit hg htakes hfailed hagain
    refine ⟨n₂, _, hact, ack_command _ _, hack.settled build atomicCommit hdata, ?_, ?_⟩
    · intro script₁ hscript₁
      exact stores_working build atomicCommit hg happ hdelivered.stayed htakes hinit hfits hscript₁
    · intro script₁ n₁ response₁ hstores₁ hack₁
      obtain ⟨-, -, -, outcome₁, hdelivered₁, rfl⟩ :=
        hstores₁.delivered build atomicCommit hsound hdata happ
      have hok₁ : outcome₁.1 = .ok := (replyCheckpoint_isAck _ _ _).1 hack₁
      obtain ⟨houtcome₁, hc₁⟩ := hdelivered₁.succeeded hdue hok₁
      have hsession₁ := (hdelivered₁.acknowledged hg htakes hok₁).session
      rw [replyCheckpoint, if_pos hok₁, houtcome₁]
      refine ⟨rfl, ?_, fun i hi => ?_, _, c₂, hc₁, hc₂, hsame⟩
      · rw [hack.session, hsession₁, houtcome₁]
      · rw [incoming_of_checkpoint hframe hi, hdelivered.incoming hdue hi,
          hdelivered₁.incoming hdue hi]

/-- A node that was reset in the middle of a download, and the first packet after that. -/
theorem retransmission_idempotent_reset :
    ∃ n' response, (Node.run factoryBuild true ⟨interruptedDevice, none⟩
        [.powerUp [] 1 0 []]).Stores factoryBuild true smallData [] n' response ∧
      IsAck response ∧ n'.Settled factoryBuild true smallData response := by
  let n := Node.run factoryBuild true ⟨interruptedDevice, none⟩ [.powerUp [] 1 0 []]
  have hbefore : n.app.map (fun app => app.session.nextOffset) = some 0 := by decide +kernel
  have hafter : (n.act factoryBuild true (.packet smallData [])).1.app.map
      (fun app => app.session.nextOffset) = some 3 := by decide +kernel
  have hanswer : (n.act factoryBuild true (.packet smallData [])).2.map
      (fun response => response.command) = some OtaCommand.ack.code := by decide +kernel
  obtain ⟨app, happ, hoffset⟩ := Option.map_eq_some_iff.1 hbefore
  obtain ⟨app', happ', hoffset'⟩ := Option.map_eq_some_iff.1 hafter
  obtain ⟨response, hresponse, hack⟩ := Option.map_eq_some_iff.1 hanswer
  have hpair : ∀ p : Node × Option OtaPacket, p.2 = some response → p = (p.1, some response) :=
    fun p hp => Prod.ext rfl hp
  have hstores : n.Stores factoryBuild true smallData []
      (n.act factoryBuild true (.packet smallData [])).1 response := by
    refine ⟨hpair _ hresponse, app, app', happ, happ', ?_⟩
    rw [hoffset, hoffset']
    decide
  exact ⟨_, response, hstores, hack, (retransmission_idempotent factoryBuild true
    interruptedDevice _ n rfl smallData rfl [] _ response hstores).1 hack⟩

end SecureDeltaOta
