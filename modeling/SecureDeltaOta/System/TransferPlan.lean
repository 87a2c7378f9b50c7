import SecureDeltaOta.Gateway.UartOtaClient
import SecureDeltaOta.System.DownloadIntegrity
import SecureDeltaOta.System.SessionSoundness

/-!
# Transfers that are taken up again

Whatever is lost, repeated or interrupted, a node that receives an artifact from
a gateway reports an offset between two packets, or the end of the artifact. The
gateway takes up such a transfer, except one that has all of its bytes and does
not end between two full packets.
-/

namespace SecureDeltaOta

open Memory Crash

open UartOta (maxPayload sendData selectPlan parseHello resumeTransfer)

namespace OtaReceiver

/-- A packet of data is one that a gateway sends of the artifact with this id. -/
def SentBy (artifacts : UInt32 → UartOtaArtifact) (request : OtaPacket) : Prop :=
  request.command = OtaCommand.data.code → ∃ start, start % maxPayload = 0 ∧
    request ∈ sendData (artifacts request.updateId) start (UInt16.ofNat (start / maxPayload))

/-- A session that receives stands between two packets of its artifact. -/
structure Paced (artifacts : UInt32 → UartOtaArtifact) (g : Session) : Prop where
  sound : Sound g
  offset : g.state = .receiving → g.nextOffset.toNat % maxPayload = 0 ∨
    g.nextOffset = (artifacts g.updateId).imageSize

variable {artifacts : UInt32 → UartOtaArtifact}

theorem init_paced (version : UInt32) : Returns (init version) (Paced artifacts) := by
  intro s g t hinit
  refine ⟨(init_servable version s g t hinit).sound, fun hreceiving => .inl ?_⟩
  rcases init_session version s g t hinit with ⟨st, hst, hstate⟩ | ⟨g₀, record, hvalid, hopen, rfl⟩
  · rw [hreceiving] at hstate
    subst hstate
    exact absurd hst (by decide)
  · obtain ⟨-, -, -, -, -, hsession, -⟩ := DownloadCheckpoint.validate_eq_valid.1 hvalid
    obtain ⟨-, -, -, -, ⟨-, haligned⟩ | ⟨hready, -⟩⟩ :=
      DownloadCheckpoint.sessionFieldsValid_iff.1 (hsession hopen)
    · have hoffset : (restored g₀ record).nextOffset = record.nextOffset := rfl
      rw [hoffset]
      unfold maxPayload
      unfold extFlashSectorSize at haligned
      omega
    · unfold restored at hreceiving
      simp [hready] at hreceiving

/-- A packet of the artifact ends between two packets, or with the artifact. -/
theorem advanced_paced {g : Session} {request : OtaPacket} (hsent : SentBy artifacts request)
    (hcommand : request.command = OtaCommand.data.code) (hid : request.updateId = g.updateId)
    (hnext : refuseData g request = none) :
    (advanced g request).nextOffset.toNat % maxPayload = 0 ∨
      (advanced g request).nextOffset = (artifacts g.updateId).imageSize := by
  obtain ⟨start, hstart, hmem⟩ := hsent hcommand
  obtain ⟨o, hlt, haligned, hoffset, hlength⟩ := UartOta.mem_sendData hstart hmem
  rw [hid] at hlt hlength
  have hsize := (artifacts g.updateId).imageSize.toNat_lt
  have hword : UInt32.size = 2 ^ 32 := rfl
  have hsum : (advanced g request).nextOffset.toNat = o + request.payload.length := by
    have hsame : (advanced g request).nextOffset =
        UInt32.ofNat o + UInt32.ofNat request.payload.length := by
      rw [← hoffset, (refuseData_eq_none.1 hnext).2.1]
      rfl
    rw [hsame, UInt32.toNat_add, UInt32.toNat_ofNat_of_lt' (by omega),
      UInt32.toNat_ofNat_of_lt' (by omega)]
    omega
  rcases Nat.le_total maxPayload ((artifacts g.updateId).imageSize.toNat - o) with hfull | hlast
  · refine .inl ?_
    rw [hsum, hlength, min_eq_right hfull, Nat.add_mod_right]
    exact haligned
  · refine .inr (UInt32.toNat.inj ?_)
    rw [hsum, hlength, min_eq_left hlast]
    omega

theorem processPacket_paced {request : OtaPacket} (hsent : SentBy artifacts request)
    {g : Session} (h : Paced artifacts g) (version : UInt32) :
    Returns (processPacket version g request) (fun r => Paced artifacts r.1) := by
  intro s r t hrun
  refine ⟨processPacket_returns h.sound s r t hrun, fun hreceiving => ?_⟩
  cases processPacket_progress version g request s r t hrun with
  | same hsame =>
      rw [hsame.nextOffset, hsame.updateId]
      exact h.offset (hsame.state.symm.trans hreceiving)
  | opened _ _ hsame =>
      rw [hsame.nextOffset]
      exact .inl rfl
  | advanced hcommand _ hid hnext hsame =>
      rw [hsame.nextOffset, hsame.updateId]
      exact advanced_paced hsent hcommand hid hnext
  | ready _ hsame =>
      rw [hsame.state] at hreceiving
      cases hreceiving
  | closed st hst hclosed =>
      rw [hreceiving] at hclosed
      subst hclosed
      exact absurd hst (by decide)

end OtaReceiver

namespace Node

/-- The answer to a packet that no flash operation is needed for. -/
theorem act_answer (build : Build) (atomicCommit : Bool) {n : Node} {app : App}
    (happ : n.app = some app) {request : OtaPacket} {reply : OtaReceiver.Reply}
    (hpure : OtaReceiver.processPacket app.version app.session request = pure reply)
    (script : List Outcome) :
    (n.act build atomicCommit (.packet request script)).2 = some reply.2 := by
  rw [act_packet build atomicCommit happ, processPacket, hpure]
  rfl

/-- All bytes of an artifact are there, and the last packet was not a full one. -/
def EndsShort (artifact : UartOtaArtifact) (g : Session) : Prop :=
  g.nextOffset = artifact.imageSize ∧ artifact.imageSize.toNat % maxPayload ≠ 0

/--
A gateway that finds its own transfer takes it up at the offset of the node,
unless all bytes are there and the last packet was not a full one: then it
discards the transfer, and would refuse to resume it.
-/
theorem own_transfer_resumed_iff (build : Build) (atomicCommit : Bool) {n : Node}
    (hoff : n.app = none) (artifacts : UInt32 → UartOtaArtifact) {actions : List Action}
    (hsent : ∀ request script, .packet request script ∈ actions →
      OtaReceiver.SentBy artifacts request) {app : App}
    (happ : (n.run build atomicCommit actions).app = some app)
    (hreceiving : app.session.state = .receiving) (script : List Outcome)
    {artifact : UartOtaArtifact} (hartifact : artifact = artifacts app.session.updateId)
    (hown : artifact.updateId = app.session.updateId ∧
      artifact.imageSize = app.session.expectedSize) (hversion : artifact.targetVersion ≠ 0) :
    let n' := n.run build atomicCommit actions
    ∃ hello info ack,
      (n'.act build atomicCommit (.packet UartOta.queryRequest script)).2 = some hello ∧
      parseHello hello = some info ∧
      (n'.act build atomicCommit (.packet (UartOta.resumeRequest artifact) script)).2 = some ack ∧
      (¬ EndsShort artifact app.session →
        selectPlan info artifact.updateId artifact.imageSize artifact.targetVersion = .resume ∧
        resumeTransfer artifact ack = some app.session.nextOffset) ∧
      (EndsShort artifact app.session →
        selectPlan info artifact.updateId artifact.imageSize artifact.targetVersion =
          .abortForeign ∧
        resumeTransfer artifact ack = none) := by
  intro n'
  have hpaced : OtaReceiver.Paced artifacts app.session :=
    run_sessions OtaReceiver.init_paced
      (fun request script hmem version _ hg =>
        OtaReceiver.processPacket_paced (hsent request script hmem) hg version)
      (sessions_off hoff) app happ
  obtain ⟨hid, hsize⟩ := hown
  have hdownload := hpaced.sound hreceiving
  have hle : app.session.nextOffset ≤ artifact.imageSize := by
    rw [hsize, UInt32.le_iff_toNat_le]
    exact hdownload.offset_le
  have hfields : artifact.updateId ≠ 0 ∧ artifact.imageSize ≠ 0 ∧ artifact.targetVersion ≠ 0 := by
    rw [hid, hsize]
    exact ⟨hdownload.updateId, hdownload.size_pos, hversion⟩
  have hstate : OtaResponse.stateByte app.session.state = OtaResponse.stateByte .receiving := by
    rw [hreceiving]
  have hresume : OtaReceiver.processResume app.session (UartOta.resumeRequest artifact) =
      OtaReceiver.ack app.session (UartOta.resumeRequest artifact) := by
    simp [OtaReceiver.processResume, UartOta.resumeRequest, hreceiving, hid]
  have hanswer := UartOta.resumeTransfer_buildAck artifact (UartOta.resumeRequest artifact)
    (OtaReceiver.getResponseInfo (OtaReceiver.setStatus app.session .ok 0)) hle
  refine ⟨_, _, _, act_answer build atomicCommit happ rfl script,
    UartOta.parseHello_buildHelloQuery _ _ _,
    act_answer build atomicCommit happ (congrArg pure hresume) script, ?_, ?_⟩
  · intro hlong
    have haligned : app.session.nextOffset.toNat % maxPayload = 0 := by
      by_contra hodd
      have hend := (hpaced.offset hreceiving).resolve_left hodd
      rw [← hartifact] at hend
      exact hlong ⟨hend, hend ▸ hodd⟩
    exact ⟨(UartOta.selectPlan_own hstate hfields hid.symm hsize.symm hle).trans (if_pos haligned),
      hanswer.trans (if_pos haligned)⟩
  · intro hshort
    have hodd : ¬ app.session.nextOffset.toNat % maxPayload = 0 := by
      rw [hshort.1]
      exact hshort.2
    exact ⟨(UartOta.selectPlan_own hstate hfields hid.symm hsize.symm hle).trans (if_neg hodd),
      hanswer.trans (if_neg hodd)⟩

/-- An artifact of 205 bytes. -/
def smallArtifact : UartOtaArtifact := ⟨7, 2, 205, fun _ => 0x5A⟩

/-- A node that has received all of it, and not yet its `FINISH`. -/
def received : List Action :=
  [.powerUp [] 1 0 [], .packet smallStart [],
    .packet ⟨OtaCommand.data.code, 7, 0, 0, window smallArtifact.image 0 205⟩ []]

/-- The gateway that sent it discards it. -/
theorem own_transfer_resumed_iff_received :
    ∃ hello info, (((Node.mk factory none).run factoryBuild true received).act factoryBuild true
        (.packet UartOta.queryRequest [])).2 = some hello ∧ parseHello hello = some info ∧
      selectPlan info 7 205 2 = .abortForeign := by
  have hrun : (((Node.mk factory none).run factoryBuild true received).app.map fun app =>
      decide (app.session.state = .receiving ∧ 7 = app.session.updateId ∧
        205 = app.session.expectedSize ∧ app.session.nextOffset = 205)) = some true := by
    decide +kernel
  obtain ⟨app, happ, hsession⟩ := Option.map_eq_some_iff.1 hrun
  obtain ⟨hstate, hid, hsize, hend⟩ := of_decide_eq_true hsession
  have hsent : ∀ request script, .packet request script ∈ received →
      OtaReceiver.SentBy (fun _ => smallArtifact) request := by
    intro request script hmem hdata
    simp only [received, List.mem_cons, reduceCtorEq, Action.packet.injEq, List.not_mem_nil,
      or_false, false_or] at hmem
    rcases hmem with ⟨rfl, -⟩ | ⟨rfl, -⟩
    · exact absurd hdata (by decide)
    · refine ⟨0, rfl, ?_⟩
      rw [sendData, if_pos (by decide)]
      exact .head _
  obtain ⟨hello, info, ack, hhello, hinfo, -, -, hshort⟩ :=
    own_transfer_resumed_iff factoryBuild true rfl (fun _ => smallArtifact) hsent happ hstate []
      rfl ⟨hid, hsize⟩ (by decide)
  exact ⟨hello, info, hhello, hinfo, (hshort ⟨hend, by decide⟩).1⟩

end Node

end SecureDeltaOta
