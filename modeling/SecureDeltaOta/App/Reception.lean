import SecureDeltaOta.App.Download

/-!
# What a download has received

A transfer is a download as its sender sees it: the bytes that were taken since
the `START` that opened it. No program knows it; it says what the session in
memory, the checkpoint and the partition of incoming artifacts are about. The
answer to every packet keeps the three in step with the transfer, and so does a
power cut while the packet is processed.
-/

namespace SecureDeltaOta

open Memory Crash

namespace OtaReceiver

/-- The packet is the next one of the session. -/
def Takes (g : Session) (request : OtaPacket) : Prop :=
  request.command = OtaCommand.data.code ∧ g.state = .receiving ∧ request.updateId = g.updateId ∧
    0 < request.payload.length ∧ request.payload.length ≤ otaMaxPayloadSize ∧
    repeatsLastData g request = false ∧ refuseData g request = none

instance (g : Session) (request : OtaPacket) : Decidable (Takes g request) :=
  inferInstanceAs (Decidable (_ ∧ _))

/--
A download: what its `START` announced and the bytes taken since. What a node
holds that was not watched from its `START` on is not `observed`.
-/
structure Transfer where
  updateId : UInt32
  targetVersion : UInt32
  artifactSize : UInt32
  artifactCrc32 : UInt32
  bytes : List UInt8
  observed : Bool
  deriving DecidableEq, Repr

namespace Transfer

/-- The transfer a `START` opens. -/
def start (request : OtaPacket) : Transfer where
  updateId := request.updateId
  targetVersion := (parseStart request.payload).targetVersion
  artifactSize := (parseStart request.payload).artifactSize
  artifactCrc32 := (parseStart request.payload).artifactCrc32
  bytes := []
  observed := true

def append (t : Transfer) (payload : List UInt8) : Transfer :=
  { t with bytes := t.bytes ++ payload }

/-- What a request adds that takes effect; a repeated packet adds nothing. -/
def accepted (t : Transfer) (g : Session) (request : OtaPacket) : Transfer :=
  if request.command = OtaCommand.start.code then start request
  else if request.command = OtaCommand.data.code ∧ repeatsLastData g request = false then
    t.append request.payload
  else t

/-- A request takes effect when it is acknowledged. -/
def answered (t : Transfer) (g : Session) (request response : OtaPacket) : Transfer :=
  if response.command = OtaCommand.ack.code then t.accepted g request else t

/-- A request that power is lost under takes effect when its checkpoint is there. -/
def interrupted (t : Transfer) (g : Session) (request : OtaPacket) (d d' : Device) : Transfer :=
  if d'.checkpoint = d.checkpoint then t else t.accepted g request

/-- A restored session has lost what came after its checkpoint. -/
def restored (t : Transfer) (g : Session) : Transfer :=
  if g.state = .receiving ∨ g.state = .artifactReady then
    { t with bytes := t.bytes.take g.nextOffset.toNat }
  else t

theorem answered_nack {t : Transfer} {g : Session} {request response : OtaPacket}
    (h : response.command ≠ OtaCommand.ack.code) : t.answered g request response = t :=
  if_neg h

theorem answered_ack {t : Transfer} {g : Session} {request response : OtaPacket}
    (h : response.command = OtaCommand.ack.code) :
    t.answered g request response = t.accepted g request :=
  if_pos h

theorem accepted_start {t : Transfer} {g : Session} {request : OtaPacket}
    (h : request.command = OtaCommand.start.code) : t.accepted g request = start request :=
  if_pos h

theorem accepted_data {t : Transfer} {g : Session} {request : OtaPacket}
    (h : request.command = OtaCommand.data.code) (hnew : repeatsLastData g request = false) :
    t.accepted g request = t.append request.payload := by
  unfold accepted
  rw [if_neg (by rw [h]; decide), if_pos ⟨h, hnew⟩]

theorem accepted_repeated {t : Transfer} {g : Session} {request : OtaPacket}
    (h : request.command = OtaCommand.data.code) (hrepeats : repeatsLastData g request = true) :
    t.accepted g request = t := by
  unfold accepted
  rw [if_neg (by rw [h]; decide), if_neg (by simp [hrepeats])]

theorem accepted_other {t : Transfer} {g : Session} {request : OtaPacket} {c : OtaCommand}
    (hcommand : request.command = c.code) (hother : c ∉ [.start, .data]) :
    t.accepted g request = t := by
  have hne : ∀ c', c' ∈ [OtaCommand.start, .data] → request.command ≠ c'.code := by
    rintro c' hc' hbad
    rw [hcommand] at hbad
    exact hother (OtaCommand.code_injective hbad ▸ hc')
  unfold accepted
  rw [if_neg (hne _ (by simp)), if_neg fun h => hne _ (by simp) h.1]

/-- An answer to a request that carries nothing. -/
theorem answered_other {t : Transfer} {g : Session} {request response : OtaPacket} {c : OtaCommand}
    (hcommand : request.command = c.code) (hother : c ∉ [.start, .data]) :
    t.answered g request response = t := by
  unfold answered
  rw [accepted_other hcommand hother, ite_self]

end Transfer

theorem not_takes_of_command {g : Session} {request : OtaPacket} {c : OtaCommand}
    (hcommand : request.command = c.code) (hother : c ≠ .data) : ¬ Takes g request := by
  rintro ⟨hdata, -⟩
  rw [hcommand] at hdata
  exact hother (OtaCommand.code_injective hdata)

/-! ## The invariant -/

/-- What a checkpoint says of the transfer. -/
structure Covers (t : Transfer) (d : Device) (c : DownloadCheckpointRecord) : Prop where
  updateId : c.updateId = t.updateId
  targetVersion : c.targetVersion = t.targetVersion
  size : c.imageSize = t.artifactSize
  crc : c.imageCrc32 = t.artifactCrc32
  bytes : d.slice .incoming 0 c.nextOffset.toNat = t.bytes.take c.nextOffset.toNat
  ready : c.state = DownloadCheckpointState.artifactReady.code →
    t.bytes.length = c.nextOffset.toNat ∧
      (t.observed = true → Crc32.calculate t.bytes = t.artifactCrc32)

/-- An open checkpoint covers a part of the transfer. -/
def Stored (t : Transfer) (d : Device) : Prop :=
  ∀ c, d.checkpoint = some c → c.state ≠ DownloadCheckpointState.idle.code → Covers t d c

/-- The session in memory is about the transfer. -/
structure About (t : Transfer) (g : Session) : Prop where
  updateId : g.updateId = t.updateId
  targetVersion : g.targetVersion = t.targetVersion
  size : g.expectedSize = t.artifactSize
  crc : g.artifactCrc32 = t.artifactCrc32

/-- The bytes below the next offset are the ones of the transfer. -/
structure Carries (t : Transfer) (g : Session) (d : Device) : Prop extends About t g where
  bytes : d.slice .incoming 0 g.nextOffset.toNat = t.bytes

/-- The invariant of the receiver. -/
structure Tracks (t : Transfer) (g : Session) (d : Device) : Prop where
  storageReady : g.storageReady = true
  stored : Stored t d
  receiving : g.state = .receiving → Receiving g d ∧ Carries t g d
  ready : g.state = .artifactReady →
    Ready g d ∧ Carries t g d ∧
      (t.observed = true → Crc32.calculate t.bytes = t.artifactCrc32)

section Congruence

variable {t : Transfer} {g : Session} {d d' : Device}

theorem Stored.congr (h : Stored t d)
    (hincoming : ∀ i < ExternalPartition.incoming.size, d'.part .incoming i = d.part .incoming i)
    (hcheckpoint : d'.checkpoint = d.checkpoint) : Stored t d' := by
  intro c hc hopen
  rw [hcheckpoint] at hc
  have hcovers := h c hc hopen
  refine { hcovers with bytes := ?_ }
  rw [← hcovers.bytes]
  have hle := DownloadCheckpoint.nextOffset_le (Device.checkpoint_valid hc)
  exact Device.slice_congr hincoming (by rw [Nat.zero_add]; exact hle)

theorem stored_of_idle (h : d.CheckpointIdle) : Stored t d := by
  obtain ⟨c, hc, hidle⟩ := h
  intro c' hc' hopen
  rw [hc] at hc'
  cases hc'
  exact absurd hidle hopen

theorem carries_congr (h : Carries t g d) (hle : g.nextOffset.toNat ≤ extIncomingSize)
    (hincoming : ∀ i < ExternalPartition.incoming.size, d'.part .incoming i = d.part .incoming i) :
    Carries t g d' := by
  refine ⟨h.toAbout, ?_⟩
  rw [← h.bytes]
  exact Device.slice_congr hincoming (by rw [Nat.zero_add]; exact hle)

/-- A session without a download says nothing of the transfer. -/
theorem tracks_of_closed (st : UpdateState) (hready : g.storageReady = true) (hstored : Stored t d)
    (hstate : g.state = st) (hclosed : st ∉ [.receiving, .artifactReady]) : Tracks t g d := by
  refine ⟨hready, hstored, fun h => absurd ?_ hclosed, fun h => absurd ?_ hclosed⟩
  · simp [← hstate, h]
  · simp [← hstate, h]

/-- What a session reports of itself is not part of the invariant. -/
theorem Tracks.report (h : Tracks t g d) (status : OtaStatus) (detail : UInt32) (pending : Bool) :
    Tracks t { g with lastStatus := status, lastErrorDetail := detail, resetPending := pending }
      d := by
  refine ⟨h.storageReady, h.stored, fun hstate => ?_, fun hstate => ?_⟩
  · obtain ⟨hg, hcarries⟩ := h.receiving hstate
    obtain ⟨c, hc, hsaves⟩ := hg.saved
    refine ⟨⟨⟨hg.updateId, hg.size_pos, hg.size_le, hg.offset_le⟩, hg.marks, hg.last,
      ⟨c, hc, ?_⟩, hg.persisted_le, hg.boundary⟩, ⟨hcarries.updateId, hcarries.targetVersion,
      hcarries.size, hcarries.crc⟩, hcarries.bytes⟩
    exact ⟨hsaves.state, hsaves.updateId, hsaves.targetVersion, hsaves.imageSize,
      hsaves.imageCrc32, hsaves.nextOffset⟩
  · obtain ⟨hg, hcarries, hcrc⟩ := h.ready hstate
    obtain ⟨c, hc, hsaves⟩ := hg.saved
    refine ⟨⟨⟨hg.updateId, hg.size_pos, hg.size_le, hg.offset_le⟩, hg.complete, ⟨c, hc, ?_⟩⟩,
      ⟨⟨hcarries.updateId, hcarries.targetVersion, hcarries.size, hcarries.crc⟩, hcarries.bytes⟩,
      hcrc⟩
    exact ⟨hsaves.state, hsaves.updateId, hsaves.targetVersion, hsaves.imageSize,
      hsaves.imageCrc32, hsaves.nextOffset⟩

end Congruence

/-! ## Answers -/

section Answers

variable {t : Transfer} {g : Session} {d : Device} {request : OtaPacket}

/-- The answer to a packet keeps the invariant. -/
def Answers (t : Transfer) (g : Session) (request : OtaPacket) (r : Reply) (d : Device) : Prop :=
  Tracks (t.answered g request r.2) r.1 d

theorem ack_command (g : Session) (request : OtaPacket) :
    (ack g request).2.command = OtaCommand.ack.code :=
  OtaResponse.buildStatus_isAck.2 rfl

theorem nack_command {status : OtaStatus} (h : status ≠ .ok) (g : Session) (request : OtaPacket)
    (detail : UInt32) : (nack g request status detail).2.command ≠ OtaCommand.ack.code :=
  fun hack => h (OtaResponse.buildStatus_isAck.1 hack)

/-- A packet that is refused changes nothing. -/
theorem nack_answers {status : OtaStatus} {detail : UInt32} (h : Tracks t g d)
    (hstatus : status ≠ .ok) : Answers t g request (nack g request status detail) d := by
  unfold Answers
  rw [Transfer.answered_nack (nack_command hstatus g request detail)]
  exact h.report status detail g.resetPending

/-- A request that carries nothing may be acknowledged. -/
theorem ack_answers {c : OtaCommand} (h : Tracks t g d) (hcommand : request.command = c.code)
    (hother : c ∉ [.start, .data]) : Answers t g request (ack g request) d := by
  unfold Answers
  rw [Transfer.answered_other hcommand hother]
  exact h.report .ok 0 g.resetPending

/-- What is left when power is lost under a packet. -/
def Interrupts (t : Transfer) (g : Session) (request : OtaPacket) (d d' : Device) : Prop :=
  Stored (t.interrupted g request d d') d'

theorem interrupts_of {d' : Device} (hsame : d'.checkpoint = d.checkpoint → Stored t d')
    (hnew : d'.checkpoint ≠ d.checkpoint → Stored (t.accepted g request) d') :
    Interrupts t g request d d' := by
  unfold Interrupts Transfer.interrupted
  split
  · next h => exact hsame h
  · next h => exact hnew h

/-- Nothing was written yet. -/
theorem Tracks.interrupts {d' : Device} (h : Tracks t g d) (hd : d' = d) :
    Interrupts t g request d d' := by
  subst hd
  exact interrupts_of (fun _ => h.stored) fun hne => absurd rfl hne

end Answers

/-! ## The commands -/

theorem refuseStart_eq_none {version : UInt32} {start : StartRequest}
    (h : refuseStart version start = none) :
    containerOverhead < start.artifactSize.toNat ∧ start.artifactSize.toNat ≤ extIncomingSize ∧
      start.targetVersion ≠ 0 ∧ version < start.targetVersion := by
  unfold refuseStart at h
  split_ifs at h with htype hversion hsize htarget
  all_goals
    rw [not_or, UInt32.not_le] at htarget
    exact ⟨by omega, by omega, htarget⟩

theorem refuseStart_ne_ok {version : UInt32} {start : StartRequest} {refusal : OtaStatus × UInt32}
    (h : refuseStart version start = some refusal) : refusal.1 ≠ .ok := by
  unfold refuseStart at h
  split_ifs at h <;> cases h <;> simp

theorem opened_checkpointable {version updateId : UInt32} {start : StartRequest} (g : Session)
    (hid : updateId ≠ 0) (h : refuseStart version start = none) :
    Checkpointable (opened g updateId start) := by
  obtain ⟨hpos, hle, -⟩ := refuseStart_eq_none h
  refine ⟨hid, fun hzero => ?_, hle, Nat.zero_le _⟩
  have hsize : start.artifactSize.toNat = 0 := congrArg UInt32.toNat hzero
  omega

section Commands

variable {μ : Mode} {s : Machine} {t : Transfer} {g : Session} {request : OtaPacket}
  {version : UInt32}

/-- A checkpoint of the session covers what it says. -/
theorem stored_of_saved {d : Device} {offset : UInt32} (h : About t g)
    (hsaved : Saved g .receiving offset d)
    (hbytes : d.slice .incoming 0 offset.toNat = t.bytes.take offset.toNat) : Stored t d := by
  obtain ⟨c, hc, hsaves⟩ := hsaved
  intro c' hc' _
  rw [hc] at hc'
  cases hc'
  refine ⟨hsaves.updateId.trans h.updateId, hsaves.targetVersion.trans h.targetVersion,
    hsaves.imageSize.trans h.size, hsaves.imageCrc32.trans h.crc, ?_, fun hready => ?_⟩
  · rw [hsaves.nextOffset]
    exact hbytes
  · rw [hsaves.state] at hready
    exact absurd hready (by decide)

theorem Carries.stored {d : Device} {offset : UInt32} (h : Carries t g d)
    (hsaved : Saved g .receiving offset d) (hle : offset.toNat ≤ g.nextOffset.toNat) :
    Stored t d := by
  refine stored_of_saved h.toAbout hsaved ?_
  rw [← h.bytes]
  exact (window_take hle).symm

/-- A session that was just opened has received nothing. -/
theorem opened_carries (g : Session) (request : OtaPacket) (d : Device) :
    Carries (.start request) (opened g request.updateId (parseStart request.payload)) d :=
  ⟨⟨rfl, rfl, rfl, rfl⟩, rfl⟩

theorem opened_tracks {d : Device} (hready : g.storageReady = true)
    (hg : Checkpointable (opened g request.updateId (parseStart request.payload)))
    (hsaved : Saved (opened g request.updateId (parseStart request.payload)) .receiving 0 d) :
    Tracks (.start request)
      { opened g request.updateId (parseStart request.payload) with persistedOffset := 0 } d := by
  refine ⟨hready, (opened_carries g request d).stored hsaved le_rfl,
    fun _ => ⟨?_, ⟨rfl, rfl, rfl, rfl⟩, rfl⟩, fun hstate => by cases hstate⟩
  obtain ⟨c, hc, hsaves⟩ := hsaved
  refine ⟨⟨hg.updateId, hg.size_pos, hg.size_le, hg.offset_le⟩, marks_zero d,
    fun h => (by cases h), ⟨c, hc, ?_⟩, le_rfl, fun _ => rfl⟩
  exact ⟨hsaves.state, hsaves.updateId, hsaves.targetVersion, hsaves.imageSize,
    hsaves.imageCrc32, hsaves.nextOffset⟩

theorem processStart_holds (hs : Env μ true s) (hfault : ¬ μ.Faulty) (h : Tracks t g s.device)
    (hcommand : request.command = OtaCommand.start.code) :
    Holds μ true (processStart version g request s) (Answers t g request)
      (Interrupts t g request s.device) := by
  have hrefuse : ∀ {status : OtaStatus} {detail : UInt32}, status ≠ .ok →
      Answers t g request (nack g request status detail) s.device :=
    fun hstatus => nack_answers h hstatus
  unfold processStart
  split
  · exact Holds.pure hs (hrefuse (by decide))
  split
  · exact Holds.pure hs (hrefuse (by decide))
  rw [if_neg (by simp [h.storageReady])]
  split
  · exact Holds.pure hs (hrefuse (by decide))
  next hid =>
  cases hstart : refuseStart version (parseStart request.payload) with
  | some refusal => exact Holds.pure hs (hrefuse (refuseStart_ne_ok hstart))
  | none =>
  have hg := opened_checkpointable g hid hstart
  refine Holds.bind (persistDownloadCheckpoint_holds hs hfault hg (Nat.zero_le _)
    (.inl ⟨rfl, rfl⟩)) ?_ ?_
  · rintro r u hu ⟨hframe, rfl, hsaved⟩
    dsimp only
    rw [if_neg (not_not.2 rfl)]
    refine Holds.pure hu ?_
    unfold Answers
    rw [Transfer.answered_ack (ack_command _ _), Transfer.accepted_start hcommand]
    exact (opened_tracks h.storageReady hg hsaved).report .ok 0 _
  · rintro d ⟨hframe, hcheckpoint⟩
    refine interrupts_of
      (h.stored.congr fun i hi => incoming_of_checkpoint hframe hi) fun hne => ?_
    rw [Transfer.accepted_start hcommand]
    exact (opened_carries g request d).stored (hcheckpoint.resolve_left hne) le_rfl

/-- The boundary of a sector may be persisted at any time. -/
theorem receiving_persisted {d d' : Device} {offset : UInt32} (hready : g.storageReady = true)
    (h : Receiving g d) (hcarries : Carries t g d)
    (hframe : DownloadCheckpointStorage.CheckpointFrame d d')
    (hsaved : Saved g .receiving offset d') (hle : offset.toNat ≤ g.nextOffset.toNat)
    (hboundary : g.nextOffset.toNat % extFlashSectorSize = 0 → offset = g.nextOffset)
    (hstate : g.state = .receiving) : Tracks t { g with persistedOffset := offset } d' := by
  have hsame : ∀ i < ExternalPartition.incoming.size,
      d'.part .incoming i = d.part .incoming i := fun i hi => incoming_of_checkpoint hframe hi
  have hcarries' : Carries t g d' := carries_congr hcarries (h.offset_le.trans h.size_le) hsame
  refine ⟨hready, hcarries'.stored hsaved hle, fun _ => ?_, fun hbad => ?_⟩
  · obtain ⟨c, hc, hsaves⟩ := hsaved
    refine ⟨⟨⟨h.updateId, h.size_pos, h.size_le, h.offset_le⟩, h.marks.congr hsame, h.last,
      ⟨c, hc, ?_⟩, hle, hboundary⟩, ⟨hcarries'.updateId, hcarries'.targetVersion,
      hcarries'.size, hcarries'.crc⟩, hcarries'.bytes⟩
    exact ⟨hsaves.state, hsaves.updateId, hsaves.targetVersion, hsaves.imageSize,
      hsaves.imageCrc32, hsaves.nextOffset⟩
  · change g.state = _ at hbad
    rw [hstate] at hbad
    cases hbad

theorem processRepeatedData_holds (hs : Env μ true s) (hfault : ¬ μ.Faulty)
    (h : Tracks t g s.device) (hcommand : request.command = OtaCommand.data.code)
    (hstate : g.state = .receiving) (hrepeats : repeatsLastData g request = true) :
    Holds μ true (processRepeatedData g request s) (Answers t g request)
      (Interrupts t g request s.device) := by
  obtain ⟨hg, hcarries⟩ := h.receiving hstate
  unfold processRepeatedData
  have hmatches : Holds μ true (storedDataMatches request s) (fun _ d => d = s.device)
      (fun d => d = s.device) := by
    refine Holds.bind (storageRead_holds hs (.inl rfl) _ _ _) ?_ (fun _ hd => hd)
    rintro r u hu ⟨hd, -⟩
    cases r <;> exact Holds.pure hu hd
  refine Holds.bind hmatches ?_ (fun _ hd => h.interrupts hd)
  rintro matched u hu hd
  rw [← hd] at h hg hcarries ⊢
  split
  · refine Holds.bind (persistReceiveBoundaryIfNeeded_holds hu hfault hg.toCheckpointable hg.saved
      hg.persisted_le) ?_ ?_
    · rintro r v hv ⟨hframe, offset, rfl, hsaved, hle, hboundary⟩
      have htracks := receiving_persisted h.storageReady hg hcarries hframe hsaved hle hboundary
        hstate
      refine Holds.pure hv ?_
      rw [replyCheckpoint, if_pos rfl, Answers, Transfer.answered_ack (ack_command _ _),
        Transfer.accepted_repeated hcommand hrepeats]
      exact htracks.report .ok 0 _
    · rintro d ⟨hframe, hcheckpoint⟩
      refine interrupts_of
        (h.stored.congr fun i hi => incoming_of_checkpoint hframe hi) fun hne => ?_
      rw [Transfer.accepted_repeated hcommand hrepeats]
      have hcarries' := carries_congr hcarries (hg.offset_le.trans hg.size_le)
        fun i hi => incoming_of_checkpoint hframe hi
      exact hcarries'.stored (hcheckpoint.resolve_left hne).2 le_rfl
  · exact Holds.pure hu (nack_answers h (by decide))

theorem Advances.about {g' : Session} (h : Advances g request g') (habout : About t g) :
    About (t.append request.payload) g' :=
  ⟨h.updateId.trans habout.updateId, h.targetVersion.trans habout.targetVersion,
    h.expectedSize.trans habout.size, h.artifactCrc32.trans habout.crc⟩

/-- What an interrupted packet leaves is the transfer, with its bytes if they are checkpointed. -/
theorem Interrupted.interrupts {d d' : Device} (h : Interrupted g request d d')
    (hg : Receiving g d) (hcarries : Carries t g d) (hcommand : request.command = OtaCommand.data.code)
    (hnew : repeatsLastData g request = false) : Interrupts t g request d d' := by
  have hbelow : d'.slice .incoming 0 g.nextOffset.toNat = t.bytes := by
    rw [← hcarries.bytes]
    exact Device.slice_congr h.kept (by omega)
  refine interrupts_of (fun hsame => ?_) fun hne => ?_
  · obtain ⟨c, hc, hsaves⟩ := hg.saved
    exact Carries.stored ⟨hcarries.toAbout, hbelow⟩ ⟨c, hsame.trans hc, hsaves⟩ hg.persisted_le
  · obtain ⟨hdata, offset, hoffset, hsaved⟩ := h.checkpoint.resolve_left hne
    have hlength : (t.append request.payload).bytes.length = offset.toNat := by
      rw [hoffset, Transfer.append, List.length_append, ← hcarries.bytes]
      exact congrArg (· + _) (window_length _ _ _)
    rw [Transfer.accepted_data hcommand hnew]
    refine stored_of_saved (g := g) ⟨hcarries.updateId, hcarries.targetVersion, hcarries.size,
      hcarries.crc⟩ hsaved ?_
    rw [List.take_of_length_le hlength.le, hoffset, Device.slice, window_add]
    exact congrArg₂ (· ++ ·) hbelow hdata

/-- A packet that was stored belongs to the session and to the transfer. -/
theorem Appended.carries {d d' : Device} {g' : Session}
    (h : Appended g.nextOffset.toNat request.payload d d') (hadvances : Advances g request g')
    (hcarries : Carries t g d) : Carries (t.append request.payload) g' d' := by
  refine ⟨hadvances.about hcarries.toAbout, ?_⟩
  rw [hadvances.nextOffset, Device.slice, window_add]
  refine congrArg₂ (· ++ ·) ?_ h.data
  rw [← hcarries.bytes]
  exact Device.slice_congr h.kept (by omega)

theorem takes_storeData_holds (hs : Env μ true s) (hfault : ¬ μ.Faulty) (h : Tracks t g s.device)
    (htakes : Takes g request) :
    Holds μ true (storeData g request s)
      (fun r d => r.2.command = OtaCommand.ack.code ∧ Answers t g request r d)
      (Interrupts t g request s.device) := by
  obtain ⟨hcommand, hstate, hid, hpos, hmax, hrepeats, hnext⟩ := htakes
  obtain ⟨hg, hcarries⟩ := h.receiving hstate
  refine (storeData_holds hs hfault hg hnext hpos).mono ?_
    (fun _ hd => hd.interrupts hg hcarries hcommand hrepeats)
  rintro r d ⟨g', rfl, hadvances, hg', happended⟩
  refine ⟨ack_command _ _, ?_⟩
  have hcarries' := happended.carries hadvances hcarries
  unfold Answers
  rw [Transfer.answered_ack (ack_command _ _), Transfer.accepted_data hcommand hrepeats]
  have htracks : Tracks (t.append request.payload) g' d := by
    refine ⟨hadvances.storageReady.trans h.storageReady,
      hcarries'.stored hg'.saved hg'.persisted_le, fun _ => ⟨hg', hcarries'⟩, fun hbad => ?_⟩
    rw [hadvances.state, hstate] at hbad
    cases hbad
  exact htracks.report .ok 0 g'.resetPending

theorem refuseData_ne_ok {refusal : OtaStatus × UInt32} (h : refuseData g request = some refusal) :
    refusal.1 ≠ .ok := by
  unfold refuseData at h
  split_ifs at h <;> cases h <;> simp

theorem processData_holds (hs : Env μ true s) (hfault : ¬ μ.Faulty) (h : Tracks t g s.device)
    (hcommand : request.command = OtaCommand.data.code) :
    Holds μ true (processData g request s) (Answers t g request)
      (Interrupts t g request s.device) := by
  unfold processData
  split
  · exact Holds.pure hs (nack_answers h (by decide))
  next hstate =>
  split
  · exact Holds.pure hs (nack_answers h (by decide))
  next hid =>
  split
  · exact Holds.pure hs (nack_answers h (by decide))
  next hlength =>
  split
  · next hrepeats =>
    exact processRepeatedData_holds hs hfault h hcommand (not_not.1 hstate) hrepeats
  next hrepeats =>
  cases hnext : refuseData g request with
  | some refusal => exact Holds.pure hs (nack_answers h (refuseData_ne_ok hnext))
  | none =>
      refine (takes_storeData_holds hs hfault h ⟨hcommand, not_not.1 hstate, not_not.1 hid,
        by omega, by omega, by simpa using hrepeats, hnext⟩).mono ?_ (fun _ hd => hd)
      exact fun _ _ hr => hr.2

theorem calculateIncomingCrc_holds (hs : Env μ true s) (hfault : ¬ μ.Faulty) {length : Nat}
    (hle : length ≤ extIncomingSize) :
    Holds μ true (calculateIncomingCrc length s)
      (fun r d => d = s.device ∧ r = some (Crc32.calculate (s.device.slice .incoming 0 length)))
      (fun d => d = s.device) := by
  rw [Device.slice_eq_window]
  refine (foldChunks_holds False (s.device.part .incoming) hs (by decide) rfl
    (fun xs ys => (Crc32.update_append _ xs ys).symm) ?_).mono ?_ (fun _ hd => hd)
  · intro u offset len hu hd hin
    refine (storageRead_holds hu (.inl rfl) .incoming offset len).mono ?_
      (fun _ hd' => hd'.trans hd)
    rintro r d ⟨hd', ⟨rfl, -⟩ | ⟨rfl, hbad⟩⟩
    · exact ⟨hd'.trans hd, .inl (by rw [hd, Device.slice_eq_window])⟩
    · have hsize : ExternalPartition.incoming.size = extIncomingSize := rfl
      exact ⟨hd'.trans hd, .inr ⟨rfl, hfault (hbad.resolve_right (by omega))⟩⟩
  · rintro r d ⟨hd, rfl | ⟨-, hfalse⟩⟩
    · exact ⟨hd, rfl⟩
    · exact hfalse.elim

/-- A complete artifact that is checkpointed covers the whole transfer. -/
theorem stored_of_ready {d : Device} (hcarries : Carries t g d)
    (hcomplete : g.nextOffset = g.expectedSize)
    (hcrc : Crc32.calculate t.bytes = t.artifactCrc32)
    (hsaved : Saved g .artifactReady g.expectedSize d) : Stored t d := by
  obtain ⟨c, hc, hsaves⟩ := hsaved
  intro c' hc' _
  rw [hc] at hc'
  cases hc'
  have hoffset : c.nextOffset = g.nextOffset := hsaves.nextOffset.trans hcomplete.symm
  have hlength : t.bytes.length = c.nextOffset.toNat := by
    rw [hoffset, ← hcarries.bytes]
    exact window_length _ _ _
  refine ⟨hsaves.updateId.trans hcarries.updateId,
    hsaves.targetVersion.trans hcarries.targetVersion, hsaves.imageSize.trans hcarries.size,
    hsaves.imageCrc32.trans hcarries.crc, ?_, fun _ => ⟨hlength, fun _ => hcrc⟩⟩
  rw [List.take_of_length_le hlength.le, hoffset]
  exact hcarries.bytes

theorem completeArtifact_holds (hs : Env μ true s) (hfault : ¬ μ.Faulty) (h : Tracks t g s.device)
    (hcommand : request.command = OtaCommand.finish.code) (hstate : g.state = .receiving)
    (hcomplete : g.nextOffset = g.expectedSize) :
    Holds μ true (completeArtifact g request s) (Answers t g request)
      (Interrupts t g request s.device) := by
  obtain ⟨hg, hcarries⟩ := h.receiving hstate
  unfold completeArtifact
  refine Holds.bind (calculateIncomingCrc_holds hs hfault hg.size_le) ?_ (fun _ hd => h.interrupts hd)
  rintro r u hu ⟨hd, rfl⟩
  have hbytes : s.device.slice .incoming 0 g.expectedSize.toNat = t.bytes := by
    rw [← hcomplete]
    exact hcarries.bytes
  rw [hbytes]
  rw [← hd] at h hg hcarries ⊢
  dsimp only
  split
  · refine Holds.pure hu ?_
    unfold Answers
    rw [Transfer.answered_other hcommand (by decide)]
    refine Tracks.report (g := { g with state := .failed }) ?_ _ _ g.resetPending
    exact tracks_of_closed .failed h.storageReady h.stored rfl (by decide)
  next hcrc =>
  have hcrc : Crc32.calculate t.bytes = t.artifactCrc32 := (not_not.1 hcrc).trans hcarries.crc
  have hcarries' : ∀ d, DownloadCheckpointStorage.CheckpointFrame u.device d → Carries t g d :=
    fun d hframe => carries_congr hcarries (hg.offset_le.trans hg.size_le)
      fun i hi => incoming_of_checkpoint hframe hi
  refine Holds.bind (persistDownloadCheckpoint_holds hu hfault hg.toCheckpointable le_rfl
    (.inr ⟨rfl, rfl⟩)) ?_ ?_
  · rintro r v hv ⟨hframe, rfl, hsaved⟩
    dsimp only
    rw [if_neg (not_not.2 rfl)]
    refine Holds.pure hv ?_
    unfold Answers
    rw [Transfer.answered_other hcommand (by decide)]
    have hcarries' := hcarries' _ hframe
    refine Tracks.report (g := { g with persistedOffset := g.expectedSize, state := .artifactReady })
      ⟨h.storageReady, stored_of_ready hcarries' hcomplete hcrc hsaved, fun hbad => (by cases hbad),
        fun _ => ⟨?_, ⟨⟨hcarries'.updateId, hcarries'.targetVersion, hcarries'.size, hcarries'.crc⟩,
          hcarries'.bytes⟩, fun _ => hcrc⟩⟩ _ _ g.resetPending
    obtain ⟨c, hc, hsaves⟩ := hsaved
    exact ⟨⟨hg.updateId, hg.size_pos, hg.size_le, hg.offset_le⟩, hcomplete, c, hc, hsaves.state,
      hsaves.updateId, hsaves.targetVersion, hsaves.imageSize, hsaves.imageCrc32, hsaves.nextOffset⟩
  · rintro d ⟨hframe, hcheckpoint⟩
    refine interrupts_of
      (h.stored.congr fun i hi => incoming_of_checkpoint hframe hi) fun hne => ?_
    rw [Transfer.accepted_other hcommand (by decide)]
    exact stored_of_ready (hcarries' d hframe) hcomplete hcrc (hcheckpoint.resolve_left hne)

theorem processFinish_holds (hs : Env μ true s) (hfault : ¬ μ.Faulty) (h : Tracks t g s.device)
    (hcommand : request.command = OtaCommand.finish.code) :
    Holds μ true (processFinish g request s) (Answers t g request)
      (Interrupts t g request s.device) := by
  unfold processFinish
  split
  · exact Holds.pure hs (nack_answers h (by decide))
  split
  · exact Holds.pure hs (ack_answers h hcommand (by decide))
  split
  · exact Holds.pure hs (nack_answers h (by decide))
  next hstate =>
  split
  · exact Holds.pure hs (nack_answers h (by decide))
  split
  · exact Holds.pure hs (nack_answers h (by decide))
  next hcomplete =>
  exact completeArtifact_holds hs hfault h hcommand (not_not.1 hstate) (not_not.1 hcomplete)

theorem processAbort_holds (hs : Env μ true s) (hfault : ¬ μ.Faulty) (h : Tracks t g s.device)
    (hcommand : request.command = OtaCommand.abort.code) :
    Holds μ true (processAbort g request s) (Answers t g request)
      (Interrupts t g request s.device) := by
  unfold processAbort clearDownloadCheckpoint
  split
  · exact Holds.pure hs (nack_answers h (by decide))
  refine Holds.bind (R := fun r d => r = (.ok, { g with persistedOffset := 0 }) ∧ d.CheckpointIdle)
    (D := Interrupts t g request s.device) ?_ ?_ (fun _ hd => hd)
  · refine Holds.bind ((DownloadCheckpointStorage.clear_holds hs (.inl rfl)).and_keeps
      DownloadCheckpointStorage.clear_frame) ?_ ?_
    · rintro r u hu ⟨⟨rfl, hidle⟩ | hfaulty, -⟩
      · exact Holds.pure hu ⟨rfl, hidle⟩
      · exact absurd hfaulty hfault
    · rintro d ⟨hcheckpoint, hframe⟩
      refine interrupts_of
        (h.stored.congr fun i hi => incoming_of_checkpoint hframe hi) fun hne => ?_
      exact stored_of_idle (hcheckpoint.resolve_left hne)
  · rintro r u hu ⟨rfl, hidle⟩
    dsimp only
    rw [if_neg (not_not.2 rfl)]
    refine Holds.pure hu ?_
    unfold Answers
    rw [Transfer.answered_other hcommand (by decide)]
    refine Tracks.report (g := resetTransfer { g with persistedOffset := 0 }) ?_ _ _ false
    exact tracks_of_closed .idle h.storageReady (stored_of_idle hidle) rfl (by decide)

/-- A packet that only reads the external flash leaves everything stored. -/
theorem Tracks.interrupts_external {d d' : Device} (h : Tracks t g d)
    (hexternal : ∀ a, d'.external a = d.external a) : Interrupts t g request d d' := by
  have hcheckpoint : d'.checkpoint = d.checkpoint :=
    Device.checkpoint_congr fun _ _ _ _ => hexternal _
  exact interrupts_of (h.stored.congr fun _ _ => hexternal _) fun hne => absurd hcheckpoint hne

theorem Tracks.external {d d' : Device} (h : Tracks t g d)
    (hexternal : ∀ a, d'.external a = d.external a) : Tracks t g d' := by
  have hincoming : ∀ i < ExternalPartition.incoming.size,
      d'.part .incoming i = d.part .incoming i := fun _ _ => hexternal _
  have hcheckpoint : d'.checkpoint = d.checkpoint :=
    Device.checkpoint_congr fun _ _ _ _ => hexternal _
  refine ⟨h.storageReady, h.stored.congr hincoming hcheckpoint, fun hstate => ?_, fun hstate => ?_⟩
  · obtain ⟨hg, hcarries⟩ := h.receiving hstate
    obtain ⟨c, hc, hsaves⟩ := hg.saved
    exact ⟨⟨hg.toCheckpointable, hg.marks.congr hincoming, hg.last,
      ⟨c, hcheckpoint.trans hc, hsaves⟩, hg.persisted_le, hg.boundary⟩,
      carries_congr hcarries (hg.offset_le.trans hg.size_le) hincoming⟩
  · obtain ⟨hg, hcarries, hcrc⟩ := h.ready hstate
    obtain ⟨c, hc, hsaves⟩ := hg.saved
    exact ⟨⟨hg.toCheckpointable, hg.complete, c, hcheckpoint.trans hc, hsaves⟩,
      carries_congr hcarries (hg.offset_le.trans hg.size_le) hincoming, hcrc⟩

end Commands

end OtaReceiver

end SecureDeltaOta
