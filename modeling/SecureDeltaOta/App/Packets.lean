import SecureDeltaOta.App.Reception
import SecureDeltaOta.Storage.CommitLog

/-!
# The receiver, packet by packet

Every packet keeps the session, the checkpoint and the stored bytes in step with
the transfer, and the application starts with a session that is in step with
what was stored before.
-/

namespace SecureDeltaOta

open Memory Crash MetadataStorage

namespace OtaReceiver

/-- The boot metadata asks for the installation of the artifact of a session. -/
def InstallRequested (g : Session) (d : Device) : Prop :=
  ∃ c, Persisted d c ∧ c.state = UpdateState.artifactReady.code ∧
    c.activeUpdateId = g.updateId ∧ c.pendingVersion = g.targetVersion ∧
    c.expectedSize = g.expectedSize ∧ c.receivedSize = g.expectedSize

section Packets

variable {μ : Mode} {s : Machine} {t : Transfer} {g : Session} {request : OtaPacket}
  {version : UInt32}

theorem incomingLooksLikeSecureContainer_holds {up : Bool} (hs : Env μ up s) (hup : μ.Usable up) :
    Holds μ up (incomingLooksLikeSecureContainer s) (fun _ d => d = s.device)
      (fun d => d = s.device) := by
  refine Holds.bind (storageRead_holds hs hup _ _ _) ?_ (fun _ hd => hd)
  rintro r u hu ⟨hd, -⟩
  cases r <;> exact Holds.pure hu hd

/-- An install request that is reported as committed is there. -/
theorem persistSecureInstallRequest_holds {up : Bool} (hs : Env μ up s) :
    Holds μ up (persistSecureInstallRequest version g s)
      (fun r d => MetadataFrame s.device d ∧ (r = none → InstallRequested g d))
      (MetadataFrame s.device) := by
  refine Holds.read_bind ?_
  rw [load_eq]
  cases persisted s.device
  all_goals
    dsimp only
    rw [if_neg (by simp)]
    refine Holds.bind (commit_ends hs _) ?_ (fun _ hd => hd.1)
    intro r u hu hr
    rcases hr.cases with ⟨c, rfl, hstores, hpersisted, -⟩ | ⟨⟨e, rfl⟩, -⟩
    · exact Holds.pure hu ⟨hr.frame, fun _ => ⟨c, hpersisted, hstores.state,
        hstores.activeUpdateId, hstores.pendingVersion, hstores.expectedSize,
        hstores.receivedSize⟩⟩
    · exact Holds.pure hu ⟨hr.frame, fun hnone => by cases hnone⟩

theorem processInstall_holds (hs : Env μ true s) (h : Tracks t g s.device)
    (hcommand : request.command = OtaCommand.install.code) :
    Holds μ true (processInstall version g request s)
      (fun r d => Answers t g request r d ∧
        (r.2.command = OtaCommand.ack.code → InstallRequested g d))
      (Interrupts t g request s.device) := by
  have hrefuse : ∀ {u : Machine} {status : OtaStatus} {detail : UInt32}, Env μ true u →
      Tracks t g u.device → status ≠ .ok →
      Holds μ true ((pure (nack g request status detail) : Prog Machine Reply) u)
        (fun r d => Answers t g request r d ∧
          (r.2.command = OtaCommand.ack.code → InstallRequested g d))
        (Interrupts t g request s.device) :=
    fun hu hg hstatus => Holds.pure hu ⟨nack_answers hg hstatus,
      fun hack => absurd hack (nack_command hstatus _ _ _)⟩
  unfold processInstall
  split
  · exact hrefuse hs h (by decide)
  split
  · exact hrefuse hs h (by decide)
  split
  · exact hrefuse hs h (by decide)
  split
  · exact hrefuse hs h (by decide)
  refine Holds.bind (incomingLooksLikeSecureContainer_holds hs (.inl rfl)) ?_
    (fun d hd => h.interrupts_external fun _ => by rw [hd])
  intro container u hu hd
  have hu' : Tracks t g u.device := h.external fun _ => by rw [hd]
  split
  · exact hrefuse hu hu' (by decide)
  refine Holds.bind (persistSecureInstallRequest_holds hu) ?_
    (fun d hframe => h.interrupts_external fun a => by rw [hframe.external a trivial, hd])
  rintro r v hv ⟨hframe, hrequested⟩
  have hv' : Tracks t g v.device := hu'.external fun _ => hframe.external _ trivial
  cases r with
  | some detail => exact hrefuse hv hv' (by decide)
  | none =>
      refine Holds.pure hv ⟨?_, fun _ => hrequested rfl⟩
      unfold Answers
      rw [Transfer.answered_other hcommand (by decide)]
      exact hv'.report .ok 0 true

theorem confirmNow_holds {up : Bool} (hs : Env μ up s) :
    Holds μ up (TrialConfirmation.confirmNow version s) (fun _ d => MetadataFrame s.device d)
      (MetadataFrame s.device) := by
  refine Holds.read_bind ?_
  cases TrialConfirmation.loadTrialMetadata version s.device with
  | none => exact Holds.pure hs (refl_of MetadataFrame _)
  | some metadata =>
      refine Holds.bind (commit_ends hs _) ?_ (fun _ hd => hd.1)
      intro r u hu hr
      cases r <;> exact Holds.pure hu hr.frame

theorem processConfirm_holds (hs : Env μ true s) (h : Tracks t g s.device)
    (hcommand : request.command = OtaCommand.confirm.code) :
    Holds μ true (processConfirm version g request s) (Answers t g request)
      (Interrupts t g request s.device) := by
  unfold processConfirm
  split
  · exact Holds.pure hs (nack_answers h (by decide))
  split
  · exact Holds.pure hs (nack_answers h (by decide))
  split
  · exact Holds.pure hs (nack_answers h (by decide))
  refine Holds.bind (confirmNow_holds hs) ?_
    (fun d hd => h.interrupts_external fun _ => hd.external _ trivial)
  intro r u hu hframe
  have hu' : Tracks t g u.device := h.external fun _ => hframe.external _ trivial
  cases r with
  | some detail => exact Holds.pure hu (nack_answers hu' (by decide))
  | none =>
      refine Holds.pure hu ?_
      unfold Answers
      rw [Transfer.answered_other hcommand (by decide)]
      refine Tracks.report (g := { g with state := .confirmed }) ?_ _ _ true
      exact tracks_of_closed .confirmed h.storageReady hu'.stored rfl (by decide)

theorem processResume_answers {d : Device} (h : Tracks t g d)
    (hcommand : request.command = OtaCommand.resume.code) :
    Answers t g request (processResume g request) d := by
  unfold processResume
  split_ifs
  · exact nack_answers h (by decide)
  · exact nack_answers h (by decide)
  · exact nack_answers h (by decide)
  · exact ack_answers h hcommand (by decide)

theorem processQuery_answers {d : Device} {c : OtaCommand} (h : Tracks t g d)
    (hcommand : request.command = c.code) (hother : c ∉ [.start, .data]) :
    Answers t g request (processQuery version g request) d := by
  unfold processQuery
  split_ifs
  · exact nack_answers h (by decide)
  · unfold Answers
    rw [Transfer.answered_other hcommand hother]
    exact h.report .ok 0 g.resetPending

/-- What the answer to a packet says. -/
structure Processed (t : Transfer) (g : Session) (request : OtaPacket) (r : Reply) (d : Device) :
    Prop where
  answers : Answers t g request r d
  installs : request.command = OtaCommand.install.code → r.2.command = OtaCommand.ack.code →
    InstallRequested g d
  takes : Takes g request → r.2.command = OtaCommand.ack.code

/-- An answer to neither `DATA` nor `INSTALL` says no more than that the invariant is kept. -/
theorem Answers.processed {r : Reply} {d : Device} {c : OtaCommand} (h : Answers t g request r d)
    (hcommand : request.command = c.code) (hother : c ∉ [.data, .install]) :
    Processed t g request r d := by
  refine ⟨h, fun hinstall => absurd ?_ hother, fun htakes => absurd ?_ hother⟩
  · rw [hcommand] at hinstall
    simp [OtaCommand.code_injective hinstall]
  · have hdata := htakes.1
    rw [hcommand] at hdata
    simp [OtaCommand.code_injective hdata]

theorem processData_of_takes (h : Takes g request) :
    processData g request = storeData g request := by
  obtain ⟨-, hstate, hid, hpos, hmax, hrepeats, hnext⟩ := h
  unfold processData
  rw [if_neg (not_not.2 hstate), if_neg (not_not.2 hid), if_neg (by omega), hrepeats, hnext]
  rfl

theorem processData_processed (hs : Env μ true s) (hfault : ¬ μ.Faulty) (h : Tracks t g s.device)
    (hcommand : request.command = OtaCommand.data.code) :
    Holds μ true (processData g request s) (Processed t g request)
      (Interrupts t g request s.device) := by
  have hinstall : request.command ≠ OtaCommand.install.code := by
    rw [hcommand]
    decide
  by_cases htakes : Takes g request
  · rw [processData_of_takes htakes]
    exact (takes_storeData_holds hs hfault h htakes).mono
      (fun _ _ hr => ⟨hr.2, fun hbad => absurd hbad hinstall, fun _ => hr.1⟩) (fun _ hd => hd)
  · exact (processData_holds hs hfault h hcommand).mono
      (fun _ _ hr => ⟨hr, fun hbad => absurd hbad hinstall, fun hbad => absurd hbad htakes⟩)
      (fun _ hd => hd)

/-- A packet with an unknown command is refused. -/
theorem nack_processed {d : Device} (h : Tracks t g d) (status : OtaStatus) (detail : UInt32)
    (hstatus : status ≠ .ok) (hdata : request.command ≠ OtaCommand.data.code) :
    Processed t g request (nack g request status detail) d :=
  ⟨nack_answers h hstatus, fun _ hack => absurd hack (nack_command hstatus _ _ _),
    fun htakes => absurd htakes.1 hdata⟩

/-- Every packet is answered in step with the transfer. -/
theorem processPacket_holds (hs : Env μ true s) (hfault : ¬ μ.Faulty) (h : Tracks t g s.device)
    (version : UInt32) (request : OtaPacket) :
    Holds μ true (processPacket version g request s) (Processed t g request)
      (Interrupts t g request s.device) := by
  unfold processPacket
  cases hcode : OtaCommand.ofCode request.command with
  | none =>
      refine Holds.pure hs (nack_processed h _ _ (by decide) fun hdata => ?_)
      rw [hdata, OtaCommand.ofCode_code] at hcode
      cases hcode
  | some c =>
      have hcommand := OtaCommand.ofCode_eq_some.1 hcode
      cases c with
      | hello | query | status =>
          exact Holds.pure hs
            ((processQuery_answers h hcommand (by decide)).processed hcommand (by decide))
      | start =>
          exact (processStart_holds hs hfault h hcommand).mono
            (fun _ _ hr => hr.processed hcommand (by decide)) (fun _ hd => hd)
      | data => exact processData_processed hs hfault h hcommand
      | finish =>
          exact (processFinish_holds hs hfault h hcommand).mono
            (fun _ _ hr => hr.processed hcommand (by decide)) (fun _ hd => hd)
      | abort =>
          exact (processAbort_holds hs hfault h hcommand).mono
            (fun _ _ hr => hr.processed hcommand (by decide)) (fun _ hd => hd)
      | resume =>
          exact Holds.pure hs
            ((processResume_answers h hcommand).processed hcommand (by decide))
      | install =>
          exact (processInstall_holds hs h hcommand).mono
            (fun _ _ hr => ⟨hr.1, fun _ => hr.2,
              fun htakes => absurd htakes (not_takes_of_command hcommand (by decide))⟩)
            (fun _ hd => hd)
      | confirm =>
          exact (processConfirm_holds hs h hcommand).mono
            (fun _ _ hr => hr.processed hcommand (by decide)) (fun _ hd => hd)
      | ack | nack =>
          exact Holds.pure hs (nack_processed h _ _ (by decide) (by rw [hcommand]; decide))

end Packets

/-! ## Start of the application -/

section Start

variable {μ : Mode} {s : Machine} {t : Transfer}

/-- An open checkpoint has the fields of a session. -/
theorem restored_checkpointable {c : DownloadCheckpointRecord} (g : Session)
    (hvalid : DownloadCheckpoint.validate c = .valid)
    (hopen : c.state ≠ DownloadCheckpointState.idle.code) : Checkpointable (restored g c) := by
  obtain ⟨-, -, -, -, -, hsession, -⟩ := DownloadCheckpoint.validate_eq_valid.1 hvalid
  obtain ⟨hid, hsize, hmax, hoffset, -⟩ :=
    DownloadCheckpoint.sessionFieldsValid_iff.1 (hsession hopen)
  exact ⟨hid, hsize, hmax, hoffset⟩

theorem restored_open (g : Session) (c : DownloadCheckpointRecord) :
    (restored g c).state = .receiving ∨ (restored g c).state = .artifactReady := by
  unfold restored
  dsimp only
  split <;> simp

/-- What the checkpoint covers is what is left of the transfer. -/
theorem restored_carries {c : DownloadCheckpointRecord} {d : Device} (g : Session)
    (hcovers : Covers t d c) : Carries (t.restored (restored g c)) (restored g c) d := by
  unfold Transfer.restored
  rw [if_pos (restored_open g c)]
  exact ⟨⟨hcovers.updateId, hcovers.targetVersion, hcovers.size, hcovers.crc⟩, hcovers.bytes⟩

theorem restored_crc {c : DownloadCheckpointRecord} {d : Device} (g : Session)
    (hcovers : Covers t d c) (hready : c.state = DownloadCheckpointState.artifactReady.code)
    (hobserved : (t.restored (restored g c)).observed = true) :
    Crc32.calculate (t.restored (restored g c)).bytes =
      (t.restored (restored g c)).artifactCrc32 := by
  obtain ⟨hlength, hcrc⟩ := hcovers.ready hready
  have hoffset : (restored g c).nextOffset = c.nextOffset := rfl
  unfold Transfer.restored at hobserved ⊢
  rw [if_pos (restored_open g c)] at hobserved ⊢
  dsimp only at hobserved ⊢
  rw [hoffset, List.take_of_length_le hlength.le]
  exact hcrc hobserved

/-- A restored session is in step with the part of the transfer that its checkpoint covers. -/
theorem restored_tracks {c : DownloadCheckpointRecord} {g : Session} {d : Device}
    (hready : g.storageReady = true) (hstored : Stored t d) (hc : d.checkpoint = some c)
    (hopen : c.state ≠ DownloadCheckpointState.idle.code) :
    Tracks (t.restored (restored g c)) (restored g c) d := by
  have hcovers := hstored c hc hopen
  have hvalid := Device.checkpoint_valid hc
  have hg := restored_checkpointable g hvalid hopen
  obtain ⟨-, -, -, -, -, hsession, -⟩ := DownloadCheckpoint.validate_eq_valid.1 hvalid
  obtain ⟨-, -, hmax, hoffset, hplace⟩ :=
    DownloadCheckpoint.sessionFieldsValid_iff.1 (hsession hopen)
  have hcarries := restored_carries g hcovers
  have hlength : (t.restored (restored g c)).bytes.length = c.nextOffset.toNat := by
    rw [← hcarries.bytes]
    exact window_length _ _ _
  have hsaved : ∀ st : DownloadCheckpointState, c.state = st.code →
      Saved (restored g c) st c.nextOffset d :=
    fun st hstate => ⟨c, hc, hstate, rfl, rfl, rfl, rfl, rfl⟩
  refine ⟨hready, fun c' hc' _ => ?_, fun hstate => ⟨?_, hcarries⟩,
    fun hstate => ⟨?_, hcarries, ?_⟩⟩
  · rw [hc] at hc'
    cases hc'
    refine ⟨hcarries.updateId, hcarries.targetVersion, hcarries.size, hcarries.crc, ?_,
      fun h => ⟨hlength, restored_crc g hcovers h⟩⟩
    rw [List.take_of_length_le hlength.le]
    exact hcarries.bytes
  · rcases hplace with ⟨hreceiving, haligned⟩ | ⟨hbad, -⟩
    · exact ⟨hg, marks_completed (hoffset.trans hmax) haligned d, fun h => (nomatch h),
        hsaved .receiving hreceiving, le_rfl, fun _ => rfl⟩
    · unfold restored at hstate
      simp [hbad] at hstate
  · rcases hplace with ⟨hbad, -⟩ | ⟨hready, hend⟩
    · unfold restored at hstate
      simp [hbad, DownloadCheckpointState.code] at hstate
    · refine ⟨hg, hend, ?_⟩
      have hend' : (restored g c).expectedSize = c.nextOffset := hend.symm
      rw [hend']
      exact hsaved .artifactReady hready
  · refine restored_crc g hcovers ?_
    unfold restored at hstate
    by_contra hnot
    simp [hnot] at hstate

theorem restored_of_closed {g : Session} {st : UpdateState} (hstate : g.state = st)
    (hclosed : st ∉ [.receiving, .artifactReady]) : t.restored g = t := by
  refine if_neg ?_
  rintro (h | h) <;> exact hclosed (by simp [← hstate, h])

/-- A session without a download shows at most a trial. -/
theorem mirrorPersistentTrialState_holds {up : Bool} {g : Session} (hs : Env μ up s)
    (version : UInt32) (hready : g.storageReady = true) (hstate : g.state = .idle)
    (hstored : Stored t s.device) :
    Holds μ up (mirrorPersistentTrialState version g s)
      (fun r d => d = s.device ∧ Tracks (t.restored r) r d) (fun d => d = s.device) := by
  have hclosed : ∀ (r : Session) (st : UpdateState), r.storageReady = true → r.state = st →
      st ∉ [.receiving, .artifactReady] → Tracks (t.restored r) r s.device := by
    intro r st hready hr hst
    rw [restored_of_closed hr hst]
    exact tracks_of_closed st hready hstored hr hst
  refine Holds.read hs ⟨rfl, ?_⟩
  rw [load_eq]
  cases persisted s.device with
  | none => exact hclosed g .idle hready hstate (by decide)
  | some m =>
      dsimp only
      split
      · exact hclosed _ .trialBoot hready rfl (by decide)
      · split
        · exact hclosed _ .confirmed hready rfl (by decide)
        · exact hclosed g .idle hready hstate (by decide)

/-- The application starts in step with what was stored. -/
theorem init_holds {up : Bool} (hs : Env μ up s) (hfault : ¬ μ.Faulty) (version : UInt32)
    (hstored : Stored t s.device) :
    Holds μ true (init version s) (fun g d => d = s.device ∧ Tracks (t.restored g) g d)
      (fun d => d = s.device) := by
  have hready : μ.ready = true := by
    unfold Mode.Faulty at hfault
    unfold Mode.ready
    simpa using hfault
  rw [← hready]
  refine init_bind_holds hs rfl ?_
  intro ok u hok hu hd
  rw [hok.resolve_right hfault]
  refine Holds.read_bind ?_
  rw [if_neg (by simp)]
  rw [← hd] at hstored ⊢
  dsimp only
  generalize hg : resetTransfer
    { zeroed with storageReady := true, lastStatus := .ok, lastErrorDetail := 0 } = g
  have hstorage : g.storageReady = true := by rw [← hg]; rfl
  have hidle : g.state = .idle := by rw [← hg]; rfl
  have hrestore : Holds μ μ.ready (restoreDownloadCheckpoint g u)
      (fun r d => d = u.device ∧ r.1 = .ok ∧ (r.2 = g ∨
        ∃ c, u.device.checkpoint = some c ∧ c.state ≠ DownloadCheckpointState.idle.code ∧
          r.2 = restored g c)) (fun d => d = u.device) := by
    refine Holds.bind (RecordStore.load_holds hu (.inl hready)) ?_ (fun _ hd => hd)
    rintro r v hv ⟨hd, ⟨-, hfaulty⟩ | rfl⟩
    · exact absurd hfaulty hfault
    cases hcurrent : DownloadCheckpointStorage.store.current u.device with
    | none => exact Holds.pure hv ⟨hd, rfl, .inl rfl⟩
    | some c =>
        dsimp only
        split
        · exact Holds.pure hv ⟨hd, rfl, .inl rfl⟩
        · next hopen => exact Holds.pure hv ⟨hd, rfl, .inr ⟨c, hcurrent, hopen, rfl⟩⟩
  refine Holds.bind hrestore ?_ (fun _ hd => hd)
  rintro ⟨status, g'⟩ v hv ⟨hd', hok, hr⟩
  dsimp only at hok hr ⊢
  rw [hok, if_neg (not_not.2 rfl)]
  rw [← hd'] at hstored hr ⊢
  rcases hr with rfl | ⟨c, hc, hopen, rfl⟩
  · rw [if_pos hidle]
    exact mirrorPersistentTrialState_holds hv version hstorage hidle hstored
  · have hnot : (restored g c).state ≠ .idle := by
      rcases restored_open g c with h | h <;> rw [h] <;> decide
    rw [if_neg hnot]
    exact Holds.pure hv ⟨rfl, restored_tracks hstorage hstored hc hopen⟩

end Start

end OtaReceiver

end SecureDeltaOta
