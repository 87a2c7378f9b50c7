import SecureDeltaOta.App.Packets
import SecureDeltaOta.Crash.Simulation

/-!
# What the application does to the node

A packet changes the incoming partition and the download checkpoint, or it asks
for one record to be persisted: the request to install an artifact, or the
confirmation of a trial. Nothing else of the node changes, whatever the
environment does to the flash operations, and the session changes in one of five
ways.
-/

namespace SecureDeltaOta

open Memory Crash MetadataStorage

/-- A download changes the incoming partition and the checkpoint only. -/
structure Downloads (d d' : Device) : Prop where
  frame : PartFrame (fun _ => True) (fun p => p ≠ .incoming ∧ p ≠ .metadataA ∧ p ≠ .metadataB) d d'
  history : d'.history = d.history

instance : IsPreorder Device Downloads where
  refl d := ⟨refl_of (PartFrame _ _) d, rfl⟩
  trans _ _ _ h h' := ⟨trans_of (PartFrame _ _) h.frame h'.frame, h'.history.trans h.history⟩

namespace Downloads

variable {d d' : Device}

theorem internal (h : Downloads d d') (a : Nat) : d'.internal a = d.internal a :=
  h.frame.internal a trivial

theorem persisted (h : Downloads d d') : persisted d' = persisted d :=
  persisted_congr fun a _ => h.internal a

theorem log (h : Downloads d d') : d'.log = d.log := by
  unfold Device.log
  rw [h.persisted, h.history]

theorem app (h : Downloads d d') : d'.app = d.app :=
  funext fun i => h.internal (applicationStartAddress + i)

theorem backup (h : Downloads d d') {i : Nat} (hi : i < ExternalPartition.backup.size) :
    d'.part .backup i = d.part .backup i :=
  h.frame.part (by decide) hi

end Downloads

theorem allows_downloads {p : ExternalPartition}
    (hp : p = .incoming ∨ p = .metadataA ∨ p = .metadataB) :
    Allows Downloads p.address (p.address + p.size) := by
  intro d start n bytes hlo hhi
  refine ⟨allows_partFrame ?_ d start n bytes hlo hhi, rfl⟩
  rcases hp with rfl | rfl | rfl <;> simp

theorem allows_checkpoint (slot : Slot) :
    Allows Downloads (RecordStore.partitionForSlot slot).address
      ((RecordStore.partitionForSlot slot).address + (RecordStore.partitionForSlot slot).size) := by
  refine allows_downloads ?_
  unfold RecordStore.partitionForSlot
  split <;> simp

/-- A program that changes nothing but the download, and what it returns. -/
structure Handles {α : Type} (m : Prog Machine α) (Q : α → Prop) : Prop where
  downloads : Keeps Downloads m
  returns : Returns m Q

namespace Handles

variable {α β : Type} {Q : α → Prop} {Q' : β → Prop}

theorem pure {a : α} (h : Q a) : Handles (Pure.pure a : Prog Machine α) Q :=
  ⟨Keeps.pure a, Returns.pure h⟩

theorem read {f : Machine → α} (h : ∀ s, Q (f s)) : Handles (Prog.read f) Q :=
  ⟨Keeps.read f, Returns.read h⟩

theorem of_keeps {m : Prog Machine α} (h : Keeps Downloads m) : Handles m fun _ => True :=
  ⟨h, Returns.trivial m⟩

theorem bind {m : Prog Machine α} {k : α → Prog Machine β} (hm : Handles m Q)
    (hk : ∀ a, Q a → Handles (k a) Q') : Handles (m >>= k) Q' := by
  refine ⟨?_, hm.returns.bind fun a ha => (hk a ha).returns⟩
  intro s
  have hdownloads := hm.downloads s
  rw [Prog.bind_apply]
  cases hrun : m s with
  | done a t =>
      rw [hrun] at hdownloads
      exact trans_of Downloads hdownloads ((hk a (hm.returns s a t hrun)).downloads t)
  | cut t | spin t =>
      rw [hrun] at hdownloads
      exact hdownloads

theorem ite {c : Prop} [Decidable c] {m n : Prog Machine α} (hm : c → Handles m Q)
    (hn : ¬ c → Handles n Q) : Handles (if c then m else n) Q := by
  split
  · next hc => exact hm hc
  · next hc => exact hn hc

end Handles

namespace OtaReceiver

/-! ## Sessions -/

/-- Two sessions stand for the same download in the same state. -/
structure Same (g g' : Session) : Prop where
  state : g'.state = g.state
  updateId : g'.updateId = g.updateId
  expectedSize : g'.expectedSize = g.expectedSize
  nextOffset : g'.nextOffset = g.nextOffset

/-- What a packet makes of a session. -/
inductive Progress (version : UInt32) (g : Session) (request : OtaPacket) (g' : Session) : Prop
  | same (h : Same g g')
  | opened (hid : request.updateId ≠ 0)
      (hstart : refuseStart version (parseStart request.payload) = none)
      (h : Same (opened g request.updateId (parseStart request.payload)) g')
  | advanced (hcommand : request.command = OtaCommand.data.code) (hstate : g.state = .receiving)
      (hid : request.updateId = g.updateId) (hnext : refuseData g request = none)
      (h : Same (advanced g request) g')
  | ready (hstate : g.state = .receiving) (h : Same { g with state := .artifactReady } g')
  | closed (st : UpdateState) (hst : st ∉ [.receiving, .artifactReady]) (h : g'.state = st)

section Handlers

variable {g : Session} {request : OtaPacket} {version : UInt32}

theorem progress_nack (status : OtaStatus) (detail : UInt32) :
    Progress version g request (nack g request status detail).1 :=
  .same ⟨rfl, rfl, rfl, rfl⟩

theorem nackStorage_handles :
    Handles (nackStorage g request) (fun r => Progress version g request r.1) :=
  Handles.read fun _ => progress_nack _ _

theorem replyCheckpoint_same (g : Session) (request : OtaPacket) (status : RecordStorageStatus) :
    Same g (replyCheckpoint g request status).1 := by
  unfold replyCheckpoint
  split <;> exact ⟨rfl, rfl, rfl, rfl⟩

theorem persistDownloadCheckpoint_handles (g : Session) (state : DownloadCheckpointState)
    (offset : UInt32) :
    Handles (persistDownloadCheckpoint g state offset)
      (fun r => ∃ persisted, r.2 = { g with persistedOffset := persisted }) := by
  refine Handles.bind (.of_keeps (RecordStore.commit_keeps allows_checkpoint _)) fun r _ => ?_
  cases r with
  | error status => exact Handles.pure ⟨g.persistedOffset, rfl⟩
  | ok committed => exact Handles.pure ⟨committed.nextOffset, rfl⟩

/-- After a packet of data the session is the same, up to what is persisted. -/
theorem acknowledgeData_handles (g : Session) (request : OtaPacket) :
    Handles (do
      let (status, g) ← persistReceiveBoundaryIfNeeded g
      pure (replyCheckpoint g request status)) (fun r : Reply => Same g r.1) := by
  have hpersist : Handles (persistReceiveBoundaryIfNeeded g)
      (fun r => ∃ persisted, r.2 = { g with persistedOffset := persisted }) :=
    Handles.ite (fun _ => Handles.pure ⟨g.persistedOffset, rfl⟩)
      fun _ => persistDownloadCheckpoint_handles g _ _
  refine hpersist.bind fun r hr => Handles.pure ?_
  obtain ⟨status, g'⟩ := r
  obtain ⟨persisted, hg'⟩ := hr
  dsimp only at hg' ⊢
  obtain ⟨hstate, hid, hsize, hoffset⟩ := replyCheckpoint_same g' request status
  rw [hg'] at hstate hid hsize hoffset ⊢
  exact ⟨hstate, hid, hsize, hoffset⟩

theorem processStart_handles (version : UInt32) :
    Handles (processStart version g request) (fun r => Progress version g request r.1) := by
  unfold processStart
  refine Handles.ite (fun _ => Handles.pure (progress_nack _ _)) fun _ =>
    Handles.ite (fun _ => Handles.pure (progress_nack _ _)) fun _ =>
    Handles.ite (fun _ => nackStorage_handles) fun _ =>
    Handles.ite (fun _ => Handles.pure (progress_nack _ _)) fun hid => ?_
  cases hstart : refuseStart version (parseStart request.payload) with
  | some refusal => exact Handles.pure (progress_nack _ _)
  | none =>
      refine (persistDownloadCheckpoint_handles _ _ _).bind fun r hr => ?_
      obtain ⟨status, g'⟩ := r
      obtain ⟨persisted, hg'⟩ := hr
      dsimp only at hg' ⊢
      subst hg'
      exact Handles.ite (fun _ => Handles.pure (.closed .idle (by decide) rfl))
        fun _ => Handles.pure (.opened hid hstart ⟨rfl, rfl, rfl, rfl⟩)

theorem ensureIncomingSectorsErased_downloads (bitmap offset : UInt32) (length : Nat) :
    Keeps Downloads (ensureIncomingSectorsErased bitmap offset length) := by
  unfold ensureIncomingSectorsErased
  refine Keeps.ite (Keeps.pure _) (Keeps.loopThen (fun st _ => ?_) (fun _ => Keeps.pure _) _ _)
  refine Keeps.ite (Keeps.bind (eraseRange_keeps fun hin => ?_) fun erased => ?_) (Keeps.pure _)
  · exact (allows_downloads (.inl rfl)).mono (Nat.le_add_right _ _) (by omega)
  · exact Keeps.ite (Keeps.pure _) (Keeps.pure _)

/-- Storing the next packet advances the session, or leaves it. -/
theorem storeData_handles :
    Handles (storeData g request) (fun r => Same g r.1 ∨ Same (advanced g request) r.1) := by
  have hrefuse : ∀ bitmap, Handles (nackStorage { g with erasedSectorBitmap := bitmap } request)
      (fun r => Same g r.1 ∨ Same (advanced g request) r.1) :=
    fun bitmap => Handles.read fun _ => .inl ⟨rfl, rfl, rfl, rfl⟩
  refine Handles.bind (.of_keeps (ensureIncomingSectorsErased_downloads _ _ _)) fun erased _ =>
    Handles.ite (fun _ => hrefuse _) fun _ =>
    Handles.bind (.of_keeps (storageWrite_keeps fun hin => ?_)) fun written _ =>
    Handles.ite (fun _ => hrefuse _) fun _ =>
    Handles.bind (.of_keeps (storageVerify_keeps _ _ _)) fun verified _ =>
    Handles.ite (fun _ => hrefuse _) fun _ => ?_
  · exact (allows_downloads (.inl rfl)).mono (Nat.le_add_right _ _) (by omega)
  · have hacknowledge := acknowledgeData_handles
      (advanced { g with erasedSectorBitmap := erased.2 } request) request
    refine ⟨hacknowledge.downloads, hacknowledge.returns.mono fun r hr => .inr ?_⟩
    exact ⟨hr.state, hr.updateId, hr.expectedSize, hr.nextOffset⟩

theorem processData_handles (version : UInt32) (hcommand : request.command = OtaCommand.data.code) :
    Handles (processData g request) (fun r => Progress version g request r.1) := by
  unfold processData
  refine Handles.ite (fun _ => Handles.pure (progress_nack _ _)) fun hstate =>
    Handles.ite (fun _ => Handles.pure (progress_nack _ _)) fun hid =>
    Handles.ite (fun _ => Handles.pure (progress_nack _ _)) fun _ =>
    Handles.ite (fun _ => ?_) fun _ => ?_
  · have hmatches : Keeps Downloads (storedDataMatches request) := by
      refine Keeps.bind (storageRead_keeps _ _ _) fun r => ?_
      cases r <;> exact Keeps.pure _
    refine Handles.bind (.of_keeps hmatches) fun matched _ =>
      Handles.ite (fun _ => ?_) fun _ => Handles.pure (progress_nack _ _)
    exact ⟨(acknowledgeData_handles g request).downloads,
      (acknowledgeData_handles g request).returns.mono fun r hr => .same hr⟩
  · cases hnext : refuseData g request with
    | some refusal => exact Handles.pure (progress_nack _ _)
    | none =>
        refine ⟨storeData_handles.downloads, storeData_handles.returns.mono fun r hr => ?_⟩
        rcases hr with hsame | hadvanced
        · exact .same hsame
        · exact .advanced hcommand (not_not.1 hstate) (not_not.1 hid) hnext hadvanced

theorem processFinish_handles (version : UInt32) :
    Handles (processFinish g request) (fun r => Progress version g request r.1) := by
  have hcrc : Keeps Downloads (calculateIncomingCrc g.expectedSize.toNat) := by
    unfold calculateIncomingCrc
    exact foldChunks_keeps fun _ _ => storageRead_keeps _ _ _
  unfold processFinish
  refine Handles.ite (fun _ => Handles.pure (progress_nack _ _)) fun _ =>
    Handles.ite (fun _ => Handles.pure (.same ⟨rfl, rfl, rfl, rfl⟩)) fun _ =>
    Handles.ite (fun _ => Handles.pure (progress_nack _ _)) fun hstate =>
    Handles.ite (fun _ => Handles.pure (progress_nack _ _)) fun _ =>
    Handles.ite (fun _ => Handles.pure (progress_nack _ _)) fun _ =>
    Handles.bind (.of_keeps hcrc) fun crc _ => ?_
  cases crc with
  | none => exact nackStorage_handles
  | some artifactCrc =>
      refine Handles.ite (fun _ => Handles.pure (.closed .failed (by decide) rfl)) fun _ =>
        (persistDownloadCheckpoint_handles g _ _).bind fun r hr => ?_
      obtain ⟨status, g'⟩ := r
      obtain ⟨persisted, hg'⟩ := hr
      dsimp only at hg' ⊢
      subst hg'
      exact Handles.ite (fun _ => Handles.pure (.same ⟨rfl, rfl, rfl, rfl⟩))
        fun _ => Handles.pure (.ready (not_not.1 hstate) ⟨rfl, rfl, rfl, rfl⟩)

theorem processAbort_handles (version : UInt32) :
    Handles (processAbort g request) (fun r => Progress version g request r.1) := by
  have hclear : Handles (clearDownloadCheckpoint g) (fun r => Same g r.2) :=
    Handles.bind (.of_keeps (DownloadCheckpointStorage.clear_keeps allows_checkpoint))
      fun status _ => Handles.ite (fun _ => Handles.pure ⟨rfl, rfl, rfl, rfl⟩)
        fun _ => Handles.pure ⟨rfl, rfl, rfl, rfl⟩
  refine Handles.ite (fun _ => Handles.pure (progress_nack _ _)) fun _ =>
    hclear.bind fun r hr => ?_
  refine Handles.ite (fun _ => Handles.pure (.same ?_))
    fun _ => Handles.pure (.closed .idle (by decide) rfl)
  exact ⟨hr.state, hr.updateId, hr.expectedSize, hr.nextOffset⟩

theorem processInstall_progress :
    Returns (processInstall version g request) (fun r => Progress version g request r.1) := by
  unfold processInstall
  refine Returns.ite (fun _ => Returns.pure (progress_nack _ _)) fun _ =>
    Returns.ite (fun _ => Returns.pure (progress_nack _ _)) fun _ =>
    Returns.ite (fun _ => Returns.pure (progress_nack _ _)) fun _ =>
    Returns.ite (fun _ => Returns.pure (progress_nack _ _)) fun _ =>
    Returns.bind (Returns.trivial _) fun container _ =>
    Returns.ite (fun _ => Returns.pure (progress_nack _ _)) fun _ =>
    Returns.bind (Returns.trivial _) fun failure _ => ?_
  cases failure with
  | some detail => exact Returns.pure (progress_nack _ _)
  | none => exact Returns.pure (.same ⟨rfl, rfl, rfl, rfl⟩)

theorem processConfirm_progress :
    Returns (processConfirm version g request) (fun r => Progress version g request r.1) := by
  unfold processConfirm
  refine Returns.ite (fun _ => Returns.pure (progress_nack _ _)) fun _ =>
    Returns.ite (fun _ => Returns.pure (progress_nack _ _)) fun _ =>
    Returns.ite (fun _ => Returns.pure (progress_nack _ _)) fun _ =>
    Returns.bind (Returns.trivial _) fun failure _ => ?_
  cases failure with
  | some detail => exact Returns.pure (progress_nack _ _)
  | none => exact Returns.pure (.closed .confirmed (by decide) rfl)

theorem progress_processResume : Progress version g request (processResume g request).1 := by
  unfold processResume
  split_ifs <;> exact .same ⟨rfl, rfl, rfl, rfl⟩

theorem progress_processQuery : Progress version g request (processQuery version g request).1 := by
  unfold processQuery
  split_ifs <;> exact .same ⟨rfl, rfl, rfl, rfl⟩

/-- Two commands ask for a record; the others are handled as part of a download. -/
theorem processPacket_cases (version : UInt32) (g : Session) (request : OtaPacket) :
    Handles (processPacket version g request) (fun r => Progress version g request r.1) ∨
      processPacket version g request = processInstall version g request ∨
      processPacket version g request = processConfirm version g request := by
  unfold processPacket
  cases hcode : OtaCommand.ofCode request.command with
  | none => exact .inl (Handles.pure (progress_nack _ _))
  | some command =>
      cases command with
      | hello | query | status => exact .inl (Handles.pure progress_processQuery)
      | start => exact .inl (processStart_handles version)
      | data => exact .inl (processData_handles version (OtaCommand.ofCode_eq_some.1 hcode))
      | finish => exact .inl (processFinish_handles version)
      | abort => exact .inl (processAbort_handles version)
      | resume => exact .inl (Handles.pure progress_processResume)
      | install => exact .inr (.inl rfl)
      | confirm => exact .inr (.inr rfl)
      | ack | nack => exact .inl (Handles.pure (progress_nack _ _))

/-- Whatever the flash does, a packet makes one of these steps with the session. -/
theorem processPacket_progress (version : UInt32) (g : Session) (request : OtaPacket) :
    Returns (processPacket version g request) (fun r => Progress version g request r.1) := by
  rcases processPacket_cases version g request with h | h | h
  · exact h.returns
  · rw [h]
    exact processInstall_progress
  · rw [h]
    exact processConfirm_progress

/-- The start of the application changes nothing. -/
theorem init_unchanged {R : Device → Device → Prop} [IsPreorder Device R] (version : UInt32) :
    Keeps R (init version) := by
  refine Keeps.bind spiInit_keeps fun initialized => Keeps.bind (Keeps.read _) fun detail =>
    Keeps.ite (Keeps.pure _) ?_
  have hrestore : Keeps R (restoreDownloadCheckpoint (resetTransfer
      { zeroed with storageReady := true, lastStatus := .ok, lastErrorDetail := 0 })) := by
    refine Keeps.bind RecordStore.load_keeps fun r => ?_
    cases r with
    | error status => cases status <;> exact Keeps.pure _
    | ok record => exact Keeps.ite (Keeps.pure _) (Keeps.pure _)
  exact Keeps.bind hrestore fun r =>
    Keeps.ite (Keeps.pure _) (Keeps.ite (Keeps.read _) (Keeps.pure _))

end Handlers

/-! ## Requests -/

/-- What the application asks to be persisted, given the record that is current. -/
inductive Request (version : UInt32) (g : Session) : Option BootMetadata → BootMetadata → Prop
  | install {before : Option BootMetadata} (hstate : g.state = .artifactReady)
      (htarget : g.targetVersion ≠ 0) :
      Request version g before (installRequest g (before.getD (BootMetadata.init version)))
  | confirm {m : BootMetadata} (hstate : m.state = UpdateState.trialBoot.code)
      (hpending : m.pendingVersion = version) (hpos : m.bootAttempts > 0)
      (hle : m.bootAttempts ≤ BootMetadata.maxBootAttempts) :
      Request version g (some m) (TrialConfirmation.confirmed m)

/-- A download went on, or one record was asked for; the node resets itself if it is persisted. -/
def Affects (μ : Mode) (version : UInt32) (g : Session) (d₀ : Device) (resets : Bool)
    (d : Device) : Prop :=
  Downloads d₀ d ∨ ∃ requested r, Request version g (persisted d₀) requested ∧
    CommitEnd μ requested d₀ r d ∧ ((∃ c, r = .ok c) → resets = true)

/-- What becomes of the node; a call that does not return leaves a download. -/
def Effects {α : Type} (μ : Mode) (version : UInt32) (g : Session) (d₀ : Device)
    (resets : α → Bool) (r : Result Machine α) : Prop :=
  Downloads d₀ r.state.device ∨ ∃ a t, r = .done a t ∧ Affects μ version g d₀ (resets a) t.device

section Effects

variable {α : Type} {μ : Mode} {up : Bool} {s : Machine} {g : Session} {version : UInt32}
  {request : OtaPacket} {resets : α → Bool}

theorem effects_of_keeps {m : Prog Machine α} (h : Keeps Downloads m) :
    Effects μ version g s.device resets (m s) :=
  .inl (h s)

theorem effects_of_holds {d₀ : Device} {r : Result Machine α}
    (h : Holds μ up r (fun a d => Affects μ version g d₀ (resets a) d) (Downloads d₀)) :
    Effects μ version g d₀ resets r := by
  cases r with
  | done a t => exact .inr ⟨a, t, rfl, h.2⟩
  | cut t => exact .inl h.2
  | spin t => exact h.elim

theorem affects_same {d d₀ : Device} (h : d = d₀) (reset : Bool) :
    Affects μ version g d₀ reset d :=
  .inl (h ▸ refl_of Downloads _)

/-- A commit and the answer to it; a cut leaves the device alone where commits are atomic. -/
theorem commit_affects (hs : Env μ up s) (hatomic : μ.atomicCommit = true)
    {requested : BootMetadata} (hrequest : Request version g (persisted s.device) requested)
    (detail : MetadataStorageStatus → UInt32) :
    Holds μ up ((do
        match ← commit requested with
        | .error status => pure (some (detail status))
        | .ok _ => pure none : Prog Machine (Option UInt32)) s)
      (fun r d => ∀ reset, (r = none → reset = true) → Affects μ version g s.device reset d)
      (Downloads s.device) := by
  refine Holds.bind (commit_ends hs requested) ?_ ?_
  · intro r u hu hends
    cases r with
    | error status =>
        exact Holds.pure hu fun reset _ => .inr ⟨requested, _, hrequest, hends,
          fun hok => by cases hok.choose_spec⟩
    | ok c =>
        exact Holds.pure hu fun reset hreset => .inr ⟨requested, _, hrequest, hends,
          fun _ => hreset rfl⟩
  · intro d hd
    rw [hd.2.2 hatomic]
    exact refl_of Downloads _

theorem persistSecureInstallRequest_affects (hs : Env μ up s) (hatomic : μ.atomicCommit = true)
    (hstate : g.state = .artifactReady) (htarget : g.targetVersion ≠ 0) :
    Holds μ up (persistSecureInstallRequest version g s)
      (fun r d => ∀ reset, (r = none → reset = true) → Affects μ version g s.device reset d)
      (Downloads s.device) := by
  have hrequest : Request version g (persisted s.device)
      (installRequest g ((persisted s.device).getD (BootMetadata.init version))) :=
    .install hstate htarget
  refine Holds.read_bind ?_
  rw [load_eq]
  cases hpersisted : persisted s.device
  all_goals
    rw [hpersisted] at hrequest
    dsimp only
    rw [if_neg (by simp)]
    exact commit_affects hs hatomic (hpersisted ▸ hrequest) _

theorem confirmNow_affects (hs : Env μ up s) (hatomic : μ.atomicCommit = true) :
    Holds μ up (TrialConfirmation.confirmNow version s)
      (fun r d => ∀ reset, (r = none → reset = true) → Affects μ version g s.device reset d)
      (Downloads s.device) := by
  refine Holds.read_bind ?_
  cases hload : TrialConfirmation.loadTrialMetadata version s.device with
  | none => exact Holds.pure hs fun reset _ => affects_same rfl reset
  | some metadata =>
      refine commit_affects hs hatomic ?_ _
      unfold TrialConfirmation.loadTrialMetadata at hload
      rw [load_eq] at hload
      cases hpersisted : persisted s.device with
      | none =>
          rw [hpersisted] at hload
          cases hload
      | some m =>
          rw [hpersisted] at hload
          dsimp only at hload
          split at hload
          · next htrial =>
            cases hload
            exact .confirm htrial.1 htrial.2.1 htrial.2.2.1 htrial.2.2.2
          · cases hload

theorem processInstall_affects (hs : Env μ up s) (hup : μ.Usable up)
    (hatomic : μ.atomicCommit = true) :
    Holds μ up (processInstall version g request s)
      (fun r d => Affects μ version g s.device r.1.resetPending d) (Downloads s.device) := by
  unfold processInstall
  split
  · exact Holds.pure hs (affects_same rfl _)
  split
  · exact Holds.pure hs (affects_same rfl _)
  next hstate =>
  split
  · exact Holds.pure hs (affects_same rfl _)
  split
  · exact Holds.pure hs (affects_same rfl _)
  next htarget =>
  refine Holds.bind (incomingLooksLikeSecureContainer_holds hs hup) ?_
    (fun d hd => hd ▸ refl_of Downloads _)
  intro container u hu hd
  split
  · exact Holds.pure hu (affects_same hd _)
  refine Holds.bind (persistSecureInstallRequest_affects hu hatomic (not_not.1 hstate) htarget) ?_
    (fun d hdownloads => hd ▸ hdownloads)
  intro r v hv haffects
  rw [hd] at haffects
  cases r with
  | some detail => exact Holds.pure hv (haffects _ fun hnone => by cases hnone)
  | none => exact Holds.pure hv (haffects _ fun _ => rfl)

theorem processConfirm_affects (hs : Env μ up s) (hatomic : μ.atomicCommit = true) :
    Holds μ up (processConfirm version g request s)
      (fun r d => Affects μ version g s.device r.1.resetPending d) (Downloads s.device) := by
  unfold processConfirm
  split
  · exact Holds.pure hs (affects_same rfl _)
  split
  · exact Holds.pure hs (affects_same rfl _)
  split
  · exact Holds.pure hs (affects_same rfl _)
  refine Holds.bind (confirmNow_affects (g := g) hs hatomic) ?_ (fun _ hd => hd)
  intro r u hu haffects
  cases r with
  | some detail => exact Holds.pure hu (haffects _ fun hnone => by cases hnone)
  | none => exact Holds.pure hu (haffects _ fun _ => rfl)

/-- What a packet does to the node. -/
theorem processPacket_effects (hs : Env μ up s) (hup : μ.Usable up)
    (hatomic : μ.atomicCommit = true) (version : UInt32) (g : Session) (request : OtaPacket) :
    Effects μ version g s.device (fun r : Reply => r.1.resetPending)
      (processPacket version g request s) := by
  rcases processPacket_cases version g request with h | h | h
  · exact effects_of_keeps h.downloads
  · rw [h]
    exact effects_of_holds (processInstall_affects hs hup hatomic)
  · rw [h]
    exact effects_of_holds (processConfirm_affects hs hatomic)

/-- What a turn of the main loop does to the node. -/
theorem processTrial_effects (hs : Env μ up s) (hatomic : μ.atomicCommit = true)
    (version : UInt32) (g : Session) (trial : Trial) (nowMs : UInt32) :
    Effects μ version g s.device id (TrialConfirmation.process version trial nowMs s) := by
  unfold TrialConfirmation.process
  split
  swap
  · exact effects_of_keeps (Keeps.pure _)
  refine effects_of_holds (Holds.bind (confirmNow_affects (g := g) hs hatomic) ?_ (fun _ hd => hd))
  intro r u hu haffects
  refine Holds.pure hu (haffects _ fun hnone => ?_)
  rw [hnone]
  rfl

end Effects

end OtaReceiver

end SecureDeltaOta
