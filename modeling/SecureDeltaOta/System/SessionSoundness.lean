import SecureDeltaOta.App.ReceiverEffects
import SecureDeltaOta.System.Node

/-!
# Sessions that can be checkpointed

Whatever the flash does and whatever arrives, a session in `RECEIVING` describes
a download that a checkpoint can stand for, and a session in `ARTIFACT_READY` an
artifact whose installation can be asked for. A property of sessions that holds
when the application starts and is kept by each packet holds in every run.
-/

namespace SecureDeltaOta

open Memory Crash

namespace OtaReceiver

/-- A session that receives can be checkpointed. -/
def Sound (g : Session) : Prop := g.state = .receiving → Checkpointable g

/-- A session that is ready can be asked to be installed as well. -/
structure Servable (g : Session) : Prop where
  sound : Sound g
  ready : g.state = .artifactReady → Checkpointable g

section Commands

variable {g : Session} {request : OtaPacket} {version : UInt32}

theorem Same.checkpointable {g' : Session} (h : Same g g') (hg : Checkpointable g) :
    Checkpointable g' := by
  obtain ⟨hid, hpos, hsize, hoffset⟩ := hg
  refine ⟨?_, ?_, ?_, ?_⟩
  · rwa [h.updateId]
  · rwa [h.expectedSize]
  · rwa [h.expectedSize]
  · rwa [h.expectedSize, h.nextOffset]

theorem advanced_checkpointable (hg : Checkpointable g) (hnext : refuseData g request = none) :
    Checkpointable (advanced g request) := by
  obtain ⟨-, hoffset, hroom⟩ := refuseData_eq_none.1 hnext
  rw [remaining_toNat hg.offset_le] at hroom
  have hle := hg.offset_le
  have hmax := hg.size_le
  exact (advanced_advances (by omega)).checkpointable hg (by omega)

/-- After a packet the download is the same, or it is a sound one, or there is none. -/
theorem Progress.sound {g' : Session} (h : Progress version g request g') (hg : Sound g) :
    Same g g' ∨ Checkpointable g' ∨
      ∃ st ∉ [UpdateState.receiving, .artifactReady], g'.state = st := by
  cases h with
  | same hsame => exact .inl hsame
  | opened hid hstart hsame =>
      exact .inr (.inl (hsame.checkpointable (opened_checkpointable g hid hstart)))
  | advanced _ hstate _ hnext hsame =>
      exact .inr (.inl (hsame.checkpointable (advanced_checkpointable (hg hstate) hnext)))
  | ready hstate hsame =>
      obtain ⟨hid, hpos, hsize, hoffset⟩ := hg hstate
      exact .inr (.inl (hsame.checkpointable ⟨hid, hpos, hsize, hoffset⟩))
  | closed st hst hclosed => exact .inr (.inr ⟨st, hst, hclosed⟩)

theorem processPacket_returns (h : Sound g) :
    Returns (processPacket version g request) (fun r : Reply => Sound r.1) := by
  intro s r t hrun hstate
  rcases (processPacket_progress version g request s r t hrun).sound h with
    hsame | hsound | ⟨st, hst, rfl⟩
  · exact hsame.checkpointable (h (hsame.state.symm.trans hstate))
  · exact hsound
  · exact absurd hst (by simp [hstate])

theorem processPacket_servable (h : Servable g) :
    Returns (processPacket version g request) (fun r : Reply => Servable r.1) := by
  intro s r t hrun
  refine ⟨processPacket_returns h.sound s r t hrun, fun hready => ?_⟩
  rcases (processPacket_progress version g request s r t hrun).sound h.sound with
    hsame | hsound | ⟨st, hst, rfl⟩
  · exact hsame.checkpointable (h.ready (hsame.state.symm.trans hready))
  · exact hsound
  · exact absurd hst (by simp [hready])

end Commands

/-! ## Start of the application -/

theorem load_returns_valid :
    Returns DownloadCheckpointStorage.load (fun r => ∀ c, r = .ok c →
      DownloadCheckpoint.validate c = .valid) := by
  refine Returns.bind (Returns.trivial _) fun a _ => ?_
  cases a with
  | none => exact Returns.pure fun c hc => by cases hc
  | some a =>
      refine Returns.bind (Returns.trivial _) fun b _ => ?_
      cases b with
      | none => exact Returns.pure fun c hc => by cases hc
      | some b =>
          have hvalid : ∀ c, DownloadCheckpointStorage.store.slots.current a b = some c →
              DownloadCheckpoint.validate c = .valid :=
            fun c hc => DownloadCheckpointStorage.isValid_iff.1 (SlotFormat.current_isValid hc)
          unfold SlotFormat.current at hvalid
          dsimp only
          cases hslot : DownloadCheckpointStorage.store.slots.selectNewestSlot a b with
          | none => exact Returns.pure fun c hc => by cases hc
          | a =>
              refine Returns.pure fun c hc => ?_
              cases hc
              exact hvalid a (by rw [hslot])
          | b =>
              refine Returns.pure fun c hc => ?_
              cases hc
              exact hvalid b (by rw [hslot])

/-- A session without a download, or with the one of a valid checkpoint. -/
def Initial (g : Session) : Prop :=
  (∃ st ∉ [UpdateState.receiving, .artifactReady], g.state = st) ∨
    ∃ g₀ record, DownloadCheckpoint.validate record = .valid ∧
      record.state ≠ DownloadCheckpointState.idle.code ∧ g = restored g₀ record

theorem init_session (version : UInt32) : Returns (init version) Initial := by
  have hidle : ∀ {g : Session}, g.state = .idle → Initial g :=
    fun h => .inl ⟨.idle, by decide, h⟩
  have hrestore : ∀ {g : Session}, g.state = .idle →
      Returns (restoreDownloadCheckpoint g) (fun r => Initial r.2) := by
    intro g hg
    refine Returns.bind load_returns_valid fun r hr => ?_
    cases r with
    | error status => cases status <;> exact Returns.pure (hidle hg)
    | ok record =>
        exact Returns.ite (fun _ => Returns.pure (hidle hg))
          fun hopen => Returns.pure (.inr ⟨g, record, hr record rfl, hopen, rfl⟩)
  refine Returns.bind (Returns.trivial _) fun initialized _ =>
    Returns.bind (Returns.trivial _) fun detail _ =>
    Returns.ite (fun _ => Returns.pure (hidle rfl)) fun _ =>
    Returns.bind (hrestore rfl) fun r hr =>
    Returns.ite (fun _ => Returns.pure (hidle rfl)) fun _ =>
    Returns.ite (fun _ => Returns.read fun s => ?_) fun _ => Returns.pure hr
  cases MetadataStorage.load version s.device with
  | mk status metadata =>
      cases status with
      | ok =>
          dsimp only
          split_ifs
          · exact .inl ⟨.trialBoot, by decide, rfl⟩
          · exact .inl ⟨.confirmed, by decide, rfl⟩
          · exact hr
      | _ => exact hr

theorem init_servable (version : UInt32) : Returns (init version) Servable := by
  intro s g t hinit
  rcases init_session version s g t hinit with ⟨st, hst, rfl⟩ | ⟨g₀, record, hvalid, hopen, rfl⟩
  · exact ⟨fun hstate => absurd hst (by simp [hstate]), fun hstate => absurd hst (by simp [hstate])⟩
  · exact ⟨fun _ => restored_checkpointable g₀ hvalid hopen,
      fun _ => restored_checkpointable g₀ hvalid hopen⟩

end OtaReceiver

/-! ## Nodes -/

namespace Node

variable {build : Build} {atomicCommit : Bool} {n : Node} {I : Session → Prop}

/-- The session of a running application meets `I`. -/
def Sessions (I : Session → Prop) (n : Node) : Prop := ∀ app, n.app = some app → I app.session

theorem sessions_off (h : n.app = none) : n.Sessions I := by
  intro app happ
  rw [h] at happ
  cases happ

theorem sessions_some {d : Device} {app : App} (h : I app.session) : Sessions I ⟨d, some app⟩ := by
  intro app' happ
  cases happ
  exact h

/-- One action keeps an invariant of sessions. -/
theorem step_sessions (hinit : ∀ version, Returns (OtaReceiver.init version) I) {a : Action}
    (hpacket : ∀ request script, a = .packet request script → ∀ version g, I g →
      Returns (OtaReceiver.processPacket version g request) (fun r => I r.1)) (h : n.Sessions I) :
    (n.step build atomicCommit a).Sessions I := by
  unfold step act
  cases a with
  | powerUp boot version nowMs start =>
      dsimp only
      unfold powerUp
      split
      · split
        · next app t hstart =>
            obtain ⟨session, u, hsession, hrest⟩ := bind_done hstart
            obtain ⟨trial, v, htrial, hlast⟩ := bind_done hrest
            cases hlast
            exact sessions_some (hinit version _ _ _ hsession)
        · exact sessions_off rfl
      · exact sessions_off rfl
  | packet request script =>
      cases happ : n.app with
      | none => exact sessions_off happ
      | some app =>
          dsimp only
          unfold processPacket
          split
          · next session response t hrun =>
              unfold afterPacket
              split
              · exact sessions_off rfl
              · exact sessions_some
                  (hpacket request script rfl app.version _ (h app happ) _ _ _ hrun)
          · exact sessions_off rfl
  | corrupted request =>
      cases happ : n.app with
      | none => exact sessions_off happ
      | some app => exact h
  | tick nowMs script =>
      cases happ : n.app with
      | none => exact sessions_off happ
      | some app =>
          dsimp only
          unfold processTrial
          split
          · exact sessions_some (h app happ)
          · exact sessions_off rfl

theorem run_sessions (hinit : ∀ version, Returns (OtaReceiver.init version) I)
    {actions : List Action}
    (hpacket : ∀ request script, .packet request script ∈ actions → ∀ version g, I g →
      Returns (OtaReceiver.processPacket version g request) (fun r => I r.1)) (h : n.Sessions I) :
    (n.run build atomicCommit actions).Sessions I := by
  induction actions generalizing n with
  | nil => exact h
  | cons a actions ih =>
      refine ih (fun request script hmem => hpacket request script (.tail _ hmem)) ?_
      exact step_sessions hinit (fun request script ha => hpacket request script (ha ▸ .head _)) h

/-- The sessions of a node stay servable. -/
theorem step_servable (h : n.Sessions OtaReceiver.Servable) (a : Action) :
    (n.step build atomicCommit a).Sessions OtaReceiver.Servable :=
  step_sessions OtaReceiver.init_servable
    (fun _ _ _ _ _ hg => OtaReceiver.processPacket_servable hg) h

/-- The session of a running application is sound. -/
def SoundSession (n : Node) : Prop := ∀ app, n.app = some app → OtaReceiver.Sound app.session

theorem soundSession_off (d : Device) : SoundSession ⟨d, none⟩ := sessions_off rfl

/-- Whatever happens to a node, its session stays sound. -/
theorem run_soundSession (h : n.SoundSession) (actions : List Action) :
    (n.run build atomicCommit actions).SoundSession :=
  run_sessions (fun version => (OtaReceiver.init_servable version).mono fun _ hg => hg.sound)
    (fun _ _ _ _ _ hg => OtaReceiver.processPacket_returns hg) h

end Node

end SecureDeltaOta
