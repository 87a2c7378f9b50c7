import SecureDeltaOta.Boot.UpdateStages
import SecureDeltaOta.System.CommitHistory

/-!
# The stages of a node

The stages of an update carry over from boots to whole nodes: a download leaves
the stage alone, and the two records the application asks for lead to a stage
again. The active version of the record changes only where a boot closes a
confirmed update.
-/

namespace SecureDeltaOta

open Memory Crash MetadataStorage

namespace BootManager

open ImageInstaller (BackupHolds)

variable {key : TrustedKey} {μ : Mode} {P : Provenance key} {c c' : BootMetadata} {d d' : Device}

theorem backupHolds_downloads {record : BackupImageRecord} {image : Nat → UInt8}
    (h : BackupHolds record image d) (hd : Downloads d d') : BackupHolds record image d' := by
  have hroom : BackupImage.dataOffset + applicationMaxSize ≤ ExternalPartition.backup.size := by
    decide
  have hrecord : BackupImage.recordSize ≤ BackupImage.dataOffset := by decide
  refine ⟨?_, h.valid, h.crc, ?_⟩
  · have hheader : d'.slice .backup 0 BackupImage.recordSize =
        d.slice .backup 0 BackupImage.recordSize := by
      rw [Device.slice_eq_window, Device.slice_eq_window, window_eq_iff]
      exact fun i hi => hd.backup (by omega)
    rw [← h.header, Device.backupHeader, Device.backupHeader, hheader]
  · intro i hi
    rw [← h.image i hi]
    exact hd.backup (by omega)

/-- The states of a running application. -/
def Runs (c : BootMetadata) : Prop :=
  c.state = UpdateState.idle.code ∨ c.state = UpdateState.trialBoot.code

/-- What a stage says in the states of a running application. -/
theorem Stage.of_runs (h : Stage μ P c d) (hruns : Runs c) :
    c.state = UpdateState.idle.code ∧ P.Active d.app c.activeVersion ∨
      c.state = UpdateState.trialBoot.code ∧
        ∃ record base, Fallback P record base c d ∧ P.Trial c d.app := by
  have hother : ∀ st : UpdateState, c.state = st.code → st = .idle ∨ st = .trialBoot := by
    intro st hst
    rcases hruns with hidle | htrial
    · exact .inl (UpdateState.code_inj.1 (hst.symm.trans hidle))
    · exact .inr (UpdateState.code_inj.1 (hst.symm.trans htrial))
  cases h with
  | idle hidle _ hactive => exact .inl ⟨hidle, hactive⟩
  | received hreceived _ _ _ =>
      obtain ⟨st, hst, hcode⟩ := hreceived
      rcases hother st hcode with rfl | rfl
      · exact absurd hst (by decide)
      · exact absurd hst (by decide)
  | verified hverified _ _ _ _ => exact absurd (hother _ hverified) (by decide)
  | installing I _ _ _ hopen =>
      obtain ⟨st, hst, hrecord⟩ := hopen.record
      rcases hother st hrecord.state with rfl | rfl
      · exact absurd hst (by decide)
      · exact absurd hst (by decide)
  | trial record base hstate _ hfallback htrial =>
      exact .inr ⟨hstate, record, base, hfallback, htrial⟩
  | rollingBack record base _ hrolling => exact absurd (hother _ hrolling.record.state) (by decide)
  | confirmed hconfirmed _ _ _ => exact absurd (hother _ hconfirmed) (by decide)

/-- While the application runs, a download changes nothing of the stage. -/
theorem Stage.downloads (h : Stage μ P c d) (hruns : Runs c) (hd : Downloads d d') :
    Stage μ P c d' := by
  have hpersisted : Persisted d' c := hd.persisted.trans h.persisted
  rcases h.of_runs hruns with ⟨hstate, hactive⟩ | ⟨hstate, record, base, hfallback, htrial⟩
  · exact .idle hstate hpersisted (hd.app ▸ hactive)
  · exact .trial record base hstate hpersisted ⟨backupHolds_downloads hfallback.backup hd,
      hfallback.vectors, hfallback.active, hfallback.version⟩ (hd.app ▸ htrial)

/-- The image of a running application may be kept as the active one, on trial or not. -/
def Provenance.Retains (P : Provenance key) : Prop :=
  ∀ c app, P.Trial c app → P.Active app c.activeVersion

theorem Stage.active (h : Stage μ P c d) (hruns : Runs c) (hretains : P.Retains) :
    P.Active d.app c.activeVersion := by
  rcases h.of_runs hruns with ⟨-, hactive⟩ | ⟨-, record, base, -, htrial⟩
  · exact hactive
  · exact hretains c d.app htrial

/-- A record the application asked for leads to a stage. -/
theorem Stage.requested (h : Stage μ P c d) (hruns : Runs c)
    (hvectors : VectorsValid applicationMaxSize d.app) (hretains : P.Retains)
    (hconfirmable : P.Confirmable) {version : UInt32} {g : Session} {requested : BootMetadata}
    (hrequest : OtaReceiver.Request version g (some c) requested) (hframe : MetadataFrame d d')
    (hstores : c'.Stores requested) (hc' : Persisted d' c') :
    Stage μ P c' d' ∧ c'.activeVersion = c.activeVersion := by
  cases hrequest with
  | install hready htarget =>
      have hversion : c'.activeVersion = c.activeVersion := hstores.activeVersion
      refine ⟨.received ⟨.artifactReady, by decide, hstores.state⟩ hc'
        (active_metadata hframe ?_) (vectors_metadata hframe hvectors), hversion⟩
      rw [hversion]
      exact h.active hruns hretains
  | confirm hstate hpending hpos hle =>
      have hsame : BootMetadata.SameUpdate c' c :=
        hstores.toAgrees.sameUpdate.trans ⟨rfl, rfl, rfl, rfl, rfl⟩
      refine ⟨.confirmed hstores.state hc' hconfirmable ?_, hsame.activeVersion⟩
      rcases h.of_runs hruns with ⟨hidle, -⟩ | ⟨-, record, base, -, htrial⟩
      · rw [hidle, UpdateState.code_inj] at hstate
        cases hstate
      · exact P.trial_congr hsame (fun _ hi => ImageInstaller.MetadataFrame.app hframe hi) htrial

end BootManager

/-! ## Nodes -/

namespace Node

open BootManager (Stage Provenance Runs)

variable {build : Build} {μ : Mode} {P : Provenance build.key} {c : BootMetadata} {n : Node}

/-- A node in a stage with the record `c`. -/
structure StagedAt (μ : Mode) (P : Provenance build.key) (c : BootMetadata) (n : Node) : Prop where
  stage : Stage (μ.runs .bootloader) P c n.device
  running : ∀ app, n.app = some app → VectorsValid applicationMaxSize n.device.app ∧ Runs c

theorem stagedAt_off {d : Device} (h : Stage (μ.runs .bootloader) P c d) :
    StagedAt μ P c ⟨d, none⟩ := by
  refine ⟨h, ?_⟩
  intro app happ
  cases happ

/-- How the active version of the record may change in one action. -/
def VersionStep (c c' : BootMetadata) : Prop :=
  c'.activeVersion = c.activeVersion ∨
    c.state = UpdateState.confirmed.code ∧ c'.activeVersion = c.pendingVersion

theorem versionStep_of_follows {c c' : BootMetadata} (h : BootManager.Follows c c') :
    VersionStep c c' := by
  rcases h with ⟨hversion, -⟩ | ⟨hstate, -, hversion⟩
  · exact .inl hversion
  · exact .inr ⟨hstate, hversion⟩

/-- The node is in a stage again. -/
def Restaged (μ : Mode) (P : Provenance build.key) (c : BootMetadata) (n : Node) : Prop :=
  ∃ c', StagedAt μ P c' n ∧ VersionStep c c'

theorem powerUp_staged [μ.Sound] (hfault : ¬ μ.Faulty) (h : StagedAt μ P c n)
    {boot start : List Outcome} {version nowMs : UInt32} (hboot : ∀ o ∈ boot, μ.Admits o) :
    Restaged μ P c (n.powerUp build μ.atomicCommit boot version nowMs start) := by
  have : (μ.runs .bootloader).Sound := ⟨Mode.Sound.internal (μ := μ)⟩
  have hruns := BootManager.run_stage (env_boot hboot n.device) hfault (h.stage.record .boot)
  -- the record a boot ends with is the one that is persisted then
  refine powerUp_rule (C := fun d => ∃ c', Stage (μ.runs .bootloader) P c' d ∧ VersionStep c c')
    (J := fun d => VectorsValid applicationMaxSize d.app ∧ ∀ c', Persisted d c' → Runs c')
    (hruns.mono ?_ ?_) ?_ ?_
  · intro ending d hended
    obtain ⟨c', hstage, hfollows, hjump⟩ := hended
    refine ⟨⟨c', hstage, versionStep_of_follows hfollows⟩, ?_⟩
    intro vector hvector
    obtain ⟨hvectors, hstate⟩ := hjump vector hvector
    refine ⟨hvectors, ?_⟩
    intro c'' hc''
    rw [Option.some.inj (hc''.symm.trans hstage.persisted)]
    exact hstate
  · intro d hleaves
    obtain ⟨c', hstage, hfollows⟩ := hleaves
    exact ⟨c', hstage, versionStep_of_follows hfollows⟩
  · intro d hC
    obtain ⟨c', hstage, hversion⟩ := hC
    exact ⟨c', stagedAt_off hstage, hversion⟩
  · intro d app hC hJ
    obtain ⟨c', hstage, hversion⟩ := hC
    exact ⟨c', ⟨hstage, fun _ _ => ⟨hJ.1, hJ.2 c' hstage.persisted⟩⟩, hversion⟩

/-- What the application does leads from a stage to a stage. -/
theorem Effect.staged {ν : Mode} (hsound : ν.internalFaults = false) (hretains : P.Retains)
    (hconfirmable : P.Confirmable) {app : App} (happ : n.app = some app) (h : StagedAt μ P c n)
    {n' : Node} (heffect : Effect ν n app n') : Restaged μ P c n' := by
  obtain ⟨hvectors, hruns⟩ := h.running app happ
  cases heffect with
  | downloads hd =>
      exact ⟨c, ⟨h.stage.downloads hruns hd, fun _ _ => ⟨hd.app ▸ hvectors, hruns⟩⟩, .inl rfl⟩
  | asks hrequest hends hresets =>
      rw [h.stage.persisted] at hrequest
      rcases hends.cases with ⟨c', hok, hstores, hpersisted, -⟩ | ⟨-, ⟨-, hd⟩ | hfault⟩
      · obtain ⟨hstage, hversion⟩ := h.stage.requested hruns hvectors hretains hconfirmable
          hrequest hends.frame hstores hpersisted
        rw [hresets ⟨c', hok⟩]
        exact ⟨c', stagedAt_off hstage, .inl hversion⟩
      · subst hd
        exact ⟨c, ⟨h.stage.record _, fun _ _ => ⟨hvectors, hruns⟩⟩, .inl rfl⟩
      · have hworks : ν.internalFaults = true := hfault
        rw [hsound] at hworks
        cases hworks

/-- One action leads from a stage to a stage. -/
theorem step_staged [μ.Sound] (hfault : ¬ μ.Faulty) (hatomic : μ.atomicCommit = true)
    (hretains : P.Retains) (hconfirmable : P.Confirmable) (h : StagedAt μ P c n) {a : Action}
    (ha : a.Admitted μ) : Restaged μ P c (n.step build μ.atomicCommit a) := by
  -- what the application does is the same where the external flash might fail
  let ν : Mode := { μ with externalFaults := true }
  have hinternal : ν.internalFaults = false := Mode.Sound.internal (μ := μ)
  have hadmits : ∀ o, μ.Admits o → ν.Admits o := by
    intro o ho
    cases o with
    | ok => trivial
    | externalFault error garbage => rfl
    | internalFault junk => exact ho
    | cut written => exact ho
  refine step_rule (μ := ν) build hatomic rfl (fun o ho => hadmits o (ha o ho))
    ⟨c, h, .inl rfl⟩ ?_ ?_
  · intro boot version nowMs start _ hpower
    subst hpower
    exact powerUp_staged hfault h fun o ho => ha o (List.mem_append_left _ ho)
  · intro app n' happ heffect
    exact heffect.staged hinternal hretains hconfirmable happ h

end Node

end SecureDeltaOta
