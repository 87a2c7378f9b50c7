import SecureDeltaOta.Boot.BootLoop
import SecureDeltaOta.System.SessionSoundness

/-!
# The history of a node

Whatever packets arrive, wherever power is lost and whatever the external flash
does, the log of a node moves by five kinds of moves: it is powered up, the
bootloader or the application asks for a record, and the application is started
in a state of its own or for one more attempt of a trial. Properties of whole
histories follow by induction over the moves.
-/

namespace SecureDeltaOta

open Memory Crash MetadataStorage

namespace Log

open BootManager (startStates activeStates attempted)

/-- What happens to the log of a node. -/
inductive Move : Log → Log → Prop
  | boot (l : Log) : Move l ⟨l.record, .boot :: l.history⟩
  | bootloader {l l' : Log} (h : Step .bootloader BootManager.Request l l') : Move l l'
  | application {l l' : Log} {m : BootMetadata} {st : UpdateState} {version : UInt32} {g : Session}
      (hm : l.record = some m) (hst : st ∈ startStates) (hstate : m.state = st.code)
      (hg : OtaReceiver.Servable g)
      (h : Step (.application version) (OtaReceiver.Request version g) l l') : Move l l'
  | active {l : Log} {m : BootMetadata} {st : UpdateState} (hm : l.record = some m)
      (hst : st ∈ activeStates) (hstate : m.state = st.code) :
      Move l ⟨l.record, .jump :: l.history⟩
  /-- The attempt is counted right before the application is started. -/
  | trial {l : Log} {m c : BootMetadata} (hm : l.record = some m)
      (hstate : m.state = UpdateState.trialBoot.code)
      (hattempts : ¬ m.bootAttempts ≥ BootMetadata.maxBootAttempts)
      (hstores : c.Stores (attempted m)) (hvalid : c.Valid) :
      Move l ⟨some c, .jump :: .commit .bootloader l.record c :: l.history⟩

/-- Any number of moves. -/
abbrev Moves : Log → Log → Prop := Relation.ReflTransGen Move

theorem moves_of_steps {l l' : Log} (h : Steps .bootloader BootManager.Request l l') :
    Moves l l' :=
  Relation.ReflTransGen.mono (fun _ _ hstep => Move.bootloader hstep) l l' h

end Log

/-! ## Nodes -/

namespace Node

open BootManager (startStates activeStates)

variable {build : Build} {μ : Mode} {n : Node}

/-- The application was started with a record in a state that allows it. -/
def Started (d : Device) : Prop := ∃ m, Persisted d m ∧ ∃ st ∈ startStates, m.state = st.code

/-- The node has moved from the log `l`. -/
structure MovedFrom (l : Log) (n : Node) : Prop where
  moves : Log.Moves l n.device.log
  started : ∀ app, n.app = some app → Started n.device

theorem movedFrom_off {l : Log} {d : Device} (h : Log.Moves l d.log) : MovedFrom l ⟨d, none⟩ := by
  refine ⟨h, ?_⟩
  intro app happ
  cases happ

/-- With commits that are atomic and work, a boot starts with the persisted record. -/
theorem loaded_persisted (hlogged : μ.Logged) {s : Machine} {d : Device} {version : UInt32}
    {c : BootMetadata} (hs : Env μ false s) (h : BootManager.Loaded version s c d) :
    Persisted d c := by
  rcases h with hc | ⟨rfl, -, e, t, hcommit⟩
  · exact hc
  -- the factory record is acceptable
  have hends := commit_ends hs (BootMetadata.init version)
  rw [hcommit] at hends
  have hacceptable : (BootMetadata.init version).Acceptable :=
    ⟨rfl, UInt32.le_refl _, Nat.zero_le _, Nat.zero_le _, rfl⟩
  rcases hends.2.cases with ⟨c, hok, -⟩ | ⟨-, ⟨hrefused, -⟩ | hfault⟩
  · cases hok
  · exact absurd hacceptable hrefused
  · rw [hlogged.internal] at hfault
    cases hfault

/-- A boot that starts the application ends with one of the two moves for it. -/
theorem starts_moves {c : BootMetadata} {d₀ d : Device} {vector : ApplicationVector}
    (hwriter : μ.writer = .bootloader) (hc : Persisted d₀ c)
    (h : BootManager.Starts μ c d₀ vector d) :
    Log.Move d₀.log (d.record .jump).log ∧ Started (d.record .jump) := by
  have hjump : ∀ m, Persisted d m → Persisted (d.record .jump) m :=
    fun m hm => (persisted_record d .jump).trans hm
  rw [Device.log_record]
  cases h.cause with
  | active hst hstate hsame =>
      subst hsame
      refine ⟨.active hc hst hstate, c, hjump c hc, _, ?_, hstate⟩
      fin_cases hst <;> decide
  | @trial c' hstate hattempts hstores hpersisted hhistory =>
      refine ⟨?_, c', hjump c' hpersisted, .trialBoot, by decide, hstores.state.trans hstate⟩
      have hlog : d.log = ⟨some c', .commit .bootloader d₀.log.record c' :: d₀.log.history⟩ := by
        unfold Device.log
        rw [hpersisted, hhistory, hwriter]
      rw [hlog]
      exact .trial hc hstate hattempts hstores hpersisted.valid

theorem boot_moves (hlogged : μ.Logged) (hwriter : μ.writer = .bootloader) {s : Machine}
    (hs : Env μ false s) (build : Build) :
    Holds μ false (BootManager.run build s)
      (fun ending d => Log.Moves s.device.log d.log ∧ ∀ vector, ending = .jump vector → Started d)
      (fun d => Log.Moves s.device.log d.log) := by
  have hsteps : ∀ {d d' : Device}, BootManager.Moves μ d d' → Log.Moves d.log d'.log := by
    intro d d' h
    have hlog := h.log hlogged
    rw [hwriter] at hlog
    exact Log.moves_of_steps hlog
  refine (BootManager.run_boots build hs).mono ?_ fun d hd => hsteps hd
  intro ending d h
  obtain ⟨c₀, d₀, hmoves₀, hloaded, c, d₁, hmoves₁, hcurrent, hstops⟩ := h
  have hc₀ : Persisted d₀ c₀ := loaded_persisted hlogged hs hloaded
  have hc : Persisted d₁ c := by
    rcases hcurrent with hc | ⟨rfl, rfl, -⟩
    · exact hc
    · exact hc₀
  have hbefore : Log.Moves s.device.log d₁.log := (hsteps hmoves₀).trans (hsteps hmoves₁)
  cases ending with
  | fatal pulses =>
      refine ⟨hbefore.trans (hsteps hstops), ?_⟩
      intro vector hjump
      cases hjump
  | jump vector =>
      obtain ⟨d₂, rfl, hstarts⟩ := hstops
      obtain ⟨hmove, hstarted⟩ := starts_moves hwriter hc hstarts
      exact ⟨hbefore.tail hmove, fun _ _ => hstarted⟩

theorem startApplication_unchanged {R : Device → Device → Prop} [IsPreorder Device R]
    (version nowMs : UInt32) : Keeps R (startApplication version nowMs) :=
  Keeps.bind (OtaReceiver.init_unchanged version) fun _ =>
    Keeps.bind (Keeps.read _) fun _ => Keeps.read _

/-- What is to be shown of a node that is powered up. -/
theorem powerUp_rule {Q : Node → Prop} {C J : Device → Prop} {boot start : List Outcome}
    {version nowMs : UInt32}
    (hboot : Holds (μ.runs .bootloader) false
      (BootManager.boot build μ.atomicCommit boot n.device)
      (fun ending d => C d ∧ ∀ vector, ending = .jump vector → J d) C)
    (hoff : ∀ d, C d → Q ⟨d, none⟩) (hon : ∀ d app, C d → J d → Q ⟨d, some app⟩) :
    Q (n.powerUp build μ.atomicCommit boot version nowMs start) := by
  have hsame : ∀ d, (startApplication version nowMs
      (startMachine μ.atomicCommit version start d)).state.device = d :=
    fun d => startApplication_unchanged (R := fun d d' => d' = d) version nowMs
      (startMachine μ.atomicCommit version start d)
  unfold powerUp
  cases hr : BootManager.boot build μ.atomicCommit boot n.device with
  | spin s =>
      rw [hr] at hboot
      exact hboot.elim
  | cut s =>
      rw [hr] at hboot
      exact hoff _ hboot.2
  | done ending s =>
      rw [hr] at hboot
      obtain ⟨-, hC, hjump⟩ := hboot
      cases ending with
      | fatal pulses => exact hoff _ hC
      | jump vector =>
          have hC' := hC
          have hJ' := hjump vector rfl
          rw [← hsame s.device] at hC' hJ'
          dsimp only
          cases hstart : startApplication version nowMs
              (startMachine μ.atomicCommit version start s.device) with
          | done app t =>
              rw [hstart] at hC' hJ'
              exact hon _ _ hC' hJ'
          | cut t | spin t =>
              rw [hstart] at hC'
              exact hoff _ hC'

theorem powerUp_moved (hlogged : μ.Logged) {boot start : List Outcome} {version nowMs : UInt32}
    (hboot : ∀ o ∈ boot, μ.Admits o) :
    MovedFrom n.device.log (n.powerUp build μ.atomicCommit boot version nowMs start) := by
  have hmode : (μ.runs .bootloader).Logged := ⟨hlogged.internal, hlogged.atomic⟩
  have hpowered : Log.Move n.device.log (n.device.record .boot).log := by
    rw [Device.log_record]
    exact .boot _
  refine powerUp_rule (C := fun d => Log.Moves n.device.log d.log) (J := Started)
    ((boot_moves hmode rfl (env_boot hboot n.device) build).mono ?_ ?_) ?_ ?_
  · intro ending d h
    exact ⟨.head hpowered h.1, h.2⟩
  · intro d h
    exact .head hpowered h
  · intro d hmoves
    exact movedFrom_off hmoves
  · intro d app hmoves hstarted
    exact ⟨hmoves, fun _ _ => hstarted⟩

/-! ### What the application does -/

/-- What becomes of a node whose application has done something. -/
inductive Effect (μ : Mode) (n : Node) (app : App) : Node → Prop
  | downloads {d : Device} {app' : Option App} (hd : Downloads n.device d) :
      Effect μ n app ⟨d, app'⟩
  | asks {d : Device} {app' : Option App} {requested : BootMetadata}
      {r : Except MetadataStorageStatus BootMetadata}
      (hrequest : OtaReceiver.Request app.version app.session (persisted n.device) requested)
      (hends : CommitEnd (μ.runs (.application app.version)) requested n.device r d)
      (hresets : (∃ c, r = .ok c) → app' = none) : Effect μ n app ⟨d, app'⟩

theorem effect_of_effects {α : Type} {app : App} {resets : α → Bool} {r : Result Machine α}
    (h : OtaReceiver.Effects (μ.runs (.application app.version)) app.version app.session n.device
      resets r) {app' : Option App}
    (hstops : ∀ a t, r = .done a t → resets a = true → app' = none) :
    Effect μ n app ⟨r.state.device, app'⟩ := by
  rcases h with hd | ⟨a, t, rfl, hd | ⟨requested, result, hrequest, hends, hresets⟩⟩
  · exact .downloads hd
  · exact .downloads hd
  · exact .asks hrequest hends fun hok => hstops a t rfl (hresets hok)

theorem processPacket_effect (hatomic : μ.atomicCommit = true) (hfaulty : μ.Faulty) {app : App}
    {request : OtaPacket} {script : List Outcome} (hscript : ∀ o ∈ script, μ.Admits o) :
    Effect μ n app (n.processPacket μ.atomicCommit app request script).1 := by
  have henv : Env (μ.runs (.application app.version)) false
      (machine μ.atomicCommit app script n.device) := env_machine hscript (by simp) n.device
  have heffects := OtaReceiver.processPacket_effects henv (.inr hfaulty) hatomic app.version
    app.session request
  unfold processPacket
  cases hr : OtaReceiver.processPacket app.version app.session request
      (machine μ.atomicCommit app script n.device) with
  | done r s =>
      rw [hr] at heffects
      refine effect_of_effects heffects ?_
      intro a t hdone hreset
      cases hdone
      exact if_pos hreset
  | cut s | spin s =>
      rw [hr] at heffects
      exact effect_of_effects heffects fun _ _ _ _ => rfl

theorem processTrial_effect (hatomic : μ.atomicCommit = true) {app : App} {nowMs : UInt32}
    {script : List Outcome} (hscript : ∀ o ∈ script, μ.Admits o) :
    Effect μ n app (n.processTrial μ.atomicCommit app nowMs script) := by
  have henv : Env (μ.runs (.application app.version)) false
      (machine μ.atomicCommit app script n.device) := env_machine hscript (by simp) n.device
  have heffects := OtaReceiver.processTrial_effects henv hatomic app.version app.session app.trial
    nowMs
  unfold processTrial
  cases hr : TrialConfirmation.process app.version app.trial nowMs
      (machine μ.atomicCommit app script n.device) with
  | done reset s =>
      rw [hr] at heffects
      cases reset with
      | true => exact effect_of_effects heffects fun _ _ _ _ => rfl
      | false =>
          refine effect_of_effects heffects ?_
          intro a t hdone hreset
          cases hdone
          cases hreset
  | cut s | spin s =>
      rw [hr] at heffects
      exact effect_of_effects heffects fun _ _ _ _ => rfl

/-- What is to be shown of an action: of a boot, and of what a running application does. -/
theorem step_rule {Q : Node → Prop} (build : Build) (hatomic : μ.atomicCommit = true)
    (hfaulty : μ.Faulty) {a : Action} (ha : a.Admitted μ) (hn : Q n)
    (hpower : ∀ boot version nowMs start, (∀ o ∈ boot, μ.Admits o) →
      a = .powerUp boot version nowMs start →
      Q (n.powerUp build μ.atomicCommit boot version nowMs start))
    (heffect : ∀ app n', n.app = some app → Effect μ n app n' → Q n') :
    Q (n.step build μ.atomicCommit a) := by
  unfold step act
  cases a with
  | powerUp boot version nowMs start =>
      exact hpower boot version nowMs start (fun o ho => ha o (List.mem_append_left _ ho)) rfl
  | packet request script =>
      cases happ : n.app with
      | none => exact hn
      | some app => exact heffect app _ happ (processPacket_effect hatomic hfaulty ha)
  | corrupted request =>
      cases happ : n.app with
      | none => exact hn
      | some app => exact hn
  | tick nowMs script =>
      cases happ : n.app with
      | none => exact hn
      | some app => exact heffect app _ happ (processTrial_effect hatomic ha)

/-- Whatever the application does moves the log. -/
theorem Effect.moved (hlogged : μ.Logged) {app : App} (hstarted : Started n.device)
    (hservable : OtaReceiver.Servable app.session) {n' : Node} (h : Effect μ n app n') :
    MovedFrom n.device.log n' := by
  have hcongr : ∀ {d : Device}, persisted d = persisted n.device → Started d := by
    intro d hd
    obtain ⟨m, hm, hstate⟩ := hstarted
    exact ⟨m, hd.trans hm, hstate⟩
  cases h with
  | downloads hd =>
      refine ⟨?_, fun _ _ => hcongr hd.persisted⟩
      rw [hd.log]
  | @asks d app' requested r hrequest hends hresets =>
      obtain ⟨m, hm, st, hst, hstate⟩ := hstarted
      have hmode : (μ.runs (.application app.version)).Logged :=
        ⟨hlogged.internal, hlogged.atomic⟩
      have hmoves : Log.Moves n.device.log d.log :=
        .single (.application hm hst hstate hservable (hends.step hmode hrequest))
      rcases hends.cases with ⟨c, hok, -⟩ | ⟨-, ⟨-, hd⟩ | hfault⟩
      · rw [hresets ⟨c, hok⟩]
        exact movedFrom_off hmoves
      · exact ⟨hmoves, fun _ _ => hcongr (hd ▸ persisted_record _ _)⟩
      · rw [hmode.internal] at hfault
        cases hfault

/-- One action moves the log. -/
theorem step_moved (build : Build) (hlogged : μ.Logged) (hfaulty : μ.Faulty)
    (hservable : n.Sessions OtaReceiver.Servable)
    (hstarted : ∀ app, n.app = some app → Started n.device) {a : Action} (ha : a.Admitted μ) :
    MovedFrom n.device.log (n.step build μ.atomicCommit a) := by
  refine step_rule build hlogged.atomic hfaulty ha ⟨.refl, hstarted⟩ ?_ ?_
  · intro boot version nowMs start hboot _
    exact powerUp_moved hlogged hboot
  · intro app n' happ heffect
    exact heffect.moved hlogged (hstarted app happ) (hservable app happ)

/-- Every run moves the log. -/
theorem run_moved (hlogged : μ.Logged) (hfaulty : μ.Faulty)
    (hservable : n.Sessions OtaReceiver.Servable)
    (hstarted : ∀ app, n.app = some app → Started n.device) {actions : List Action}
    (hadmitted : ∀ a ∈ actions, a.Admitted μ) :
    Log.Moves n.device.log (n.run build μ.atomicCommit actions).device.log := by
  induction actions generalizing n with
  | nil => exact .refl
  | cons a actions ih =>
      have hstep := step_moved build hlogged hfaulty hservable hstarted (hadmitted a (.head _))
      exact hstep.moves.trans (ih (step_servable hservable a) hstep.started
        fun a' ha' => hadmitted a' (.tail _ ha'))

end Node

end SecureDeltaOta
