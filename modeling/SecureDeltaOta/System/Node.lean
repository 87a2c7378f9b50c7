import SecureDeltaOta.App.OtaReceiver
import SecureDeltaOta.Boot.BootRun

/-!
# The node

The bootloader and the application on one device. A node that is powered up runs
the bootloader; if that starts the application, the application serves packets
until it resets itself or power is lost. `main.c` and `ota_agent.c` of the
application, without the framing of packets.
-/

namespace SecureDeltaOta

open Crash

/-- A running application. -/
structure App where
  /-- The version the application is compiled with. -/
  version : UInt32
  session : Session
  trial : Trial
  spi : SpiState

/-- A node: its flash memories, and its application unless it is off or has stopped. -/
structure Node where
  device : Device
  app : Option App

/-- What happens to a node, with the outcomes of the flash operations it leads to. -/
inductive Action where
  /-- Power comes up or the node is reset; `version` is the one of the application in flash. -/
  | powerUp (boot : List Outcome) (version nowMs : UInt32) (start : List Outcome)
  | packet (request : OtaPacket) (script : List Outcome)
  /-- A frame with a wrong CRC arrives. -/
  | corrupted (request : OtaPacket)
  /-- A turn of the main loop without a packet. -/
  | tick (nowMs : UInt32) (script : List Outcome)

namespace Action

/-- All outcomes of an action. -/
def outcomes : Action → List Outcome
  | powerUp boot _ _ start => boot ++ start
  | packet _ script => script
  | corrupted _ => []
  | tick _ script => script

end Action

/-- The initialisation of the application. -/
def startApplication (version nowMs : UInt32) : Prog Machine App := do
  let session ← OtaReceiver.init version
  let trial ← TrialConfirmation.init version nowMs
  Prog.read fun s => ⟨version, session, trial, s.spi⟩

namespace Node

variable (build : Build) (atomicCommit : Bool)

/-- The machine the application starts on. -/
def startMachine (version : UInt32) (script : List Outcome) (d : Device) : Machine :=
  ⟨d, ⟨false, .notInitialized⟩, script, atomicCommit, .application version⟩

/-- The machine a running application continues on. -/
def machine (app : App) (script : List Outcome) (d : Device) : Machine :=
  ⟨d, app.spi, script, atomicCommit, .application app.version⟩

def powerUp (n : Node) (boot : List Outcome) (version nowMs : UInt32) (start : List Outcome) :
    Node :=
  match BootManager.boot build atomicCommit boot n.device with
  | .done (.jump _) s =>
      match startApplication version nowMs (startMachine atomicCommit version start s.device) with
      | .done app t => ⟨t.device, some app⟩
      | r => ⟨r.state.device, none⟩
  | r => ⟨r.state.device, none⟩

/-- The application after a packet, if it does not reset itself. -/
def afterPacket (app : App) (session : Session) (spi : SpiState) : Option App :=
  if session.resetPending then none else some { app with session := session, spi := spi }

def processPacket (n : Node) (app : App) (request : OtaPacket) (script : List Outcome) :
    Node × Option OtaPacket :=
  match OtaReceiver.processPacket app.version app.session request
      (machine atomicCommit app script n.device) with
  | .done (session, response) s => (⟨s.device, afterPacket app session s.spi⟩, some response)
  | r => (⟨r.state.device, none⟩, none)

/-- The answer to a frame with a wrong CRC. -/
def packetCrcError (app : App) (request : OtaPacket) : OtaPacket :=
  OtaResponse.buildNack request .packetCrcError (OtaReceiver.getResponseInfo app.session)

def processTrial (n : Node) (app : App) (nowMs : UInt32) (script : List Outcome) : Node :=
  match TrialConfirmation.process app.version app.trial nowMs
      (machine atomicCommit app script n.device) with
  | .done false s => ⟨s.device, some { app with spi := s.spi }⟩
  | r => ⟨r.state.device, none⟩

/-- One action, with the answer it leads to. -/
def act (n : Node) (a : Action) : Node × Option OtaPacket :=
  match a, n.app with
  | .powerUp boot version nowMs start, _ =>
      (n.powerUp build atomicCommit boot version nowMs start, none)
  | _, none => (n, none)
  | .packet request script, some app => n.processPacket atomicCommit app request script
  | .corrupted request, some app => (n, some (packetCrcError app request))
  | .tick nowMs script, some app => (n.processTrial atomicCommit app nowMs script, none)

theorem act_packet {n : Node} {app : App} (h : n.app = some app) (request : OtaPacket)
    (script : List Outcome) :
    n.act build atomicCommit (.packet request script) =
      n.processPacket atomicCommit app request script := by
  unfold act
  rw [h]

def step (n : Node) (a : Action) : Node := (n.act build atomicCommit a).1

def run (n : Node) (actions : List Action) : Node :=
  actions.foldl (fun n a => n.step build atomicCommit a) n

@[simp] theorem run_cons (n : Node) (a : Action) (actions : List Action) :
    n.run build atomicCommit (a :: actions) =
      (n.step build atomicCommit a).run build atomicCommit actions := rfl

theorem run_append (n : Node) (actions actions' : List Action) :
    n.run build atomicCommit (actions ++ actions') =
      (n.run build atomicCommit actions).run build atomicCommit actions' :=
  List.foldl_append

end Node

/-! ## Reasoning about nodes -/

/-- The mode in which a program runs. -/
def Mode.runs (μ : Mode) (writer : Writer) : Mode := { μ with writer := writer }

/-- The environment behaves as the mode says. -/
def Action.Admitted (μ : Mode) (a : Action) : Prop := ∀ o ∈ a.outcomes, μ.Admits o

theorem Mode.runs_admits {μ : Mode} {writer : Writer} {o : Outcome} (h : μ.Admits o) :
    (μ.runs writer).Admits o := by
  cases o <;> exact h

namespace Node

variable {build : Build} {μ : Mode} {n : Node} {P : Node → Prop}

theorem env_boot {script : List Outcome} (h : ∀ o ∈ script, μ.Admits o) (d : Device) :
    Env (μ.runs .bootloader) false
      ⟨d.record .boot, ⟨false, .notInitialized⟩, script, μ.atomicCommit, .bootloader⟩ :=
  ⟨fun o ho => Mode.runs_admits (h o ho), by simp, rfl, rfl⟩

theorem env_start {script : List Outcome} (h : ∀ o ∈ script, μ.Admits o) (version : UInt32)
    (d : Device) : Env (μ.runs (.application version)) false
      (startMachine μ.atomicCommit version script d) :=
  ⟨fun o ho => Mode.runs_admits (h o ho), by simp, rfl, rfl⟩

theorem env_machine {app : App} {up : Bool} {script : List Outcome}
    (h : ∀ o ∈ script, μ.Admits o) (hup : up = true → app.spi.initialized = true) (d : Device) :
    Env (μ.runs (.application app.version)) up (machine μ.atomicCommit app script d) :=
  ⟨fun o ho => Mode.runs_admits (h o ho), hup, rfl, rfl⟩

/-- What is to be shown of a node that is powered up. -/
theorem powerUp_ensures {boot start : List Outcome} {version nowMs : UInt32}
    {Q : BootManager.Ending → Device → Prop} {C : Device → Prop} {up : Bool}
    (hboot : Holds (μ.runs .bootloader) false
      (BootManager.boot build μ.atomicCommit boot n.device) Q C)
    (hoff : ∀ d, C d → P ⟨d, none⟩) (hfatal : ∀ pulses d, Q (.fatal pulses) d → P ⟨d, none⟩)
    (hjump : ∀ vector d, Q (.jump vector) d → Holds (μ.runs (.application version)) up
      (startApplication version nowMs (startMachine μ.atomicCommit version start d))
      (fun app d' => P ⟨d', some app⟩) (fun d' => P ⟨d', none⟩)) :
    P (n.powerUp build μ.atomicCommit boot version nowMs start) := by
  unfold powerUp
  cases hr : BootManager.boot build μ.atomicCommit boot n.device with
  | spin s =>
      rw [hr] at hboot
      exact hboot.elim
  | cut s =>
      rw [hr] at hboot
      exact hoff _ hboot.2
  | done ending s =>
      rw [hr] at hboot
      cases ending with
      | fatal pulses => exact hfatal pulses _ hboot.2
      | jump vector =>
          have hstart := hjump vector _ hboot.2
          dsimp only
          cases hr' : startApplication version nowMs
              (startMachine μ.atomicCommit version start s.device) with
          | spin t =>
              rw [hr'] at hstart
              exact hstart.elim
          | cut t =>
              rw [hr'] at hstart
              exact hstart.2
          | done app t =>
              rw [hr'] at hstart
              exact hstart.2

/-- What is to be shown of a node that processes a packet. -/
theorem processPacket_ensures {app : App} {request : OtaPacket} {script : List Outcome} {up : Bool}
    {Q : OtaReceiver.Reply → Device → Prop} {C : Device → Prop}
    {P : Node × Option OtaPacket → Prop}
    (h : Holds (μ.runs (.application app.version)) up
      (OtaReceiver.processPacket app.version app.session request
        (machine μ.atomicCommit app script n.device)) Q C)
    (hoff : ∀ d, μ.cuts = true → C d → P (⟨d, none⟩, none))
    (hanswer : ∀ session response d spi, Q (session, response) d →
      (up = true → spi.initialized = true) →
      P (⟨d, afterPacket app session spi⟩, some response)) :
    P (n.processPacket μ.atomicCommit app request script) := by
  unfold processPacket
  cases hr : OtaReceiver.processPacket app.version app.session request
      (machine μ.atomicCommit app script n.device) with
  | spin s =>
      rw [hr] at h
      exact h.elim
  | cut s =>
      rw [hr] at h
      exact hoff _ h.1 h.2
  | done r s =>
      rw [hr] at h
      exact hanswer r.1 r.2 _ _ h.2 h.1.initialized

/-- What is to be shown of a node that looks after its trial. -/
theorem processTrial_ensures {app : App} {nowMs : UInt32} {script : List Outcome} {up : Bool}
    {Q : Bool → Device → Prop} {C : Device → Prop}
    (h : Holds (μ.runs (.application app.version)) up
      (TrialConfirmation.process app.version app.trial nowMs
        (machine μ.atomicCommit app script n.device)) Q C)
    (hoff : ∀ d, C d → P ⟨d, none⟩) (hreset : ∀ d, Q true d → P ⟨d, none⟩)
    (hgo : ∀ d spi, Q false d → (up = true → spi.initialized = true) →
      P ⟨d, some { app with spi := spi }⟩) :
    P (n.processTrial μ.atomicCommit app nowMs script) := by
  unfold processTrial
  cases hr : TrialConfirmation.process app.version app.trial nowMs
      (machine μ.atomicCommit app script n.device) with
  | spin s =>
      rw [hr] at h
      exact h.elim
  | cut s =>
      rw [hr] at h
      exact hoff _ h.2
  | done reset s =>
      rw [hr] at h
      cases reset with
      | true => exact hreset _ h.2
      | false => exact hgo _ _ h.2 h.1.initialized

end Node

end SecureDeltaOta
