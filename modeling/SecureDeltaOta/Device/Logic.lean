import SecureDeltaOta.Crash.Simulation
import SecureDeltaOta.Device.Machine

/-!
# Reasoning about runs of the node

`Holds` is the judgement of the development: under the assumptions of a mode on
the environment, a program ends with a postcondition on the device, or is cut in
a device that meets the crash condition. `Keeps` is its companion for frames,
which hold whatever the environment does.
-/

namespace SecureDeltaOta

open Memory Crash

/-- What the environment may do, and which program is running. -/
structure Mode where
  cuts : Bool
  /-- A page program may be cut after some of its bytes. -/
  tornPrograms : Bool
  externalFaults : Bool
  internalFaults : Bool := false
  atomicCommit : Bool
  writer : Writer

namespace Mode

def Admits (μ : Mode) : Outcome → Prop
  | .ok => True
  | .externalFault _ _ => μ.externalFaults = true
  | .internalFault _ => μ.internalFaults = true
  | .cut written => μ.cuts = true ∧ (μ.tornPrograms = true ∨ written = 0)

/-- The external flash may fail. -/
abbrev Faulty (μ : Mode) : Prop := μ.externalFaults = true

/-- The internal flash works. -/
class Sound (μ : Mode) : Prop where
  internal : μ.internalFaults = false

theorem not_internalFault (μ : Mode) [μ.Sound] {junk : Nat → UInt8} :
    ¬ μ.Admits (.internalFault junk) := by
  intro h
  have hfault : μ.internalFaults = true := h
  rw [Sound.internal] at hfault
  cases hfault

/-- The driver is initialised, or nothing is expected of the external flash. -/
abbrev Usable (μ : Mode) (up : Bool) : Prop := up = true ∨ μ.Faulty

/-- The driver is known to be initialised where the external flash does not fail. -/
abbrev ready (μ : Mode) : Bool := !μ.externalFaults

theorem usable_ready (μ : Mode) : μ.Usable μ.ready := by
  unfold Usable Faulty ready
  cases μ.externalFaults <;> simp

end Mode

theorem Mode.admits_powerCut {μ : Mode} (hcuts : μ.cuts = true) (cut : Option Nat) :
    ∀ o ∈ powerCut cut, μ.Admits o := by
  intro o ho
  cases cut with
  | none => simp [powerCut] at ho
  | some k =>
      simp only [powerCut, List.mem_append, List.mem_replicate, List.mem_singleton] at ho
      rcases ho with ⟨-, rfl⟩ | rfl
      · exact trivial
      · exact ⟨hcuts, .inr rfl⟩

/-- A machine whose environment behaves as the mode says; `up` asks for an initialised driver. -/
structure Env (μ : Mode) (up : Bool) (s : Machine) : Prop where
  admits : ∀ o ∈ s.script, μ.Admits o
  initialized : up = true → s.spi.initialized = true
  atomicCommit : s.atomicCommit = μ.atomicCommit
  writer : s.writer = μ.writer

theorem Env.weaken {μ : Mode} {up : Bool} {s : Machine} (h : Env μ up s) : Env μ false s :=
  ⟨h.admits, by simp, h.atomicCommit, h.writer⟩

theorem Env.withStatus {μ : Mode} {up : Bool} {s : Machine} (h : Env μ up s)
    (status : SpiFlashStatus) : Env μ up (s.withStatus status) :=
  ⟨h.admits, h.initialized, h.atomicCommit, h.writer⟩

theorem Env.withDevice {μ : Mode} {up : Bool} {s : Machine} (h : Env μ up s) (d : Device) :
    Env μ up { s with device := d } :=
  ⟨h.admits, h.initialized, h.atomicCommit, h.writer⟩

/-- The mode in which anything may happen to the given machine. -/
def hostile (u : Machine) : Mode where
  cuts := true
  tornPrograms := true
  externalFaults := true
  internalFaults := true
  atomicCommit := u.atomicCommit
  writer := u.writer

theorem env_hostile (u : Machine) : Env (hostile u) false u := by
  refine ⟨fun o _ => ?_, fun h => absurd h Bool.false_ne_true, rfl, rfl⟩
  cases o with
  | ok => exact trivial
  | externalFault status junk => exact rfl
  | internalFault junk => exact rfl
  | cut written => exact ⟨rfl, .inl rfl⟩

theorem Env.initialized_of {μ : Mode} {up : Bool} {s : Machine} (h : Env μ up s)
    (hinit : s.spi.initialized = true) : Env μ true s :=
  ⟨h.admits, fun _ => hinit, h.atomicCommit, h.writer⟩

theorem Env.ready {μ : Mode} {s : Machine} (h : Env μ true s) : Env μ μ.ready s :=
  ⟨h.admits, fun _ => h.initialized rfl, h.atomicCommit, h.writer⟩

/-- The judgement on a result: postcondition, and crash condition for admitted cuts. -/
def Holds {α : Type} (μ : Mode) (up : Bool) (r : Result Machine α) (Q : α → Device → Prop)
    (C : Device → Prop) : Prop :=
  r.Ensures (fun a t => Env μ up t ∧ Q a t.device) (fun t => μ.cuts = true ∧ C t.device)

section Rules

variable {α β : Type} {μ : Mode} {up : Bool} {s : Machine}

theorem Holds.mono {r : Result Machine α} {Q R : α → Device → Prop} {C D : Device → Prop}
    (h : Holds μ up r R D) (hQ : ∀ a d, R a d → Q a d) (hC : ∀ d, D d → C d) :
    Holds μ up r Q C :=
  Result.Ensures.mono h (fun _ _ ht => ⟨ht.1, hQ _ _ ht.2⟩) (fun _ ht => ⟨ht.1, hC _ ht.2⟩)

theorem Holds.weaken {r : Result Machine α} {Q : α → Device → Prop} {C : Device → Prop}
    (h : Holds μ up r Q C) : Holds μ false r Q C :=
  Result.Ensures.mono h (fun _ _ ht => ⟨ht.1.weaken, ht.2⟩) (fun _ ht => ht)

theorem Holds.ready {r : Result Machine α} {Q : α → Device → Prop} {C : Device → Prop}
    (h : Holds μ true r Q C) : Holds μ μ.ready r Q C :=
  Result.Ensures.mono h (fun _ _ ht => ⟨ht.1.ready, ht.2⟩) (fun _ ht => ht)

theorem Holds.pure {a : α} {Q : α → Device → Prop} {C : Device → Prop} (hs : Env μ up s)
    (h : Q a s.device) : Holds μ up ((Pure.pure a : Prog Machine α) s) Q C :=
  ⟨hs, h⟩

theorem Holds.read {f : Machine → α} {Q : α → Device → Prop} {C : Device → Prop}
    (hs : Env μ up s) (h : Q (f s) s.device) : Holds μ up (Prog.read f s) Q C :=
  ⟨hs, h⟩

theorem Holds.bind {m : Prog Machine α} {k : α → Prog Machine β} {R : α → Device → Prop}
    {Q : β → Device → Prop} {C D : Device → Prop} (hm : Holds μ up (m s) R D)
    (hk : ∀ a t, Env μ up t → R a t.device → Holds μ up (k a t) Q C) (hC : ∀ d, D d → C d) :
    Holds μ up ((m >>= k) s) Q C :=
  Ensures.bind hm (fun a t ht => hk a t ht.1 ht.2) (fun _ ht => ⟨ht.1, hC _ ht.2⟩)

/-- The rest of a program may also know which result it continues. -/
theorem Holds.bind_eq {m : Prog Machine α} {k : α → Prog Machine β} {R : α → Device → Prop}
    {Q : β → Device → Prop} {C D : Device → Prop} (hm : Holds μ up (m s) R D)
    (hk : ∀ a t, m s = .done a t → Env μ up t → R a t.device → Holds μ up (k a t) Q C)
    (hC : ∀ d, D d → C d) : Holds μ up ((m >>= k) s) Q C := by
  refine ensures_bind.2 ?_
  cases hr : m s with
  | done a t =>
      rw [hr] at hm
      exact hk a t hr hm.1 hm.2
  | cut t =>
      rw [hr] at hm
      exact ⟨hm.1, hC _ hm.2⟩
  | spin t =>
      rw [hr] at hm
      exact hm.elim

/-- Reading a component of the machine is a step without effect. -/
theorem Holds.read_bind {f : Machine → α} {k : α → Prog Machine β} {Q : β → Device → Prop}
    {C : Device → Prop} (h : Holds μ up (k (f s) s) Q C) :
    Holds μ up ((Prog.read f >>= k) s) Q C :=
  h

theorem Holds.update_bind {f : Device → Device} {k : Unit → Prog Machine β}
    {Q : β → Device → Prop} {C : Device → Prop}
    (h : Holds μ up (k () { s with device := f s.device }) Q C) :
    Holds μ up ((Flash.update f >>= k) s) Q C :=
  h

theorem Holds.setStatus_bind {status : SpiFlashStatus} {k : Unit → Prog Machine β}
    {Q : β → Device → Prop} {C : Device → Prop}
    (h : Holds μ up (k () (s.withStatus status)) Q C) :
    Holds μ up ((SpiFlash.setStatus status >>= k) s) Q C :=
  h

theorem Holds.and {r : Result Machine α} {Q R : α → Device → Prop} {C D : Device → Prop}
    (hQ : Holds μ up r Q C) (hR : Holds μ up r R D) :
    Holds μ up r (fun a d => Q a d ∧ R a d) (fun d => C d ∧ D d) :=
  (Result.Ensures.and hQ hR).mono
    (fun _ _ ht => ⟨ht.1.1, ht.1.2, ht.2.2⟩) (fun _ ht => ⟨ht.1.1, ht.1.2, ht.2.2⟩)

/-- A cut inside an atomic program leaves the device from before it. -/
theorem Holds.atomic {m : Prog Machine α} {Q : α → Device → Prop} {C D : Device → Prop}
    (hm : Holds μ up (m s) Q D) (hC : C s.device) : Holds μ up (Prog.atomic m s) Q C := by
  unfold Prog.atomic
  cases h : m s with
  | done a t => rwa [h] at hm
  | cut t =>
      rw [h] at hm
      exact ⟨hm.1, hC⟩
  | spin t =>
      rw [h] at hm
      exact hm.elim

theorem Holds.loopThen {guard : β → Bool} {body : β → Prog Machine (Except α β)}
    {rest : β → Prog Machine α} {I : β → Device → Prop} {Q : α → Device → Prop}
    {C : Device → Prop} (measure : β → Nat)
    (hpos : ∀ b d, guard b = true → I b d → 0 < measure b)
    (hbody : ∀ b t, Env μ up t → guard b = true → I b t.device →
      Holds μ up (body b t) (Exits (fun b' d => I b' d ∧ measure b' < measure b) Q) C)
    (hrest : ∀ b t, Env μ up t → guard b = false → I b t.device → Holds μ up (rest b t) Q C)
    {fuel : Nat} {b : β} (hs : Env μ up s) (hfuel : measure b ≤ fuel) (hI : I b s.device) :
    Holds μ up (Prog.loopThen guard body fuel b rest s) Q C := by
  have hI' : Env μ up s ∧ I b s.device := ⟨hs, hI⟩
  refine ensures_loopThen (I := fun b t => Env μ up t ∧ I b t.device) measure
    (fun b t hg h => hpos b t.device hg h.2) ?_ (fun b t hg h => hrest b t h.1 hg h.2) hfuel hI'
  intro b t hg h
  refine Result.Ensures.mono (hbody b t h.1 hg h.2) ?_ (fun _ hc => hc)
  intro r u hu
  cases r with
  | ok b' => exact ⟨⟨hu.1, hu.2.1⟩, hu.2.2⟩
  | error a => exact hu

/-- What holds after every ending holds of the device left behind. -/
theorem Holds.state {r : Result Machine α} {C : Device → Prop}
    (h : Holds μ up r (fun _ d => C d) C) : C r.state.device := by
  have hboth : r.Ensures (fun _ t => C t.device) (fun t => C t.device) :=
    Result.Ensures.mono h (fun _ _ ht => ht.2) (fun _ ht => ht.2)
  exact Result.Ensures.state (C := fun t : Machine => C t.device) hboth

/-- Without cuts the program returns. -/
theorem Holds.exists_done {r : Result Machine α} {Q : α → Device → Prop} {C : Device → Prop}
    (h : Holds μ up r Q C) (hcuts : μ.cuts = false) :
    ∃ a t, r = .done a t ∧ Env μ up t ∧ Q a t.device := by
  cases r with
  | done a t => exact ⟨a, t, rfl, h.1, h.2⟩
  | cut t =>
      have hcut : μ.cuts = true := h.1
      rw [hcuts] at hcut
      cases hcut
  | spin t => exact h.elim

end Rules

/-! ## Frames -/

/-- Whatever the environment does, the program moves the device along `R`. -/
def Keeps {α : Type} (R : Device → Device → Prop) (m : Prog Machine α) : Prop :=
  Respects (fun s t => R s.device t.device) m

instance (R : Device → Device → Prop) [IsPreorder Device R] :
    IsPreorder Machine (fun s t => R s.device t.device) where
  refl s := refl_of R s.device
  trans _ _ _ h₁ h₂ := trans_of R h₁ h₂

/-- Two devices agree on some addresses of each flash. -/
structure Frame (internal external : Nat → Prop) (d d' : Device) : Prop where
  internal : ∀ a, internal a → d'.internal a = d.internal a
  external : ∀ a, external a → d'.external a = d.external a

instance (internal external : Nat → Prop) : IsPreorder Device (Frame internal external) where
  refl _ := ⟨fun _ _ => rfl, fun _ _ => rfl⟩
  trans _ _ _ h₁ h₂ :=
    ⟨fun a ha => (h₂.internal a ha).trans (h₁.internal a ha),
      fun a ha => (h₂.external a ha).trans (h₁.external a ha)⟩

theorem Frame.mono {internal external internal' external' : Nat → Prop} {d d' : Device}
    (h : Frame internal external d d') (hi : ∀ a, internal' a → internal a)
    (he : ∀ a, external' a → external a) : Frame internal' external' d d' :=
  ⟨fun a ha => h.internal a (hi a ha), fun a ha => h.external a (he a ha)⟩

/-- The history is not touched. -/
def SameHistory (d d' : Device) : Prop := d'.history = d.history

instance : IsPreorder Device SameHistory where
  refl _ := rfl
  trans _ _ _ h₁ h₂ := Eq.trans h₂ h₁

section Keeps

variable {α β : Type} {R : Device → Device → Prop}

/-- A frame joins any judgement. -/
theorem Holds.and_keeps {μ : Mode} {up : Bool} {s : Machine} {m : Prog Machine α}
    {Q : α → Device → Prop} {C : Device → Prop} (h : Holds μ up (m s) Q C) (hm : Keeps R m) :
    Holds μ up (m s) (fun a d => Q a d ∧ R s.device d) (fun d => C d ∧ R s.device d) :=
  (Result.Ensures.and_state (F := fun t => R s.device t.device) h (hm s)).mono
    (fun _ _ ht => ⟨ht.1.1, ht.1.2, ht.2⟩) (fun _ ht => ⟨ht.1.1, ht.1.2, ht.2⟩)

/-- What a program returns in any case, it returns here. -/
theorem Holds.and_returns {μ : Mode} {up : Bool} {m : Prog Machine α} {s : Machine}
    {Q : α → Device → Prop} {C : Device → Prop} {P : α → Prop} (h : Holds μ up (m s) Q C)
    (hreturns : Returns m P) : Holds μ up (m s) (fun a d => Q a d ∧ P a) C := by
  unfold Holds at h ⊢
  cases hm : m s with
  | done a t =>
      rw [hm] at h
      exact ⟨h.1, h.2, hreturns s a t hm⟩
  | cut t =>
      rw [hm] at h
      exact h
  | spin =>
      rw [hm] at h
      exact h

theorem Keeps.mono {S : Device → Device → Prop} {m : Prog Machine α} (h : Keeps R m)
    (hRS : ∀ d d', R d d' → S d d') : Keeps S m :=
  Respects.mono h (fun s t => hRS s.device t.device)

theorem Keeps.update {f : Device → Device} (h : ∀ d, R d (f d)) : Keeps R (Flash.update f) :=
  fun s => h s.device

theorem Keeps.ite {c : Prop} [Decidable c] {m k : Prog Machine α} (hm : Keeps R m)
    (hk : Keeps R k) : Keeps R (if c then m else k) :=
  Respects.ite hm hk

variable [IsPreorder Device R]

theorem Keeps.pure (a : α) : Keeps R (Pure.pure a : Prog Machine α) :=
  Respects.pure a

theorem Keeps.read (f : Machine → α) : Keeps R (Prog.read f) :=
  Respects.read f

theorem Keeps.halt : Keeps R (Prog.halt : Prog Machine α) :=
  Respects.halt

theorem Keeps.bind {m : Prog Machine α} {k : α → Prog Machine β} (hm : Keeps R m)
    (hk : ∀ a, Keeps R (k a)) : Keeps R (m >>= k) :=
  Respects.bind hm hk

theorem Keeps.atomic {m : Prog Machine α} (hm : Keeps R m) : Keeps R (Prog.atomic m) :=
  Respects.atomic hm

theorem Keeps.loopThen {guard : β → Bool} {body : β → Prog Machine (Except α β)}
    {rest : β → Prog Machine α} (hbody : ∀ b, guard b = true → Keeps R (body b))
    (hrest : ∀ b, Keeps R (rest b))
    (fuel : Nat) (b : β) : Keeps R (Prog.loopThen guard body fuel b rest) :=
  Respects.loopThen hbody hrest fuel b

theorem Keeps.nextOutcome : Keeps R Flash.nextOutcome := by
  intro s
  unfold Flash.nextOutcome
  split <;> exact refl_of R s.device

theorem Keeps.setStatus (status : SpiFlashStatus) : Keeps R (SpiFlash.setStatus status) :=
  fun s => refl_of R s.device

theorem Keeps.erasePage {address : Nat}
    (h : ∀ d bytes, R d (d.withInternal address internalFlashPageSize bytes)) :
    Keeps R (Flash.erasePage address) := by
  refine Keeps.bind Keeps.nextOutcome ?_
  intro o
  cases o with
  | ok => exact Keeps.bind (Keeps.update fun d => h d _) fun _ => Keeps.pure _
  | externalFault status junk => exact Keeps.bind (Keeps.update fun d => h d _) fun _ => Keeps.pure _
  | internalFault junk => exact Keeps.bind (Keeps.update fun d => h d _) fun _ => Keeps.pure _
  | cut written => exact Keeps.halt

theorem Keeps.programHalfWord {address : Nat} {low high : UInt8}
    (h : ∀ d bytes, R d (d.withInternal address 2 bytes)) :
    Keeps R (Flash.programHalfWord address low high) := by
  have hok : Keeps R (Flash.update fun d =>
      d.withInternal address 2 fun a => if a = address then low else high) :=
    Keeps.update fun d => h d _
  refine Keeps.bind Keeps.nextOutcome ?_
  intro o
  cases o with
  | internalFault junk => exact Keeps.bind (Keeps.update fun d => h d _) fun _ => Keeps.pure _
  | cut written => exact Keeps.halt
  | ok =>
      exact Keeps.bind (Keeps.read _) fun _ =>
        Keeps.ite (Keeps.bind hok fun _ => Keeps.pure _) (Keeps.pure _)
  | externalFault status junk =>
      exact Keeps.bind (Keeps.read _) fun _ =>
        Keeps.ite (Keeps.bind hok fun _ => Keeps.pure _) (Keeps.pure _)

theorem Keeps.readData (address length : Nat) : Keeps R (SpiFlash.readData address length) := by
  refine Keeps.bind Keeps.nextOutcome ?_
  intro o
  cases o with
  | externalFault status junk => exact Keeps.bind (Keeps.setStatus _) fun _ => Keeps.pure _
  | cut written => exact Keeps.halt
  | ok => exact Keeps.read _
  | internalFault junk => exact Keeps.read _

theorem Keeps.pageProgram {address : Nat} {data : List UInt8}
    (h : ∀ d bytes, ∀ n ≤ data.length, R d (d.withExternal address n bytes)) :
    Keeps R (SpiFlash.pageProgram address data) := by
  have hok : Keeps R (Flash.update fun d =>
      d.withExternal address data.length (programmed d.external address data)) :=
    Keeps.update fun d => h d _ _ le_rfl
  refine Keeps.bind Keeps.nextOutcome ?_
  intro o
  cases o with
  | ok => exact Keeps.bind hok fun _ => Keeps.pure _
  | internalFault junk => exact Keeps.bind hok fun _ => Keeps.pure _
  | externalFault status junk =>
      exact Keeps.bind (Keeps.update fun d => h d _ _ le_rfl) fun _ =>
        Keeps.bind (Keeps.setStatus _) fun _ => Keeps.pure _
  | cut written =>
      exact Keeps.bind (Keeps.update fun d => h d _ _ (min_le_right _ _)) fun _ => Keeps.halt

theorem Keeps.sectorErase {address : Nat}
    (h : ∀ d bytes, R d (d.withExternal address extFlashSectorSize bytes)) :
    Keeps R (SpiFlash.sectorErase address) := by
  refine Keeps.bind Keeps.nextOutcome ?_
  intro o
  cases o with
  | ok => exact Keeps.bind (Keeps.update fun d => h d _) fun _ => Keeps.pure _
  | internalFault junk => exact Keeps.bind (Keeps.update fun d => h d _) fun _ => Keeps.pure _
  | externalFault status junk =>
      exact Keeps.bind (Keeps.update fun d => h d _) fun _ =>
        Keeps.bind (Keeps.setStatus _) fun _ => Keeps.pure _
  | cut written => exact Keeps.halt

end Keeps

/-! ## The flash operations -/

section Operations

variable {μ : Mode} {up : Bool} {s : Machine}

/-- The next outcome is one the mode admits, and choosing it does not touch the device. -/
theorem nextOutcome_holds {β : Type} {k : Outcome → Prog Machine β} {Q : β → Device → Prop}
    {C : Device → Prop} (hs : Env μ up s)
    (hk : ∀ o t, μ.Admits o → Env μ up t → t.device = s.device → Holds μ up (k o t) Q C) :
    Holds μ up ((Flash.nextOutcome >>= k) s) Q C := by
  unfold Holds
  rw [ensures_bind]
  unfold Flash.nextOutcome
  cases hscript : s.script with
  | nil => exact hk .ok s trivial hs rfl
  | cons o rest =>
      have hadmits := hs.admits
      rw [hscript] at hadmits
      refine hk o { s with script := rest } (hadmits o (by simp)) ?_ rfl
      exact ⟨fun p hp => hadmits p (by simp [hp]), hs.initialized, hs.atomicCommit, hs.writer⟩

theorem erasePage_holds [μ.Sound] (hs : Env μ up s) (address : Nat) :
    Holds μ up (Flash.erasePage address s)
      (fun ok d => ok = true ∧
        d = s.device.withInternal address internalFlashPageSize fun _ => 0xFF)
      (fun d => d = s.device) := by
  refine nextOutcome_holds hs ?_
  intro o t ho ht hd
  cases o with
  | ok => exact ⟨ht.withDevice _, rfl, by rw [← hd]⟩
  | externalFault status junk => exact ⟨ht.withDevice _, rfl, by rw [← hd]⟩
  | internalFault junk => exact absurd ho μ.not_internalFault
  | cut written => exact ⟨ho.1, hd⟩

theorem programHalfWord_holds [μ.Sound] (hs : Env μ up s) {address : Nat} (low high : UInt8)
    (h₀ : s.device.internal address = 0xFF) (h₁ : s.device.internal (address + 1) = 0xFF) :
    Holds μ up (Flash.programHalfWord address low high s)
      (fun ok d => ok = true ∧
        d = s.device.withInternal address 2 fun a => if a = address then low else high)
      (fun d => d = s.device) := by
  refine nextOutcome_holds hs ?_
  intro o t ho ht hd
  cases o with
  | internalFault junk => exact absurd ho μ.not_internalFault
  | cut written => exact ⟨ho.1, hd⟩
  | ok =>
      refine Holds.read_bind ?_
      simp only [hd, h₀, h₁, decide_true, Bool.and_self, Bool.true_or, if_true]
      exact ⟨ht.withDevice _, rfl, by rw [← hd]⟩
  | externalFault status junk =>
      refine Holds.read_bind ?_
      simp only [hd, h₀, h₁, decide_true, Bool.and_self, Bool.true_or, if_true]
      exact ⟨ht.withDevice _, rfl, by rw [← hd]⟩

/-- Whether or not the internal flash works, its operations return. -/
theorem erasePage_returns (hs : Env μ up s) (address : Nat) :
    Holds μ up (Flash.erasePage address s) (fun _ _ => True) (fun _ => True) := by
  refine nextOutcome_holds hs ?_
  intro o t ho ht _
  cases o with
  | ok => exact ⟨ht.withDevice _, trivial⟩
  | externalFault status junk => exact ⟨ht.withDevice _, trivial⟩
  | internalFault junk => exact ⟨ht.withDevice _, trivial⟩
  | cut written => exact ⟨ho.1, trivial⟩

theorem programHalfWord_returns (hs : Env μ up s) (address : Nat) (low high : UInt8) :
    Holds μ up (Flash.programHalfWord address low high s) (fun _ _ => True) (fun _ => True) := by
  have hworks : ∀ t, Env μ up t →
      Holds μ up ((Prog.read (fun u : Machine => u.device.internal address = 0xFF &&
          u.device.internal (address + 1) = 0xFF) >>= fun erased =>
        if erased || (low = 0 && high = 0) then do
          Flash.update fun d => d.withInternal address 2 fun a => if a = address then low else high
          pure true
        else pure false) t) (fun _ _ => True) (fun _ => True) := by
    intro t ht
    refine Holds.read_bind ?_
    split
    · exact Holds.update_bind (Holds.pure (ht.withDevice _) trivial)
    · exact Holds.pure ht trivial
  refine nextOutcome_holds hs ?_
  intro o t ho ht _
  cases o with
  | ok => exact hworks t ht
  | externalFault status junk => exact hworks t ht
  | internalFault junk => exact ⟨ht.withDevice _, trivial⟩
  | cut written => exact ⟨ho.1, trivial⟩

theorem readData_holds (hs : Env μ up s) (address length : Nat) :
    Holds μ up (SpiFlash.readData address length s)
      (fun r d => d = s.device ∧
        (r = some (window s.device.external address length) ∨ μ.Faulty ∧ r = none))
      (fun d => d = s.device) := by
  refine nextOutcome_holds hs ?_
  intro o t ho ht hd
  cases o with
  | ok => exact ⟨ht, hd, .inl (by rw [← hd])⟩
  | externalFault status junk => exact ⟨ht.withStatus _, hd, .inr ⟨ho, rfl⟩⟩
  | internalFault junk => exact ⟨ht, hd, .inl (by rw [← hd])⟩
  | cut written => exact ⟨ho.1, hd⟩

theorem pageProgram_holds (hs : Env μ up s) (address : Nat) (data : List UInt8) :
    Holds μ up (SpiFlash.pageProgram address data s)
      (fun ok d => ok = true ∧ d = s.device.withExternal address data.length
          (programmed s.device.external address data) ∨ μ.Faulty ∧ ok = false)
      (fun d => ∃ n, (μ.tornPrograms = true ∨ n = 0) ∧ d = s.device.withExternal address
          (min n data.length) (programmed s.device.external address data)) := by
  refine nextOutcome_holds hs ?_
  intro o t ho ht hd
  cases o with
  | ok => exact ⟨ht.withDevice _, .inl ⟨rfl, by rw [← hd]⟩⟩
  | externalFault status junk =>
      exact ⟨(ht.withDevice _).withStatus _, .inr ⟨ho, rfl⟩⟩
  | internalFault junk => exact ⟨ht.withDevice _, .inl ⟨rfl, by rw [← hd]⟩⟩
  | cut written => exact ⟨ho.1, written, ho.2, by rw [← hd]⟩

theorem sectorErase_holds (hs : Env μ up s) (address : Nat) :
    Holds μ up (SpiFlash.sectorErase address s)
      (fun ok d => ok = true ∧
          d = s.device.withExternal address extFlashSectorSize (fun _ => 0xFF) ∨
        μ.Faulty ∧ ok = false)
      (fun d => d = s.device) := by
  refine nextOutcome_holds hs ?_
  intro o t ho ht hd
  cases o with
  | ok => exact ⟨ht.withDevice _, .inl ⟨rfl, by rw [← hd]⟩⟩
  | externalFault status junk =>
      exact ⟨(ht.withDevice _).withStatus _, .inr ⟨ho, rfl⟩⟩
  | internalFault junk => exact ⟨ht.withDevice _, .inl ⟨rfl, by rw [← hd]⟩⟩
  | cut written => exact ⟨ho.1, hd⟩

end Operations

end SecureDeltaOta
