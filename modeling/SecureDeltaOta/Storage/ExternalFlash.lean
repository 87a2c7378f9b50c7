import SecureDeltaOta.Device.Logic

/-!
# External flash

The NOR flash driver `spi_flash.c` and the partition layer
`external_flash_storage.c`. Writes check first that no bit has to be set, go
out page by page, and are read back; a reported success therefore means that
the data are there, whatever the flash did.
-/

namespace SecureDeltaOta

open Memory Crash Flash

namespace SpiFlash

def preflightBufferSize : Nat := 32

def isInitialized : Prog Machine Bool :=
  Prog.read fun s => s.spi.initialized

/-- Return with a status. -/
def report {α : Type} (status : SpiFlashStatus) (result : α) : Prog Machine α := do
  setStatus status
  pure result

/-- `SpiFlash_Init`: the identification of the chip is one operation of the external flash. -/
def init : Prog Machine Bool := do
  Prog.modify fun s => { s with spi := ⟨false, .notInitialized⟩ }
  match ← nextOutcome with
  | .cut _ => Prog.halt
  | .externalFault status _ => report status false
  | _ => do
      Prog.modify fun s => { s with spi := ⟨true, .ok⟩ }
      pure true

/-- `SpiFlash_Read`: the bytes read, if the read succeeded. -/
def read (address length : Nat) : Prog Machine (Option (List UInt8)) := do
  let initialized ← isInitialized
  if !initialized then
    report .notInitialized none
  else if !ExtFlash.isAbsoluteRangeValid address length then
    report .rangeError none
  else if length = 0 then
    report .ok (some [])
  else do
    match ← readData address length with
    | none => pure none
    | some bytes => report .ok (some bytes)

def verify (address : Nat) (data : List UInt8) : Prog Machine Bool := do
  let initialized ← isInitialized
  if !initialized then
    report .notInitialized false
  else if !ExtFlash.isAbsoluteRangeValid address data.length then
    report .rangeError false
  else if data.length = 0 then
    report .ok true
  else do
    match ← readData address data.length with
    | none => pure false
    | some bytes => if bytes = data then report .ok true else report .verifyFailed false

/-- No bit of `data` asks for an erase of what is there. -/
def isProgrammable (existing data : List UInt8) : Bool :=
  (existing.zip data).all fun p => p.1 &&& p.2 = p.2

def preflightProgrammable (address : Nat) (data : List UInt8) : Prog Machine Bool :=
  Prog.loopThen (fun offset => offset < data.length)
    (fun offset => do
      let chunk := min (data.length - offset) preflightBufferSize
      match ← read (address + offset) chunk with
      | none => pure (.error false)
      | some existing =>
          if !isProgrammable existing ((data.drop offset).take chunk) then do
            setStatus .needsErase
            pure (.error false)
          else
            pure (.ok (offset + chunk)))
    data.length 0 (fun _ => pure true)

def programPageChunk (address : Nat) (data : List UInt8) : Prog Machine Bool := do
  if data.length = 0 ∨ data.length > ExtFlash.pageChunkLength address data.length then
    report .invalidArgument false
  else do
    let programmed ← pageProgram address data
    if !programmed then pure false else verify address data

def write (address : Nat) (data : List UInt8) : Prog Machine Bool := do
  let initialized ← isInitialized
  if !initialized then
    report .notInitialized false
  else if !ExtFlash.isAbsoluteRangeValid address data.length then
    report .rangeError false
  else if data.length = 0 then
    report .ok true
  else do
    let programmable ← preflightProgrammable address data
    if !programmable then
      pure false
    else
      Prog.loopThen (fun offset => offset < data.length)
        (fun offset => do
          let chunk := ExtFlash.pageChunkLength (address + offset) (data.length - offset)
          let programmed ← programPageChunk (address + offset) ((data.drop offset).take chunk)
          if !programmed then pure (.error false) else pure (.ok (offset + chunk)))
        data.length 0 (fun _ => report .ok true)

def eraseSector (address : Nat) : Prog Machine Bool := do
  let initialized ← isInitialized
  if !initialized then
    report .notInitialized false
  else if !ExtFlash.isSectorAligned address then
    report .alignmentError false
  else if !ExtFlash.isAbsoluteRangeValid address extFlashSectorSize then
    report .rangeError false
  else do
    let erased ← sectorErase address
    if !erased then pure false else report .ok true

end SpiFlash

namespace ExternalFlashStorage

def init : Prog Machine Bool := SpiFlash.init

/-- The absolute address of a range of a partition, if the range lies in it. -/
def resolveRange (partition : ExternalPartition) (offset length : Nat) : Option Nat :=
  if ExtFlash.isRangeValid partition.size offset length then some (partition.address + offset)
  else none

def read (partition : ExternalPartition) (offset length : Nat) :
    Prog Machine (Option (List UInt8)) :=
  match resolveRange partition offset length with
  | none => pure none
  | some address => SpiFlash.read address length

def write (partition : ExternalPartition) (offset : Nat) (data : List UInt8) :
    Prog Machine Bool :=
  match resolveRange partition offset data.length with
  | none => pure false
  | some address => SpiFlash.write address data

def verify (partition : ExternalPartition) (offset : Nat) (data : List UInt8) :
    Prog Machine Bool :=
  match resolveRange partition offset data.length with
  | none => pure false
  | some address => SpiFlash.verify address data

/-- Erase whole sectors from an absolute address on. -/
def eraseSectors (address length : Nat) : Prog Machine Bool :=
  Prog.loopThen (fun erased => erased < length)
    (fun erased => do
      let ok ← SpiFlash.eraseSector (address + erased)
      if !ok then pure (.error false) else pure (.ok (erased + extFlashSectorSize)))
    length 0 (fun _ => pure true)

def eraseRange (partition : ExternalPartition) (offset length : Nat) : Prog Machine Bool :=
  if length = 0 ∨ ExtFlash.isRangeValid partition.size offset length = false ∨
      ExtFlash.isSectorAligned offset = false ∨ length % extFlashSectorSize ≠ 0 then
    pure false
  else if !ExtFlash.isSectorAligned (partition.address + offset) then
    pure false
  else
    eraseSectors (partition.address + offset) length

def erasePartition (partition : ExternalPartition) : Prog Machine Bool :=
  if ExtFlash.isSectorAligned partition.address = false ∨
      partition.size % extFlashSectorSize ≠ 0 then
    pure false
  else
    eraseSectors partition.address partition.size

end ExternalFlashStorage

/-! ## What the driver may touch -/

/-- The relation allows changes of the external flash between two addresses. -/
def Allows (R : Device → Device → Prop) (lo hi : Nat) : Prop :=
  ∀ d start n bytes, lo ≤ start → start + n ≤ hi → R d (d.withExternal start n bytes)

/-- Outside a range of the external flash nothing changes. -/
abbrev OutsideFrame (lo hi : Nat) : Device → Device → Prop :=
  Frame (fun _ => True) (fun a => a < lo ∨ hi ≤ a)

theorem allows_outsideFrame {lo hi lo' hi' : Nat} (hlo : lo ≤ lo') (hhi : hi' ≤ hi) :
    Allows (OutsideFrame lo hi) lo' hi' := by
  intro d start n bytes h₁ h₂
  exact ⟨fun _ _ => rfl, fun a ha => Device.withExternal_outside (by omega)⟩

theorem allows_sameHistory (lo hi : Nat) : Allows SameHistory lo hi :=
  fun _ _ _ _ _ _ => rfl

/-- Some addresses of the internal flash and some partitions are kept. -/
abbrev PartFrame (internal : Nat → Prop) (kept : ExternalPartition → Prop) :
    Device → Device → Prop :=
  Frame internal fun a => ∃ p, kept p ∧ p.Contains a

theorem allows_partFrame {internal : Nat → Prop} {kept : ExternalPartition → Prop}
    {p : ExternalPartition} (hp : ¬ kept p) :
    Allows (PartFrame internal kept) p.address (p.address + p.size) := by
  intro d start n bytes hlo hhi
  refine ⟨fun _ _ => rfl, ?_⟩
  rintro a ⟨q, hq, hin⟩
  refine Device.withExternal_outside ?_
  by_contra hbad
  have hin' : p.Contains a := ⟨by omega, by omega⟩
  exact hp (ExternalPartition.eq_of_contains hin hin' ▸ hq)

theorem Frame.part {internal : Nat → Prop} {kept : ExternalPartition → Prop} {d d' : Device}
    (h : PartFrame internal kept d d') {p : ExternalPartition} (hp : kept p) {i : Nat}
    (hi : i < p.size) : d'.part p i = d.part p i :=
  h.external _ ⟨p, hp, by omega, by omega⟩

theorem Frame.slice {internal : Nat → Prop} {kept : ExternalPartition → Prop} {d d' : Device}
    (h : PartFrame internal kept d d') {p : ExternalPartition} (hp : kept p) {offset length : Nat}
    (hle : offset + length ≤ p.size) : d'.slice p offset length = d.slice p offset length := by
  unfold Device.slice
  rw [window_eq_iff]
  intro i hi
  rw [Nat.add_assoc]
  exact h.part hp (by omega)

theorem Allows.mono {R : Device → Device → Prop} {lo hi lo' hi' : Nat} (h : Allows R lo hi)
    (hlo : lo ≤ lo') (hhi : hi' ≤ hi) : Allows R lo' hi' :=
  fun d start n bytes h₁ h₂ => h d start n bytes (by omega) (by omega)

section Keeps

variable {R : Device → Device → Prop} [IsPreorder Device R]

theorem spiReport_keeps {α : Type} (status : SpiFlashStatus) (a : α) :
    Keeps R (SpiFlash.report status a) :=
  Keeps.bind (Keeps.setStatus _) fun _ => Keeps.pure _

theorem spiInit_keeps : Keeps R SpiFlash.init := by
  have hset : ∀ spi : SpiState, Keeps R (Prog.modify fun s : Machine => { s with spi := spi }) :=
    fun spi s => refl_of R s.device
  refine Keeps.bind (hset _) fun _ => Keeps.bind Keeps.nextOutcome ?_
  intro o
  cases o with
  | ok => exact Keeps.bind (hset _) fun _ => Keeps.pure _
  | internalFault junk => exact Keeps.bind (hset _) fun _ => Keeps.pure _
  | externalFault status junk => exact spiReport_keeps _ _
  | cut written => exact Keeps.halt

theorem spiRead_keeps (address length : Nat) : Keeps R (SpiFlash.read address length) := by
  refine Keeps.bind (Keeps.read _) fun _ => Keeps.ite (spiReport_keeps _ _)
    (Keeps.ite (spiReport_keeps _ _) (Keeps.ite (spiReport_keeps _ _)
      (Keeps.bind (Keeps.readData _ _) ?_)))
  intro r
  cases r with
  | none => exact Keeps.pure _
  | some bytes => exact spiReport_keeps _ _

theorem spiVerify_keeps (address : Nat) (data : List UInt8) :
    Keeps R (SpiFlash.verify address data) := by
  refine Keeps.bind (Keeps.read _) fun _ => Keeps.ite (spiReport_keeps _ _)
    (Keeps.ite (spiReport_keeps _ _) (Keeps.ite (spiReport_keeps _ _)
      (Keeps.bind (Keeps.readData _ _) ?_)))
  intro r
  cases r with
  | none => exact Keeps.pure _
  | some bytes => exact Keeps.ite (spiReport_keeps _ _) (spiReport_keeps _ _)

theorem preflight_keeps (address : Nat) (data : List UInt8) :
    Keeps R (SpiFlash.preflightProgrammable address data) := by
  refine Keeps.loopThen (fun offset _ => Keeps.bind (spiRead_keeps _ _) ?_) (fun _ => Keeps.pure _) _ _
  intro r
  cases r with
  | none => exact Keeps.pure _
  | some existing =>
      exact Keeps.ite (Keeps.bind (Keeps.setStatus _) fun _ => Keeps.pure _) (Keeps.pure _)

theorem programPageChunk_keeps {address : Nat} {data : List UInt8}
    (h : Allows R address (address + data.length)) :
    Keeps R (SpiFlash.programPageChunk address data) := by
  refine Keeps.ite (spiReport_keeps _ _) (Keeps.bind (Keeps.pageProgram ?_) ?_)
  · intro d bytes n hn
    exact h d address n bytes le_rfl (by omega)
  · intro programmed
    exact Keeps.ite (Keeps.pure _) (spiVerify_keeps _ _)

theorem spiWrite_keeps {address : Nat} {data : List UInt8}
    (h : Allows R address (address + data.length)) : Keeps R (SpiFlash.write address data) := by
  refine Keeps.bind (Keeps.read _) fun _ => Keeps.ite (spiReport_keeps _ _)
    (Keeps.ite (spiReport_keeps _ _) (Keeps.ite (spiReport_keeps _ _)
      (Keeps.bind (preflight_keeps _ _) fun _ => Keeps.ite (Keeps.pure _)
        (Keeps.loopThen ?_ (fun _ => spiReport_keeps _ _) _ _))))
  intro offset hguard
  simp only [decide_eq_true_eq] at hguard
  refine Keeps.bind (programPageChunk_keeps (h.mono (by omega) ?_)) fun _ =>
    Keeps.ite (Keeps.pure _) (Keeps.pure _)
  simp only [List.length_take, List.length_drop]
  omega

theorem eraseSector_keeps {address : Nat}
    (h : address % extFlashSectorSize = 0 → Allows R address (address + extFlashSectorSize)) :
    Keeps R (SpiFlash.eraseSector address) := by
  refine Keeps.bind (Keeps.read _) fun _ => Keeps.ite (spiReport_keeps _ _) ?_
  split
  · exact spiReport_keeps _ _
  · next haligned =>
      have hallows := h (by simpa [ExtFlash.isSectorAligned] using haligned)
      exact Keeps.ite (spiReport_keeps _ _)
        (Keeps.bind (Keeps.sectorErase fun d bytes => hallows d _ _ bytes le_rfl le_rfl) fun _ =>
          Keeps.ite (Keeps.pure _) (spiReport_keeps _ _))

end Keeps

/-! ## What the driver guarantees -/

/-- The data can be written without setting a bit. -/
def Programmable (d : Device) (address : Nat) (data : List UInt8) : Prop :=
  ∀ i < data.length, d.external (address + i) &&& data.getD i 0 = data.getD i 0

theorem programmable_of_erased {d : Device} {address : Nat} {data : List UInt8}
    (h : ∀ i < data.length, d.external (address + i) = 0xFF) : Programmable d address data := by
  intro i hi
  have hones : ∀ x : UInt8, 0xFF &&& x = x := fun x =>
    UInt8.toBitVec_inj.1 (show BitVec.allOnes 8 &&& x.toBitVec = x.toBitVec from
      BitVec.allOnes_and)
  rw [h i hi, hones]

section SpiFlash

variable {β : Type} {μ : Mode} {up : Bool} {s : Machine}

/-- Initialisation succeeds, or fails in a faulty mode. -/
theorem init_ensures (hs : Env μ up s) :
    (SpiFlash.init s).Ensures
      (fun ok t => t.device = s.device ∧
        (ok = true ∧ Env μ true t ∨ ok = false ∧ μ.Faulty ∧ Env μ false t))
      (fun t => μ.cuts = true ∧ t.device = s.device) := by
  have hadmits := hs.admits
  unfold SpiFlash.init
  rw [ensures_bind, ensures_modify, ensures_bind]
  unfold nextOutcome
  cases hscript : s.script with
  | nil => exact ⟨rfl, .inl ⟨rfl, by simp, fun _ => rfl, hs.atomicCommit, hs.writer⟩⟩
  | cons o rest =>
      rw [hscript] at hadmits
      have hrest : ∀ p ∈ rest, μ.Admits p := fun p hp => hadmits p (by simp [hp])
      have ho := hadmits o (by simp)
      cases o with
      | ok => exact ⟨rfl, .inl ⟨rfl, hrest, fun _ => rfl, hs.atomicCommit, hs.writer⟩⟩
      | externalFault status junk =>
          exact ⟨rfl, .inr ⟨rfl, ho, hrest, by simp, hs.atomicCommit, hs.writer⟩⟩
      | internalFault junk =>
          exact ⟨rfl, .inl ⟨rfl, hrest, fun _ => rfl, hs.atomicCommit, hs.writer⟩⟩
      | cut written => exact ⟨ho.1, rfl⟩

theorem init_holds (hs : Env μ up s) :
    Holds μ μ.ready (SpiFlash.init s) (fun ok d => d = s.device ∧ (ok = true ∨ μ.Faulty))
      (fun d => d = s.device) := by
  refine Result.Ensures.mono (init_ensures hs) ?_ (fun _ ht => ht)
  rintro ok t ⟨hd, ⟨rfl, ht⟩ | ⟨rfl, hfaulty, ht⟩⟩
  · exact ⟨ht.ready, hd, .inl rfl⟩
  · exact ⟨⟨ht.admits, fun hready => by simp [hfaulty] at hready, ht.atomicCommit, ht.writer⟩, hd,
      .inr hfaulty⟩

/-- Initialise the driver and go on with it, or without it in a faulty mode. -/
theorem init_bind_holds {k : Bool → Prog Machine β} {Q : β → Device → Prop} {C : Device → Prop}
    (hs : Env μ up s) (hcut : C s.device)
    (hk : ∀ ok t, ok = true ∨ μ.Faulty → Env μ μ.ready t → t.device = s.device →
      Holds μ μ.ready (k ok t) Q C) :
    Holds μ μ.ready ((SpiFlash.init >>= k) s) Q C := by
  refine Holds.bind (init_holds hs) ?_ (fun _ hd => hd ▸ hcut)
  intro ok t ht h
  exact hk ok t h.2 ht h.1

/-- The check every driver function begins with fails only in a faulty mode. -/
theorem isInitialized_bind_holds {m k : Prog Machine β} {Q : β → Device → Prop}
    {C : Device → Prop} (hs : Env μ up s) (hup : μ.Usable up)
    (hfail : μ.Faulty → Holds μ up (m s) Q C) (hok : Holds μ up (k s) Q C) :
    Holds μ up ((SpiFlash.isInitialized >>= fun i => if !i then m else k) s) Q C := by
  refine Holds.read_bind ?_
  split
  · next hinit =>
      refine hfail (hup.resolve_left ?_)
      intro hup
      rw [hs.initialized hup] at hinit
      cases hinit
  · exact hok

theorem spiRead_holds (hs : Env μ up s) (hup : μ.Usable up) {address length : Nat}
    (hrange : address + length ≤ extFlashSize) :
    Holds μ up (SpiFlash.read address length s)
      (fun r d => d = s.device ∧
        (r = some (window s.device.external address length) ∨ μ.Faulty ∧ r = none))
      (fun d => d = s.device) := by
  refine isInitialized_bind_holds hs hup
    (fun hfaulty => ⟨hs.withStatus _, rfl, .inr ⟨hfaulty, rfl⟩⟩) ?_
  rw [if_neg (by simp [ExtFlash.isAbsoluteRangeValid, ExtFlash.isRangeValid_iff, hrange])]
  split
  · next hzero => exact ⟨hs.withStatus _, rfl, .inl (by simp [hzero, window])⟩
  · refine Holds.bind (readData_holds hs address length) ?_ (fun d hd => hd)
    rintro r t ht ⟨hd, rfl | ⟨hfaulty, rfl⟩⟩
    · exact ⟨ht.withStatus _, hd, .inl rfl⟩
    · exact ⟨ht, hd, .inr ⟨hfaulty, rfl⟩⟩

theorem spiVerify_holds (hs : Env μ up s) (hup : μ.Usable up) {address : Nat} {data : List UInt8}
    (hrange : address + data.length ≤ extFlashSize) :
    Holds μ up (SpiFlash.verify address data s)
      (fun ok d => d = s.device ∧
        (ok = true ∧ window s.device.external address data.length = data ∨
          ok = false ∧ (μ.Faulty ∨ window s.device.external address data.length ≠ data)))
      (fun d => d = s.device) := by
  refine isInitialized_bind_holds hs hup
    (fun hfaulty => ⟨hs.withStatus _, rfl, .inr ⟨rfl, .inl hfaulty⟩⟩) ?_
  rw [if_neg (by simp [ExtFlash.isAbsoluteRangeValid, ExtFlash.isRangeValid_iff, hrange])]
  split
  · next hzero =>
      have hnil : data = [] := List.length_eq_zero_iff.1 hzero
      exact ⟨hs.withStatus _, rfl, .inl ⟨rfl, by simp [hnil, window]⟩⟩
  · refine Holds.bind (readData_holds hs address data.length) ?_ (fun d hd => hd)
    rintro r t ht ⟨hd, rfl | ⟨hfaulty, rfl⟩⟩
    · simp only
      split
      · next heq => exact ⟨ht.withStatus _, hd, .inl ⟨rfl, heq⟩⟩
      · next hne => exact ⟨ht.withStatus _, hd, .inr ⟨rfl, .inr hne⟩⟩
    · exact ⟨ht, hd, .inr ⟨rfl, .inl hfaulty⟩⟩

theorem isProgrammable_iff (existing data : List UInt8) (h : existing.length = data.length) :
    SpiFlash.isProgrammable existing data = true ↔
      ∀ i < data.length, existing.getD i 0 &&& data.getD i 0 = data.getD i 0 := by
  unfold SpiFlash.isProgrammable
  rw [List.all_eq_true]
  constructor
  · intro hall i hi
    have hmem : ((existing.zip data).getD i (0, 0)) ∈ existing.zip data := by
      rw [List.getD_eq_getElem _ _ (by rw [List.length_zip]; omega)]
      exact List.getElem_mem _
    have hpair := of_decide_eq_true (hall _ hmem)
    rw [List.getD_eq_getElem _ _ (by rw [List.length_zip]; omega), List.getElem_zip] at hpair
    rwa [List.getD_eq_getElem _ _ (by omega), List.getD_eq_getElem _ _ hi]
  · intro hall p hp
    obtain ⟨i, hi, rfl⟩ := List.mem_iff_getElem.1 hp
    rw [List.length_zip] at hi
    have hpair := hall i (by omega)
    rw [List.getD_eq_getElem _ _ (by omega), List.getD_eq_getElem _ _ (by omega)] at hpair
    rw [List.getElem_zip]
    exact decide_eq_true hpair

/-- The preflight passes exactly on programmable ranges, unless a read fails. -/
theorem preflight_holds (hs : Env μ up s) (hup : μ.Usable up) {address : Nat} {data : List UInt8}
    (hrange : address + data.length ≤ extFlashSize) :
    Holds μ up (SpiFlash.preflightProgrammable address data s)
      (fun ok d => d = s.device ∧
        (ok = true ∧ Programmable s.device address data ∨
          ok = false ∧ (μ.Faulty ∨ ¬ Programmable s.device address data)))
      (fun d => d = s.device) := by
  -- at the guard everything below `offset` was found programmable
  refine Holds.loopThen (I := fun offset d => offset ≤ data.length ∧ d = s.device ∧
      ∀ i < offset, s.device.external (address + i) &&& data.getD i 0 = data.getD i 0)
    (fun offset => data.length - offset) ?_ ?_ ?_ hs le_rfl ⟨Nat.zero_le _, rfl, by simp⟩
  · intro offset d hguard _
    simpa using hguard
  · rintro offset t ht hguard ⟨hle, hd, hbelow⟩
    simp only [decide_eq_true_eq] at hguard
    generalize hchunk : min (data.length - offset) SpiFlash.preflightBufferSize = chunk
    have hpos : 0 < chunk ∧ offset + chunk ≤ data.length := by
      unfold SpiFlash.preflightBufferSize at hchunk
      omega
    refine Holds.bind (spiRead_holds ht hup (by omega)) ?_ (fun d h => h.trans hd)
    rintro r u hu ⟨hdu, rfl | ⟨hfaulty, rfl⟩⟩
    · have hlen : ((data.drop offset).take chunk).length = chunk := chunk_length hpos.2
      have hiff := isProgrammable_iff (window t.device.external (address + offset) chunk)
        ((data.drop offset).take chunk) (by rw [window_length, hlen])
      have hhere : SpiFlash.isProgrammable (window t.device.external (address + offset) chunk)
          ((data.drop offset).take chunk) = true ↔ ∀ i < chunk,
            s.device.external (address + (offset + i)) &&& data.getD (offset + i) 0 =
              data.getD (offset + i) 0 := by
        rw [hiff, hlen]
        refine forall₂_congr fun i hi => ?_
        rw [window_getD hi, getD_chunk hi, hd, Nat.add_assoc]
      simp only
      split
      · next hbad =>
          refine Holds.setStatus_bind (Holds.pure (hu.withStatus _) ⟨hdu.trans hd, .inr ⟨rfl, .inr ?_⟩⟩)
          intro hprog
          rw [hhere.2 fun i hi => hprog _ (by omega)] at hbad
          cases hbad
      · next hgood =>
          refine Holds.pure hu ⟨⟨hpos.2, hdu.trans hd, ?_⟩, by omega⟩
          intro i hi
          rcases Nat.lt_or_ge i offset with hlow | hhigh
          · exact hbelow i hlow
          · obtain ⟨j, rfl⟩ := Nat.exists_eq_add_of_le hhigh
            exact hhere.1 (by simpa using hgood) j (by omega)
    · exact Holds.pure hu ⟨hdu.trans hd, .inr ⟨rfl, .inl hfaulty⟩⟩
  · rintro offset t ht hguard ⟨hle, hd, hbelow⟩
    simp only [decide_eq_false_iff_not, not_lt] at hguard
    exact Holds.pure ht ⟨hd, .inl ⟨rfl, fun i hi => hbelow i (by omega)⟩⟩

/-- A chunk inside one page is programmed and verified, or the flash is faulty. -/
theorem programPageChunk_holds (hs : Env μ up s) (hup : μ.Usable up) (address : Nat)
    (data : List UInt8) (hrange : address + data.length ≤ extFlashSize) (hpos : 0 < data.length)
    (hpage : data.length ≤ ExtFlash.pageChunkLength address data.length)
    (hprog : Programmable s.device address data) :
    Holds μ up (SpiFlash.programPageChunk address data s)
      (fun ok d => ok = true ∧ window d.external address data.length = data ∨
        ok = false ∧ μ.Faulty)
      (fun d => Torn s.device.external address data d.external) := by
  have hbyte : ∀ i < data.length,
      programmed s.device.external address data (address + i) = data.getD i 0 := by
    intro i hi
    have hdefault : data.getD i 0xFF = data.getD i 0 := by
      rw [List.getD_eq_getElem _ _ hi, List.getD_eq_getElem _ _ hi]
    rw [programmed, Nat.add_sub_cancel_left, hdefault]
    exact hprog i hi
  unfold SpiFlash.programPageChunk
  rw [if_neg (by omega)]
  refine Holds.bind (pageProgram_holds hs address data) ?_ ?_
  swap
  · rintro d ⟨n, -, rfl⟩
    refine ⟨min n data.length, min_le_right _ _, fun i hi => ?_, fun i hlow hi => ?_⟩
    · rw [Device.withExternal_inside (by omega)]
      exact hbyte i (hi.trans_le (min_le_right _ _))
    · exact Device.withExternal_outside (by omega)
  rintro programmed? t ht (⟨rfl, hd⟩ | ⟨hfaulty, rfl⟩)
  · have hthere : window t.device.external address data.length = data := by
      rw [window_eq_list_iff]
      intro i hi
      rw [hd, Device.withExternal_inside (by omega)]
      exact hbyte i hi
    simp only [Bool.not_true, Bool.false_eq_true, if_false]
    refine (spiVerify_holds ht hup hrange).mono ?_ (by rintro d rfl; exact .of_window hthere)
    rintro ok d ⟨rfl, ⟨rfl, hok⟩ | ⟨rfl, hfaulty | hne⟩⟩
    · exact .inl ⟨rfl, hok⟩
    · exact .inr ⟨rfl, hfaulty⟩
    · exact absurd hthere hne
  · exact Holds.pure ht (.inr ⟨rfl, hfaulty⟩)

/-- A successful write leaves the data in place; a write over erased flash succeeds. -/
theorem spiWrite_holds (hs : Env μ up s) (hup : μ.Usable up) {address : Nat} {data : List UInt8}
    (hrange : address + data.length ≤ extFlashSize) :
    Holds μ up (SpiFlash.write address data s)
      (fun ok d => ok = true ∧ window d.external address data.length = data ∨
        ok = false ∧ (μ.Faulty ∨ ¬ Programmable s.device address data))
      (fun d => Torn s.device.external address data d.external) := by
  refine isInitialized_bind_holds hs hup
    (fun hfaulty => ⟨hs.withStatus _, .inr ⟨rfl, .inl hfaulty⟩⟩) ?_
  rw [if_neg (by simp [ExtFlash.isAbsoluteRangeValid, ExtFlash.isRangeValid_iff, hrange])]
  split
  · next hzero =>
      have hnil : data = [] := List.length_eq_zero_iff.1 hzero
      exact ⟨hs.withStatus _, .inl ⟨rfl, by simp [hnil, window]⟩⟩
  · refine Holds.bind (preflight_holds hs hup hrange) ?_ (by rintro d rfl; exact .refl _ _ _)
    rintro programmable t ht ⟨hd, ⟨rfl, hprog⟩ | ⟨rfl, hbad⟩⟩
    · simp only [Bool.not_true, Bool.false_eq_true, if_false]
      -- below `offset` the data are written, from there on the flash is as it was
      refine Holds.loopThen (I := fun offset d => offset ≤ data.length ∧
          (∀ i < offset, d.external (address + i) = data.getD i 0) ∧
          ∀ i, offset ≤ i → i < data.length →
            d.external (address + i) = s.device.external (address + i))
        (fun offset => data.length - offset) ?_ ?_ ?_ ht le_rfl
        ⟨Nat.zero_le _, by simp, fun i _ _ => by rw [hd]⟩
      · intro offset d hguard _
        simpa using hguard
      · rintro offset u hu hguard ⟨hle, hbelow, habove⟩
        simp only [decide_eq_true_eq] at hguard
        have hidem := ExtFlash.pageChunkLength_idem (address + offset) (data.length - offset)
        have hpos := ExtFlash.pageChunkLength_pos (address + offset)
          (show 0 < data.length - offset by omega)
        have hroom := ExtFlash.pageChunkLength_le (address + offset) (data.length - offset)
        generalize ExtFlash.pageChunkLength (address + offset) (data.length - offset) = chunk at *
        have hlen : ((data.drop offset).take chunk).length = chunk := chunk_length (by omega)
        have hpiece : Programmable u.device (address + offset) ((data.drop offset).take chunk) := by
          intro i hi
          rw [hlen] at hi
          rw [getD_chunk hi, Nat.add_assoc, habove _ (by omega) (by omega)]
          exact hprog _ (by omega)
        have hchunk := (programPageChunk_holds hu hup (address + offset)
          ((data.drop offset).take chunk) (by omega) (by omega) (by rw [hlen, hidem])
          hpiece).and_keeps (programPageChunk_keeps (allows_outsideFrame le_rfl le_rfl))
        rw [hlen] at hchunk
        refine Holds.bind hchunk ?_ ?_
        swap
        · rintro d ⟨⟨n, hn, hwritten, hkept⟩, hframe⟩
          rw [hlen] at hn hkept
          refine ⟨offset + n, by omega, fun i hi => ?_, fun i hlow hi => ?_⟩
          · rcases Nat.lt_or_ge i offset with hlow | hhigh
            · rw [hframe.external _ (by omega)]
              exact hbelow i hlow
            · obtain ⟨j, rfl⟩ := Nat.exists_eq_add_of_le hhigh
              rw [← Nat.add_assoc, hwritten j (by omega), getD_chunk (by omega)]
          · rw [← habove i (by omega) hi]
            rcases Nat.lt_or_ge i (offset + chunk) with hin | hout
            · obtain ⟨j, rfl⟩ := Nat.exists_eq_add_of_le (show offset ≤ i by omega)
              rw [← Nat.add_assoc]
              exact hkept j (by omega) (by omega)
            · exact hframe.external _ (by omega)
        rintro ok v hv ⟨⟨rfl, hwritten⟩ | ⟨rfl, hfaulty⟩, hframe⟩
        · refine Holds.pure hv ⟨⟨by omega, ?_, ?_⟩, by omega⟩
          · intro i hi
            rcases Nat.lt_or_ge i offset with hlow | hhigh
            · rw [hframe.external _ (by omega)]
              exact hbelow i hlow
            · obtain ⟨j, rfl⟩ := Nat.exists_eq_add_of_le hhigh
              have hj : j < chunk := by omega
              have hget := congrArg (fun l => l.getD j 0) hwritten
              simp only [window_getD hj, getD_chunk hj] at hget
              rwa [← Nat.add_assoc]
          · intro i hi₁ hi₂
            rw [hframe.external _ (by omega)]
            exact habove i (by omega) hi₂
        · exact Holds.pure hv (.inr ⟨rfl, .inl hfaulty⟩)
      · rintro offset u hu hguard ⟨hle, hbelow, -⟩
        simp only [decide_eq_false_iff_not, not_lt] at hguard
        refine ⟨hu.withStatus _, .inl ⟨rfl, window_eq_list_iff.2 ?_⟩⟩
        intro i hi
        exact hbelow i (by omega)
    · exact Holds.pure ht (.inr ⟨rfl, hbad⟩)

theorem eraseSector_holds (hs : Env μ up s) (hup : μ.Usable up) {address : Nat}
    (hrange : address + extFlashSectorSize ≤ extFlashSize)
    (haligned : address % extFlashSectorSize = 0) :
    Holds μ up (SpiFlash.eraseSector address s)
      (fun ok d => ok = true ∧
          d = s.device.withExternal address extFlashSectorSize (fun _ => 0xFF) ∨
        ok = false ∧ μ.Faulty)
      (fun d => d = s.device) := by
  refine isInitialized_bind_holds hs hup
    (fun hfaulty => ⟨hs.withStatus _, .inr ⟨rfl, hfaulty⟩⟩) ?_
  rw [if_neg (by simp [ExtFlash.isSectorAligned, haligned]),
    if_neg (by simp [ExtFlash.isAbsoluteRangeValid, ExtFlash.isRangeValid_iff, hrange])]
  refine Holds.bind (sectorErase_holds hs address) ?_ (fun _ hd => hd)
  rintro ok t ht (⟨rfl, hd⟩ | ⟨hfaulty, rfl⟩)
  · exact ⟨ht.withStatus _, .inl ⟨rfl, hd⟩⟩
  · exact ⟨ht, .inr ⟨rfl, hfaulty⟩⟩

end SpiFlash

/-! ## Partitions -/

section Partitions

variable {μ : Mode} {up : Bool} {s : Machine} {p : ExternalPartition}

theorem ExternalPartition.address_aligned (p : ExternalPartition) :
    p.address % extFlashSectorSize = 0 := by
  cases p <;> rfl

theorem resolveRange_of_le {offset length : Nat} (h : offset + length ≤ p.size) :
    ExternalFlashStorage.resolveRange p offset length = some (p.address + offset) :=
  if_pos (ExtFlash.isRangeValid_iff.2 h)

theorem resolveRange_of_gt {offset length : Nat} (h : p.size < offset + length) :
    ExternalFlashStorage.resolveRange p offset length = none :=
  if_neg (by rw [ExtFlash.isRangeValid_iff]; omega)

theorem storageRead_holds (hs : Env μ up s) (hup : μ.Usable up) (p : ExternalPartition)
    (offset length : Nat) :
    Holds μ up (ExternalFlashStorage.read p offset length s)
      (fun r d => d = s.device ∧
        (r = some (s.device.slice p offset length) ∧ offset + length ≤ p.size ∨
          r = none ∧ (μ.Faulty ∨ p.size < offset + length)))
      (fun d => d = s.device) := by
  unfold ExternalFlashStorage.read
  rcases Nat.lt_or_ge p.size (offset + length) with hout | hin
  · rw [resolveRange_of_gt hout]
    exact Holds.pure hs ⟨rfl, .inr ⟨rfl, .inr hout⟩⟩
  · rw [resolveRange_of_le hin]
    have hend := p.end_le_extFlashSize
    refine (spiRead_holds hs hup (by omega)).mono ?_ (fun _ hd => hd)
    rintro r d ⟨hd, rfl | ⟨hfaulty, rfl⟩⟩
    · exact ⟨hd, .inl ⟨rfl, hin⟩⟩
    · exact ⟨hd, .inr ⟨rfl, .inl hfaulty⟩⟩

theorem storageVerify_holds (hs : Env μ up s) (hup : μ.Usable up) {offset : Nat}
    {data : List UInt8} (hrange : offset + data.length ≤ p.size) :
    Holds μ up (ExternalFlashStorage.verify p offset data s)
      (fun ok d => d = s.device ∧
        (ok = true ∧ s.device.slice p offset data.length = data ∨
          ok = false ∧ (μ.Faulty ∨ s.device.slice p offset data.length ≠ data)))
      (fun d => d = s.device) := by
  have hend := p.end_le_extFlashSize
  unfold ExternalFlashStorage.verify
  rw [resolveRange_of_le hrange]
  exact spiVerify_holds hs hup (by omega)

theorem storageWrite_holds (hs : Env μ up s) (hup : μ.Usable up) {offset : Nat}
    {data : List UInt8} (hrange : offset + data.length ≤ p.size) :
    Holds μ up (ExternalFlashStorage.write p offset data s)
      (fun ok d => ok = true ∧ d.slice p offset data.length = data ∨
        ok = false ∧ (μ.Faulty ∨ ¬ Programmable s.device (p.address + offset) data))
      (fun d => Torn s.device.external (p.address + offset) data d.external) := by
  have hend := p.end_le_extFlashSize
  unfold ExternalFlashStorage.write
  rw [resolveRange_of_le hrange]
  exact spiWrite_holds hs hup (by omega)

/-- Sectors are erased one after another. -/
theorem eraseSectors_holds (hs : Env μ up s) (hup : μ.Usable up) {address length : Nat}
    (hrange : address + length ≤ extFlashSize) (haligned : address % extFlashSectorSize = 0)
    (hwhole : length % extFlashSectorSize = 0) :
    Holds μ up (ExternalFlashStorage.eraseSectors address length s)
      (fun ok d => ok = true ∧ (∀ i < length, d.external (address + i) = 0xFF) ∨
        ok = false ∧ μ.Faulty)
      (fun d => ∃ n < length, n % extFlashSectorSize = 0 ∧
        d = s.device.withExternal address n fun _ => 0xFF) := by
  have hsize : extFlashSectorSize = 4096 := rfl
  refine Holds.loopThen (I := fun erased d => erased % extFlashSectorSize = 0 ∧ erased ≤ length ∧
      d = s.device.withExternal address erased fun _ => 0xFF)
    (fun erased => length - erased) ?_ ?_ ?_ hs le_rfl
    ⟨rfl, Nat.zero_le _, (Device.withExternal_zero _ _ _).symm⟩
  · intro erased d hguard _
    simpa using hguard
  · rintro erased t ht hguard ⟨hmod, hle, hd⟩
    simp only [decide_eq_true_eq] at hguard
    have hsector : (address + erased) % extFlashSectorSize = 0 := by
      unfold extFlashSectorSize at *
      omega
    have hroom : erased + extFlashSectorSize ≤ length := by
      unfold extFlashSectorSize at *
      omega
    refine Holds.bind (eraseSector_holds ht hup (by omega) hsector) ?_ ?_
    · rintro ok u hu (⟨rfl, hd'⟩ | ⟨rfl, hfaulty⟩)
      · refine Holds.pure hu ⟨⟨(Nat.add_mod_right _ _).trans hmod, hroom, ?_⟩, by omega⟩
        rw [hd', hd, Device.withExternal_append]
      · exact Holds.pure hu (.inr ⟨rfl, hfaulty⟩)
    · rintro d rfl
      exact ⟨erased, hguard, hmod, hd⟩
  · rintro erased t ht hguard ⟨-, hle, hd⟩
    simp only [decide_eq_false_iff_not, not_lt] at hguard
    refine Holds.pure ht (.inl ⟨rfl, fun i hi => ?_⟩)
    rw [hd, Device.withExternal_inside (by omega)]

theorem eraseRange_holds (hs : Env μ up s) (hup : μ.Usable up) {offset length : Nat}
    (hpos : 0 < length) (hrange : offset + length ≤ p.size)
    (haligned : offset % extFlashSectorSize = 0) (hwhole : length % extFlashSectorSize = 0) :
    Holds μ up (ExternalFlashStorage.eraseRange p offset length s)
      (fun ok d => ok = true ∧ (∀ i < length, d.part p (offset + i) = 0xFF) ∨
        ok = false ∧ μ.Faulty)
      (fun d => ∃ n < length, n % extFlashSectorSize = 0 ∧
        d = s.device.withExternal (p.address + offset) n fun _ => 0xFF) := by
  have hbase := p.address_aligned
  have hend := p.end_le_extFlashSize
  have hsum : (p.address + offset) % extFlashSectorSize = 0 := by
    unfold extFlashSectorSize at *
    omega
  unfold ExternalFlashStorage.eraseRange
  rw [if_neg (by
    simp only [ExtFlash.isRangeValid_iff.2 hrange, ExtFlash.isSectorAligned, haligned, hwhole]
    simp only [decide_true, Bool.true_eq_false, ne_eq, not_true_eq_false, or_false]
    omega), if_neg (by simp [ExtFlash.isSectorAligned, hsum])]
  refine (eraseSectors_holds hs hup (by omega) hsum hwhole).mono ?_ (fun _ hd => hd)
  rintro ok d (⟨rfl, herased⟩ | hfail)
  · refine .inl ⟨rfl, fun i hi => ?_⟩
    rw [Device.part, ← Nat.add_assoc]
    exact herased i hi
  · exact .inr hfail

theorem ExternalPartition.size_whole (p : ExternalPartition) : p.size % extFlashSectorSize = 0 := by
  cases p <;> rfl

theorem erasePartition_holds (hs : Env μ up s) (hup : μ.Usable up) (p : ExternalPartition) :
    Holds μ up (ExternalFlashStorage.erasePartition p s)
      (fun ok d => ok = true ∧ (∀ i < p.size, d.part p i = 0xFF) ∨ ok = false ∧ μ.Faulty)
      (fun d => ∃ n < p.size, n % extFlashSectorSize = 0 ∧
        d = s.device.withExternal p.address n fun _ => 0xFF) := by
  unfold ExternalFlashStorage.erasePartition
  rw [if_neg (by simp [ExtFlash.isSectorAligned, p.address_aligned, p.size_whole])]
  exact eraseSectors_holds hs hup p.end_le_extFlashSize p.address_aligned p.size_whole

end Partitions

section PartitionFrames

variable {R : Device → Device → Prop} [IsPreorder Device R]

theorem storageRead_keeps (p : ExternalPartition) (offset length : Nat) :
    Keeps R (ExternalFlashStorage.read p offset length) := by
  unfold ExternalFlashStorage.read
  split
  · exact Keeps.pure _
  · exact spiRead_keeps _ _

theorem storageVerify_keeps (p : ExternalPartition) (offset : Nat) (data : List UInt8) :
    Keeps R (ExternalFlashStorage.verify p offset data) := by
  unfold ExternalFlashStorage.verify
  split
  · exact Keeps.pure _
  · exact spiVerify_keeps _ _

theorem storageWrite_keeps {p : ExternalPartition} {offset : Nat} {data : List UInt8}
    (h : offset + data.length ≤ p.size →
      Allows R (p.address + offset) (p.address + offset + data.length)) :
    Keeps R (ExternalFlashStorage.write p offset data) := by
  unfold ExternalFlashStorage.write
  rcases Nat.lt_or_ge p.size (offset + data.length) with hout | hin
  · rw [resolveRange_of_gt hout]
    exact Keeps.pure _
  · rw [resolveRange_of_le hin]
    exact spiWrite_keeps (h hin)

theorem eraseSectors_keeps {address length : Nat} (haligned : address % extFlashSectorSize = 0)
    (hwhole : length % extFlashSectorSize = 0) (h : Allows R address (address + length)) :
    Keeps R (ExternalFlashStorage.eraseSectors address length) := by
  refine Keeps.loopThen ?_ (fun _ => Keeps.pure _) _ _
  intro erased hguard
  simp only [decide_eq_true_eq] at hguard
  refine Keeps.bind (eraseSector_keeps fun hsector => h.mono (by omega) ?_) fun _ =>
    Keeps.ite (Keeps.pure _) (Keeps.pure _)
  unfold extFlashSectorSize at *
  omega

theorem eraseRange_keeps {p : ExternalPartition} {offset length : Nat}
    (h : offset + length ≤ p.size →
      Allows R (p.address + offset) (p.address + offset + length)) :
    Keeps R (ExternalFlashStorage.eraseRange p offset length) := by
  unfold ExternalFlashStorage.eraseRange
  split
  · exact Keeps.pure _
  · next hargs =>
      simp only [not_or, ne_eq, not_not, Bool.not_eq_false, ExtFlash.isRangeValid_iff] at hargs
      split
      · exact Keeps.pure _
      · next haligned =>
          exact eraseSectors_keeps (by simpa [ExtFlash.isSectorAligned] using haligned)
            hargs.2.2.2 (h hargs.2.1)

theorem erasePartition_keeps {p : ExternalPartition}
    (h : Allows R p.address (p.address + p.size)) :
    Keeps R (ExternalFlashStorage.erasePartition p) :=
  Keeps.ite (Keeps.pure _) (eraseSectors_keeps p.address_aligned p.size_whole h)

end PartitionFrames

/-! ## Reading in chunks -/

namespace ExternalFlashStorage

/--
A range is read in chunks and absorbed into a running value. The digests of the
bootloader are all computed by such a loop.
-/
def foldChunks {σ α : Type} (readChunk : Nat → Nat → Prog Machine (Option (List UInt8)))
    (absorb : σ → List UInt8 → σ) (chunkSize length : Nat) (start : σ) (failure : α)
    (finish : σ → α) : Prog Machine α :=
  Prog.loopThen (fun st : Nat × σ => st.1 < length)
    (fun st => do
      let chunk := min (length - st.1) chunkSize
      match ← readChunk st.1 chunk with
      | none => pure (.error failure)
      | some buffer => pure (.ok (st.1 + chunk, absorb st.2 buffer)))
    length (0, start) (fun st => pure (finish st.2))

end ExternalFlashStorage

section Chunks

variable {σ α : Type} {μ : Mode} {up : Bool} {s : Machine}
  {readChunk : Nat → Nat → Prog Machine (Option (List UInt8))} {absorb : σ → List UInt8 → σ}
  {chunkSize length : Nat} {start : σ} {failure : α} {finish : σ → α}

/-- Reading in chunks amounts to reading the range in one piece; `cause` is why a read may fail. -/
theorem foldChunks_holds (cause : Prop) (mem : Nat → UInt8) (hs : Env μ up s) (hchunk : 0 < chunkSize)
    (hnil : absorb start [] = start)
    (happend : ∀ xs ys, absorb (absorb start xs) ys = absorb start (xs ++ ys))
    (hread : ∀ t offset len, Env μ up t → t.device = s.device → offset + len ≤ length →
      Holds μ up (readChunk offset len t)
        (fun r d => d = s.device ∧ (r = some (window mem offset len) ∨ r = none ∧ cause))
        (fun d => d = s.device)) :
    Holds μ up (ExternalFlashStorage.foldChunks readChunk absorb chunkSize length start failure
        finish s)
      (fun r d => d = s.device ∧
        (r = finish (absorb start (window mem 0 length)) ∨ r = failure ∧ cause))
      (fun d => d = s.device) := by
  refine Holds.loopThen (I := fun b d => d = s.device ∧ b.1 ≤ length ∧
      b.2 = absorb start (window mem 0 b.1)) (fun b => length - b.1) ?_ ?_ ?_ hs le_rfl
    ⟨rfl, Nat.zero_le _, hnil.symm⟩
  · intro b d hguard _
    simp only [decide_eq_true_eq] at hguard
    omega
  · rintro ⟨offset, st⟩ t ht hguard ⟨hd, hle, hst⟩
    simp only [decide_eq_true_eq] at hguard
    dsimp only at hle hst
    refine Holds.bind (hread t offset _ ht hd (by dsimp only; omega)) ?_ (fun _ hd' => hd')
    rintro r u hu ⟨hd', rfl | ⟨rfl, hcause⟩⟩
    · refine Holds.pure hu ⟨⟨hd', by dsimp only; omega, ?_⟩, by dsimp only; omega⟩
      dsimp only
      rw [hst, happend, window_add, Nat.zero_add]
    · exact Holds.pure hu ⟨hd', .inr ⟨rfl, hcause⟩⟩
  · rintro ⟨offset, st⟩ t ht hguard ⟨hd, hle, hst⟩
    simp only [decide_eq_false_iff_not, not_lt] at hguard
    dsimp only at hle hst hguard
    refine Holds.pure ht ⟨hd, .inl ?_⟩
    rw [hst, show offset = length by omega]

theorem foldChunks_keeps {R : Device → Device → Prop} [IsPreorder Device R]
    (hread : ∀ offset len, Keeps R (readChunk offset len)) :
    Keeps R (ExternalFlashStorage.foldChunks readChunk absorb chunkSize length start failure
      finish) := by
  refine Keeps.loopThen (fun st _ => Keeps.bind (hread _ _) fun r => ?_) (fun _ => Keeps.pure _) _ _
  cases r <;> exact Keeps.pure _

end Chunks

end SecureDeltaOta
