import SecureDeltaOta.Device.Logic

/-!
# Internal metadata storage

`metadata_storage.c`: the boot metadata lives in two pages of the internal
flash. A commit erases the page that is not current and programs the new record
into it half-word by half-word, the CRC last.
-/

namespace SecureDeltaOta

open Memory Crash

inductive MetadataStorageStatus where
  | ok
  | defaultsUsed
  | invalidArgument
  | eraseFailed
  | programFailed
  | verifyFailed
  deriving DecidableEq, Repr

namespace MetadataStorage

open BootMetadata (recordSize)

def slotAddress : Slot → Nat
  | .a => bootMetadataAAddress
  | .b => bootMetadataBAddress
  | .none => 0

def copyFromFlash (d : Device) (address : Nat) : BootMetadata :=
  BootMetadata.decode (window d.internal address recordSize)

def recordsEqual (left right : BootMetadata) : Bool :=
  left.encode = right.encode

/-- `MetadataStorage_Load` in a build with the given `APPLICATION_VERSION`. -/
def load (applicationVersion : UInt32) (d : Device) : MetadataStorageStatus × BootMetadata :=
  let slotA := copyFromFlash d bootMetadataAAddress
  let slotB := copyFromFlash d bootMetadataBAddress
  match BootMetadata.selectNewestSlot slotA slotB with
  | .a => (.ok, slotA)
  | .b => (.ok, slotB)
  | .none => (.defaultsUsed, BootMetadata.init applicationVersion)

def programSlot (slot : Slot) (metadata : BootMetadata) : Prog Machine MetadataStorageStatus :=
  let address := slotAddress slot
  let bytes := metadata.encode
  if address ≠ bootMetadataAAddress ∧ address ≠ bootMetadataBAddress then
    pure .invalidArgument
  else do
    let erased ← Flash.erasePage address
    if !erased then
      pure .eraseFailed
    else
      Prog.loopThen (fun offset => offset < recordSize)
        (fun offset => do
          let complete ← Flash.programHalfWord (address + offset) (bytes.getD offset 0)
            (bytes.getD (offset + 1) 0)
          if !complete then pure (.error .programFailed) else pure (.ok (offset + 2)))
        recordSize 0 (fun _ => pure .ok)

/-- The record a commit writes: the request with the successor generation and its CRC. -/
def candidateFor (d : Device) (requested : BootMetadata) : BootMetadata :=
  let slotA := copyFromFlash d bootMetadataAAddress
  let slotB := copyFromFlash d bootMetadataBAddress
  let currentGeneration :=
    match BootMetadata.selectNewestSlot slotA slotB with
    | .a => slotA.generation
    | .b => slotB.generation
    | .none => 0
  BootMetadata.finalize
    { requested with generation := BootMetadata.nextGeneration currentGeneration }

/-- The current record of the two slots, if one of them is valid. -/
def persisted (d : Device) : Option BootMetadata :=
  BootMetadata.slotFormat.current (copyFromFlash d bootMetadataAAddress)
    (copyFromFlash d bootMetadataBAddress)

/-- The half-word programming sequence of a commit; the observer notes its end. -/
def commitSteps (requested : BootMetadata) :
    Prog Machine (Except MetadataStorageStatus BootMetadata) := do
  let before ← Prog.read fun s => s.device
  let targetSlot := BootMetadata.selectWriteSlot (copyFromFlash before bootMetadataAAddress)
    (copyFromFlash before bootMetadataBAddress)
  let candidate := candidateFor before requested
  if candidate.validate ≠ .valid then do
    let writer ← Prog.read fun s => s.writer
    Flash.update fun d => d.record (.refused writer (persisted before) requested)
    pure (.error .invalidArgument)
  else do
    let status ← programSlot targetSlot candidate
    if status ≠ .ok then
      pure (.error status)
    else do
      let verification ← Prog.read fun s => copyFromFlash s.device (slotAddress targetSlot)
      if verification.validate ≠ .valid ∨ recordsEqual candidate verification = false then
        pure (.error .verifyFailed)
      else do
        let writer ← Prog.read fun s => s.writer
        Flash.update fun d => d.record (.commit writer (persisted before) verification)
        pure (.ok verification)

/-- `MetadataStorage_Commit`: the committed record, or the status of the failure. -/
def commit (requested : BootMetadata) :
    Prog Machine (Except MetadataStorageStatus BootMetadata) := do
  let atomic ← Prog.read fun s => s.atomicCommit
  if atomic then Prog.atomic (commitSteps requested) else commitSteps requested

/-! ## Loading -/

/-- A record is persisted when the next load returns it. -/
def Persisted (d : Device) (m : BootMetadata) : Prop :=
  persisted d = some m

instance (d : Device) (m : BootMetadata) : Decidable (Persisted d m) :=
  inferInstanceAs (Decidable (_ = _))

theorem load_eq (applicationVersion : UInt32) (d : Device) :
    load applicationVersion d =
      match persisted d with
      | some m => (.ok, m)
      | none => (.defaultsUsed, BootMetadata.init applicationVersion) := by
  unfold load persisted SlotFormat.current BootMetadata.selectNewestSlot
  dsimp only
  cases BootMetadata.slotFormat.selectNewestSlot (copyFromFlash d bootMetadataAAddress)
    (copyFromFlash d bootMetadataBAddress) <;> rfl

theorem Persisted.load {d : Device} {m : BootMetadata} (h : Persisted d m)
    (applicationVersion : UInt32) : load applicationVersion d = (.ok, m) := by
  rw [load_eq, h]

theorem Persisted.valid {d : Device} {m : BootMetadata} (h : Persisted d m) : m.Valid :=
  (BootMetadata.slotFormat_isValid m).1 (SlotFormat.current_isValid h)

/-- The addresses of the two metadata pages. -/
def Page (a : Nat) : Prop :=
  bootMetadataAAddress ≤ a ∧ a < bootMetadataBAddress + internalFlashPageSize

theorem copyFromFlash_congr {d d' : Device} {address : Nat}
    (h : ∀ i < recordSize, d'.internal (address + i) = d.internal (address + i)) :
    copyFromFlash d' address = copyFromFlash d address := by
  unfold copyFromFlash
  rw [window_eq_iff.2 h]

/-- Loading depends only on the two metadata pages. -/
theorem persisted_congr {d d' : Device} (h : ∀ a, Page a → d'.internal a = d.internal a) :
    persisted d' = persisted d := by
  have hA : copyFromFlash d' bootMetadataAAddress = copyFromFlash d bootMetadataAAddress := by
    apply copyFromFlash_congr
    intro i hi
    apply h
    unfold Page bootMetadataAAddress bootMetadataBAddress internalFlashPageSize recordSize at *
    omega
  have hB : copyFromFlash d' bootMetadataBAddress = copyFromFlash d bootMetadataBAddress := by
    apply copyFromFlash_congr
    intro i hi
    apply h
    unfold Page bootMetadataAAddress bootMetadataBAddress internalFlashPageSize recordSize at *
    omega
  unfold persisted
  rw [hA, hB]

/-- A device with one record, an application and the given external flash. -/
def holding (m : BootMetadata) (image external : Nat → UInt8) : Device where
  internal a :=
    if a < bootMetadataAAddress then image (a - applicationStartAddress)
    else if a < bootMetadataBAddress then m.encode.getD (a - bootMetadataAAddress) 0xFF
    else 0xFF
  external := external
  history := []

theorem copyFromFlash_holding (m : BootMetadata) (image external : Nat → UInt8) :
    copyFromFlash (holding m image external) bootMetadataAAddress = m := by
  have hAB : bootMetadataAAddress + recordSize ≤ bootMetadataBAddress := by decide
  have hlength := BootMetadata.encode_length m
  have hbytes : window (holding m image external).internal bootMetadataAAddress m.encode.length =
      m.encode := by
    refine window_eq_list_iff.2 fun i hi => ?_
    simp only [holding]
    rw [if_neg (by omega), if_pos (by omega), Nat.add_sub_cancel_left,
      List.getD_eq_getElem _ _ hi, List.getD_eq_getElem _ _ hi]
  unfold copyFromFlash
  rw [← hlength, hbytes, BootMetadata.decode_encode]

theorem persisted_holding {m : BootMetadata} (h : m.Valid) (image external : Nat → UInt8) :
    Persisted (holding m image external) m := by
  have herased : window (holding m image external).internal bootMetadataBAddress recordSize =
      List.replicate recordSize 0xFF := by
    have hAB : bootMetadataAAddress < bootMetadataBAddress := by decide
    rw [← List.length_replicate (n := recordSize) (a := (0xFF : UInt8))]
    refine window_eq_list_iff.2 fun i hi => ?_
    simp only [holding]
    rw [if_neg (by omega), if_neg (by omega), List.getD_eq_getElem _ _ hi, List.getElem_replicate]
  have hB : ¬ (copyFromFlash (holding m image external) bootMetadataBAddress).Valid := by
    intro hvalid
    have hmagic := hvalid.magic
    unfold copyFromFlash at hmagic
    rw [herased] at hmagic
    exact absurd hmagic (by decide)
  have hvalidA : BootMetadata.slotFormat.isValid m = true := (BootMetadata.slotFormat_isValid m).2 h
  have hvalidB : BootMetadata.slotFormat.isValid
      (copyFromFlash (holding m image external) bootMetadataBAddress) = false := by
    rw [← Bool.not_eq_true, BootMetadata.slotFormat_isValid]
    exact hB
  unfold Persisted persisted SlotFormat.current SlotFormat.selectNewestSlot
  rw [copyFromFlash_holding]
  simp [hvalidA, hvalidB]

theorem candidateFor_eq (d : Device) (requested : BootMetadata) :
    candidateFor d requested =
      BootMetadata.finalize { requested with
        generation := Memory.nextGeneration (BootMetadata.slotFormat.currentGeneration
          (copyFromFlash d bootMetadataAAddress) (copyFromFlash d bootMetadataBAddress)) } := by
  unfold candidateFor SlotFormat.currentGeneration BootMetadata.selectNewestSlot
    BootMetadata.nextGeneration
  dsimp only
  cases BootMetadata.slotFormat.selectNewestSlot (copyFromFlash d bootMetadataAAddress)
    (copyFromFlash d bootMetadataBAddress) <;> rfl

/-! ## Programming a slot -/

/-- The device after a slot was erased and the first `n` bytes of a record programmed. -/
def programmedSlot (d : Device) (address : Nat) (m : BootMetadata) (n : Nat) : Device :=
  d.withInternal address internalFlashPageSize fun a => (m.tornBytes n).getD (a - address) 0xFF

theorem programmedSlot_inside {d : Device} {address i : Nat} {m : BootMetadata} {n : Nat}
    (hi : i < internalFlashPageSize) :
    (programmedSlot d address m n).internal (address + i) = (m.tornBytes n).getD i 0xFF := by
  rw [programmedSlot, Device.withInternal_inside (by omega), Nat.add_sub_cancel_left]

theorem programmedSlot_outside {d : Device} {address a : Nat} {m : BootMetadata} {n : Nat}
    (ha : a < address ∨ address + internalFlashPageSize ≤ a) :
    (programmedSlot d address m n).internal a = d.internal a :=
  Device.withInternal_outside ha

theorem programmedSlot_zero (d : Device) (address : Nat) (m : BootMetadata) :
    d.withInternal address internalFlashPageSize (fun _ => 0xFF) = programmedSlot d address m 0 := by
  unfold programmedSlot
  congr 1
  funext a
  rw [BootMetadata.tornBytes_getD, if_neg (by omega)]

theorem copyFromFlash_programmedSlot (d : Device) (address : Nat) (m : BootMetadata) (n : Nat) :
    copyFromFlash (programmedSlot d address m n) address = m.torn n := by
  have hwindow : window (programmedSlot d address m n).internal address (m.tornBytes n).length =
      m.tornBytes n := by
    rw [window_eq_list_iff]
    intro i hi
    have hsize : i < internalFlashPageSize := by
      rw [BootMetadata.tornBytes_length] at hi
      unfold recordSize at hi
      unfold internalFlashPageSize
      omega
    rw [programmedSlot_inside hsize]
    simp [List.getD_eq_getElem?_getD, List.getElem?_eq_getElem hi]
  rw [BootMetadata.tornBytes_length] at hwindow
  rw [copyFromFlash, hwindow, BootMetadata.torn]

/-- Programming the next half-word of the record extends the programmed part. -/
theorem programmedSlot_step {d : Device} {address offset : Nat} {m : BootMetadata}
    (h : offset + 2 ≤ recordSize) :
    (programmedSlot d address m offset).withInternal (address + offset) 2
        (fun a => if a = address + offset then m.encode.getD offset 0
          else m.encode.getD (offset + 1) 0) =
      programmedSlot d address m (offset + 2) := by
  refine Device.ext (funext fun a => ?_) rfl rfl
  by_cases hpage : address ≤ a ∧ a < address + internalFlashPageSize
  · obtain ⟨i, rfl⟩ := Nat.exists_eq_add_of_le hpage.1
    rw [programmedSlot_inside (by omega), BootMetadata.tornBytes_getD]
    by_cases hhere : offset ≤ i ∧ i < offset + 2
    · have hnew : i < offset + 2 ∧ i < recordSize := by omega
      rw [Device.withInternal_inside (by omega), if_pos hnew]
      rcases (by omega : i = offset ∨ i = offset + 1) with rfl | rfl
      · rw [if_pos rfl]
      · rw [if_neg (by omega)]
    · rw [Device.withInternal_outside (by omega), programmedSlot_inside (by omega),
        BootMetadata.tornBytes_getD]
      congr 1
      simp only [eq_iff_iff]
      omega
  · have hrecord : recordSize ≤ internalFlashPageSize := by decide
    rw [programmedSlot_outside (by omega), Device.withInternal_outside (by omega),
      programmedSlot_outside (by omega)]

theorem programSlot_holds {μ : Mode} [μ.Sound] {up : Bool} {s : Machine} (hs : Env μ up s) {slot : Slot}
    (hslot : slot ≠ .none) (m : BootMetadata) :
    Holds μ up (programSlot slot m s)
      (fun status d => status = .ok ∧
        d = programmedSlot s.device (slotAddress slot) m recordSize)
      (fun d => d = s.device ∨ ∃ n ≤ recordSize,
        n % 2 = 0 ∧ d = programmedSlot s.device (slotAddress slot) m n) := by
  have haddress : slotAddress slot = bootMetadataAAddress ∨
      slotAddress slot = bootMetadataBAddress := by
    cases slot with
    | none => exact absurd rfl hslot
    | a => exact .inl rfl
    | b => exact .inr rfl
  unfold programSlot
  rw [if_neg (by rcases haddress with h | h <;> simp [h])]
  refine Holds.bind (erasePage_holds hs _) ?_ (fun d hd => .inl hd)
  rintro erased t ht ⟨rfl, hd⟩
  rw [programmedSlot_zero _ _ m] at hd
  -- at the guard the slot holds the first `offset` bytes of the record
  refine Holds.loopThen (I := fun offset d => offset % 2 = 0 ∧ offset ≤ recordSize ∧
      d = programmedSlot s.device (slotAddress slot) m offset)
    (fun offset => recordSize - offset) ?_ ?_ ?_ ht le_rfl ⟨rfl, Nat.zero_le _, hd⟩
  · intro offset d hguard _
    simpa using hguard
  · rintro offset u hu hguard ⟨heven, -, hdev⟩
    have hroom : offset + 2 ≤ recordSize := by
      unfold recordSize at *
      simp only [decide_eq_true_eq] at hguard
      omega
    have herased : ∀ j, offset ≤ j → j < recordSize →
        u.device.internal (slotAddress slot + j) = 0xFF := by
      intro j hj hsize
      have hpage : j < internalFlashPageSize := by
        unfold recordSize at hsize
        unfold internalFlashPageSize
        omega
      rw [hdev, programmedSlot_inside hpage, BootMetadata.tornBytes_getD, if_neg (by omega)]
    refine Holds.bind (programHalfWord_holds hu _ _ (herased offset le_rfl (by omega))
      (herased (offset + 1) (by omega) (by omega))) ?_ ?_
    · rintro complete v hv ⟨rfl, hdone⟩
      refine Holds.pure hv ⟨⟨by omega, hroom, ?_⟩, by omega⟩
      rw [hdone, hdev, programmedSlot_step hroom]
    · rintro d rfl
      exact .inr ⟨offset, by omega, heven, hdev⟩
  · rintro offset u hu hguard ⟨-, hle, hdev⟩
    have hend : offset = recordSize := by
      simp only [decide_eq_false_iff_not, not_lt] at hguard
      omega
    exact Holds.pure hu ⟨rfl, by rw [hdev, hend]⟩

/-! ## Commits -/

/-- The slot the next commit writes. -/
def targetSlot (d : Device) : Slot :=
  BootMetadata.selectWriteSlot (copyFromFlash d bootMetadataAAddress)
    (copyFromFlash d bootMetadataBAddress)

theorem targetSlot_ne_none (d : Device) : targetSlot d ≠ .none := by
  unfold targetSlot BootMetadata.selectWriteSlot SlotFormat.selectWriteSlot
  split <;> simp

theorem candidateFor_valid {d : Device} {requested : BootMetadata} :
    (candidateFor d requested).Valid ↔ requested.Acceptable := by
  rw [candidateFor_eq, BootMetadata.finalize_valid (nextGeneration_ne_zero _)]
  exact ⟨fun h => ⟨h.stateCode, h.received, h.expected, h.copied, h.fields⟩,
    fun h => ⟨h.stateCode, h.received, h.expected, h.copied, h.fields⟩⟩

theorem candidateFor_crc (d : Device) (requested : BootMetadata) :
    (candidateFor d requested).crc32 = (candidateFor d requested).calculateCrc := by
  rw [candidateFor_eq]
  exact BootMetadata.finalize_crc _

theorem candidateFor_stores (d : Device) (requested : BootMetadata) :
    (candidateFor d requested).Stores requested :=
  ⟨⟨rfl, rfl, rfl, rfl, rfl, rfl, rfl⟩, rfl, rfl⟩

/-- While a slot is being written the two slots are those of the store's write operation. -/
theorem persisted_programmedSlot (d : Device) (m : BootMetadata) (n : Nat) :
    persisted (programmedSlot d (slotAddress (targetSlot d)) m n) =
      BootMetadata.slotFormat.current
        (BootMetadata.slotFormat.writeSlot (copyFromFlash d bootMetadataAAddress)
          (copyFromFlash d bootMetadataBAddress) (m.torn n)).1
        (BootMetadata.slotFormat.writeSlot (copyFromFlash d bootMetadataAAddress)
          (copyFromFlash d bootMetadataBAddress) (m.torn n)).2 := by
  have hother : ∀ here there : Nat, here + internalFlashPageSize ≤ there ∨
      there + internalFlashPageSize ≤ here →
      copyFromFlash (programmedSlot d here m n) there = copyFromFlash d there := by
    intro here there hdisjoint
    apply copyFromFlash_congr
    intro i hi
    apply programmedSlot_outside
    unfold internalFlashPageSize recordSize at *
    omega
  have hAB : bootMetadataAAddress + internalFlashPageSize ≤ bootMetadataBAddress := by decide
  unfold persisted SlotFormat.writeSlot targetSlot BootMetadata.selectWriteSlot
  cases hslot : BootMetadata.slotFormat.selectWriteSlot (copyFromFlash d bootMetadataAAddress)
      (copyFromFlash d bootMetadataBAddress) with
  | none => exact absurd hslot (targetSlot_ne_none d)
  | a =>
      simp only [slotAddress]
      rw [copyFromFlash_programmedSlot, hother _ _ (.inl hAB)]
  | b =>
      simp only [slotAddress]
      rw [copyFromFlash_programmedSlot, hother _ _ (.inr hAB)]

/-- At every moment of a commit the old record or a valid beginning of the new one is loaded. -/
theorem persisted_torn (d : Device) (requested : BootMetadata) (n : Nat) :
    persisted (programmedSlot d (slotAddress (targetSlot d)) (candidateFor d requested) n) =
        persisted d ∨
      ((candidateFor d requested).torn n).Valid ∧
        persisted (programmedSlot d (slotAddress (targetSlot d)) (candidateFor d requested) n) =
          some ((candidateFor d requested).torn n) := by
  rw [persisted_programmedSlot]
  cases hvalid : BootMetadata.slotFormat.isValid ((candidateFor d requested).torn n) with
  | false => exact .inl (SlotFormat.current_writeSlot_of_invalid hvalid)
  | true =>
      have hv := (BootMetadata.slotFormat_isValid _).1 hvalid
      refine .inr ⟨hv, SlotFormat.current_writeSlot_of_next hvalid ?_⟩
      have hgen := BootMetadata.torn_valid_generation hv
      rw [candidateFor_eq] at hgen ⊢
      exact hgen

theorem persisted_complete {d : Device} {requested : BootMetadata} (h : requested.Acceptable) :
    persisted (programmedSlot d (slotAddress (targetSlot d)) (candidateFor d requested)
      recordSize) = some (candidateFor d requested) := by
  have htorn : (candidateFor d requested).torn recordSize = candidateFor d requested :=
    BootMetadata.torn_of_complete le_rfl
  have hv : BootMetadata.slotFormat.isValid ((candidateFor d requested).torn recordSize) = true := by
    rw [htorn, BootMetadata.slotFormat_isValid]
    exact candidateFor_valid.2 h
  rw [persisted_programmedSlot, SlotFormat.current_writeSlot_of_next hv ?_, htorn]
  rw [htorn, candidateFor_eq]
  rfl

theorem persisted_record (d : Device) (e : Event) : persisted (d.record e) = persisted d := rfl

/-- The device after a completed commit. -/
def committedDevice (writer : Writer) (d : Device) (requested : BootMetadata) : Device :=
  (programmedSlot d (slotAddress (targetSlot d)) (candidateFor d requested) recordSize).record
    (.commit writer (persisted d) (candidateFor d requested))

theorem commitSteps_holds {μ : Mode} [μ.Sound] {up : Bool} {s : Machine} (hs : Env μ up s)
    {requested : BootMetadata} (h : requested.Acceptable) :
    Holds μ up (commitSteps requested s)
      (fun r d => r = .ok (candidateFor s.device requested) ∧
        d = committedDevice μ.writer s.device requested)
      (fun d => d = s.device ∨ ∃ n ≤ recordSize, n % 2 = 0 ∧
        d = programmedSlot s.device (slotAddress (targetSlot s.device))
          (candidateFor s.device requested) n) := by
  have hvalid : (candidateFor s.device requested).Valid := candidateFor_valid.2 h
  refine Holds.read_bind ?_
  rw [if_neg (not_not.2 (BootMetadata.validate_eq_valid.2 hvalid))]
  refine Holds.bind (programSlot_holds hs (targetSlot_ne_none s.device) _) ?_ (fun d hd => hd)
  rintro status t ht ⟨rfl, hd⟩
  simp only [ne_eq, not_true_eq_false, if_false]
  refine Holds.read_bind ?_
  have hread : copyFromFlash t.device (slotAddress (targetSlot s.device)) =
      candidateFor s.device requested := by
    rw [hd, copyFromFlash_programmedSlot, BootMetadata.torn_of_complete le_rfl]
  have hread' : copyFromFlash t.device (slotAddress (BootMetadata.selectWriteSlot
      (copyFromFlash s.device bootMetadataAAddress)
      (copyFromFlash s.device bootMetadataBAddress))) = candidateFor s.device requested := hread
  rw [hread', if_neg (by simp [BootMetadata.validate_eq_valid.2 hvalid, recordsEqual])]
  refine Holds.read_bind (Holds.update_bind (Holds.pure (ht.withDevice _) ⟨rfl, ?_⟩))
  rw [ht.writer, hd]
  rfl

theorem commitSteps_refuses {μ : Mode} {up : Bool} {s : Machine} (hs : Env μ up s)
    {requested : BootMetadata} (h : ¬ requested.Acceptable) :
    Holds μ up (commitSteps requested s)
      (fun r d => r = .error .invalidArgument ∧
        d = s.device.record (.refused μ.writer (persisted s.device) requested))
      (fun _ => False) := by
  have hinvalid : (candidateFor s.device requested).validate ≠ .valid := by
    rw [ne_eq, BootMetadata.validate_eq_valid, candidateFor_valid]
    exact h
  refine Holds.read_bind ?_
  rw [if_pos hinvalid]
  refine Holds.read_bind (Holds.update_bind (Holds.pure (hs.withDevice _) ⟨rfl, ?_⟩))
  rw [hs.writer]

/-- The frame of a commit: only the two metadata pages change. -/
abbrev MetadataFrame : Device → Device → Prop :=
  Frame (fun a => ¬ Page a) (fun _ => True)

theorem slotAddress_page {d : Device} {a : Nat} (ha : ¬ Page a) :
    a < slotAddress (targetSlot d) ∨ slotAddress (targetSlot d) + internalFlashPageSize ≤ a := by
  have hbounds : bootMetadataAAddress ≤ slotAddress (targetSlot d) ∧
      slotAddress (targetSlot d) ≤ bootMetadataBAddress := by
    cases hslot : targetSlot d with
    | none => exact absurd hslot (targetSlot_ne_none d)
    | a => decide
    | b => decide
  unfold Page at ha
  omega

theorem programmedSlot_frame (d : Device) (m : BootMetadata) (n : Nat) :
    MetadataFrame d (programmedSlot d (slotAddress (targetSlot d)) m n) :=
  ⟨fun _ ha => programmedSlot_outside (slotAddress_page ha), fun _ _ => rfl⟩

theorem programmedSlot_external (d : Device) (address : Nat) (m : BootMetadata) (n a : Nat) :
    (programmedSlot d address m n).external a = d.external a := rfl

theorem programmedSlot_history (d : Device) (address : Nat) (m : BootMetadata) (n : Nat) :
    (programmedSlot d address m n).history = d.history := rfl

theorem committedDevice_persisted {writer : Writer} {d : Device} {requested : BootMetadata}
    (h : requested.Acceptable) :
    Persisted (committedDevice writer d requested) (candidateFor d requested) :=
  persisted_complete h

theorem committedDevice_frame (writer : Writer) (d : Device) (requested : BootMetadata) :
    MetadataFrame d (committedDevice writer d requested) := by
  have hframe := programmedSlot_frame d (candidateFor d requested) recordSize
  exact ⟨hframe.internal, hframe.external⟩

theorem committedDevice_history (writer : Writer) (d : Device) (requested : BootMetadata) :
    (committedDevice writer d requested).history =
      .commit writer (persisted d) (candidateFor d requested) :: d.history := rfl

attribute [irreducible] candidateFor persisted programmedSlot

/--
What a commit of an acceptable record does. Completed, it persists the request.
Cut, it leaves the old record, or, when commits are not atomic, a record that
stands where the request stands.
-/
theorem commit_holds {μ : Mode} [μ.Sound] {up : Bool} {s : Machine} (hs : Env μ up s)
    {requested : BootMetadata} (h : requested.Acceptable) :
    Holds μ up (commit requested s)
      (fun r d => ∃ c, r = .ok c ∧ c.Stores requested ∧ Persisted d c ∧
        MetadataFrame s.device d ∧
        d.history = .commit μ.writer (persisted s.device) c :: s.device.history)
      (fun d => MetadataFrame s.device d ∧ d.history = s.device.history ∧
        (persisted d = persisted s.device ∨
          μ.atomicCommit = false ∧ ∃ c, Persisted d c ∧ c.Agrees requested)) := by
  have hsteps := commitSteps_holds hs h
  have hdone : ∀ d, d = committedDevice μ.writer s.device requested →
      (candidateFor s.device requested).Stores requested ∧
      Persisted d (candidateFor s.device requested) ∧ MetadataFrame s.device d ∧
      d.history = .commit μ.writer (persisted s.device) (candidateFor s.device requested) ::
        s.device.history := by
    rintro d rfl
    exact ⟨candidateFor_stores _ _, committedDevice_persisted h, committedDevice_frame _ _ _,
      committedDevice_history _ _ _⟩
  refine Holds.read_bind ?_
  rw [hs.atomicCommit]
  cases hatomic : μ.atomicCommit with
  | true =>
      simp only [if_true]
      exact Holds.atomic (hsteps.mono (fun r d hr => ⟨_, hr.1, hdone d hr.2⟩) (fun _ hd => hd))
        ⟨refl_of MetadataFrame _, rfl, .inl rfl⟩
  | false =>
      simp only [Bool.false_eq_true, if_false]
      refine hsteps.mono (fun r d hr => ⟨_, hr.1, hdone d hr.2⟩) ?_
      rintro d (rfl | ⟨n, -, -, rfl⟩)
      · exact ⟨refl_of MetadataFrame _, rfl, .inl rfl⟩
      · refine ⟨programmedSlot_frame _ _ _, programmedSlot_history _ _ _ _, ?_⟩
        rcases persisted_torn s.device requested n with hold | ⟨hv, hnew⟩
        · exact .inl hold
        · exact .inr ⟨trivial, _, hnew, (BootMetadata.torn_valid_agrees hv).trans
            (candidateFor_stores _ _).toAgrees⟩

/-! ## Sequences of commits and cuts -/

/-- A commit at half-word granularity, cut at one of its flash operations or not at all. -/
def runCommit (requested : BootMetadata) (cut : Option Nat) (d : Device) :
    Result Machine (Except MetadataStorageStatus BootMetadata) :=
  commit requested
    { device := d, spi := ⟨false, .notInitialized⟩, script := powerCut cut, atomicCommit := false,
      writer := .bootloader }

/-- The device after a sequence of commits, each of them possibly cut. -/
def runCommits (steps : List (BootMetadata × Option Nat)) (d : Device) : Device :=
  steps.foldl (fun d step => (runCommit step.1 step.2 d).state.device) d

/-- Only half-word programming and power cuts, commits not atomic. -/
def commitMode : Mode where
  cuts := true
  tornPrograms := false
  externalFaults := false
  atomicCommit := false
  writer := .bootloader

instance : commitMode.Sound := ⟨rfl⟩

theorem runCommit_cases (requested : BootMetadata) (cut : Option Nat) (d : Device) :
    (∃ s, runCommit requested cut d = .done (.error .invalidArgument) s ∧
      s.device = d.record (.refused .bootloader (persisted d) requested)) ∨
    (∃ s, runCommit requested cut d = .done (.ok (candidateFor d requested)) s ∧
      requested.Acceptable ∧ s.device = committedDevice .bootloader d requested) ∨
    (∃ s, runCommit requested cut d = .cut s ∧
      (s.device = d ∨ ∃ n, s.device =
        programmedSlot d (slotAddress (targetSlot d)) (candidateFor d requested) (2 * n))) := by
  have henv : Env commitMode false
      { device := d, spi := ⟨false, .notInitialized⟩, script := powerCut cut, atomicCommit := false,
        writer := .bootloader } :=
    ⟨Mode.admits_powerCut rfl cut, by simp, rfl, rfl⟩
  have hrun : runCommit requested cut d = commitSteps requested
      { device := d, spi := ⟨false, .notInitialized⟩, script := powerCut cut, atomicCommit := false,
        writer := .bootloader } := rfl
  by_cases h : requested.Acceptable
  · have hholds := commitSteps_holds henv h
    rw [← hrun] at hholds
    cases hr : runCommit requested cut d with
    | done r s =>
        rw [hr] at hholds
        obtain ⟨-, rfl, hd⟩ := hholds
        exact .inr (.inl ⟨s, rfl, h, hd⟩)
    | cut s =>
        rw [hr] at hholds
        refine .inr (.inr ⟨s, rfl, ?_⟩)
        rcases hholds.2 with hd | ⟨n, -, heven, hd⟩
        · exact .inl hd
        · exact .inr ⟨n / 2, by rw [hd, Nat.mul_div_cancel' (Nat.dvd_of_mod_eq_zero heven)]⟩
    | spin s =>
        rw [hr] at hholds
        exact hholds.elim
  · have hholds := commitSteps_refuses henv h
    rw [← hrun] at hholds
    cases hr : runCommit requested cut d with
    | done r s =>
        rw [hr] at hholds
        obtain ⟨-, rfl, hd⟩ := hholds
        exact .inl ⟨s, rfl, hd⟩
    | cut s =>
        rw [hr] at hholds
        exact hholds.2.elim
    | spin s =>
        rw [hr] at hholds
        exact hholds.elim

/-- The slot that is not the target keeps its page. -/
theorem selected_page_unchanged {d : Device} {slot : Slot}
    (hslot : BootMetadata.selectNewestSlot (copyFromFlash d bootMetadataAAddress)
      (copyFromFlash d bootMetadataBAddress) = slot) (hne : slot ≠ .none) (m : BootMetadata)
    (n : Nat) {i : Nat} (hi : i < internalFlashPageSize) :
    (programmedSlot d (slotAddress (targetSlot d)) m n).internal (slotAddress slot + i) =
      d.internal (slotAddress slot + i) := by
  apply programmedSlot_outside
  have hAB : bootMetadataAAddress + internalFlashPageSize ≤ bootMetadataBAddress := by decide
  unfold targetSlot BootMetadata.selectWriteSlot SlotFormat.selectWriteSlot
  unfold BootMetadata.selectNewestSlot at hslot
  rw [hslot]
  cases slot with
  | none => exact absurd rfl hne
  | a =>
      simp only [if_true, slotAddress]
      omega
  | b =>
      simp only [reduceCtorEq, if_false, slotAddress]
      omega

theorem load_congr {applicationVersion : UInt32} {d d' : Device}
    (h : persisted d' = persisted d) : load applicationVersion d' = load applicationVersion d := by
  rw [load_eq, load_eq, h]

/-- A new record is numbered after the record that is loaded, default or not. -/
theorem candidateFor_generation (applicationVersion : UInt32) (d : Device)
    (requested : BootMetadata) :
    (candidateFor d requested).generation =
      BootMetadata.nextGeneration (load applicationVersion d).2.generation := by
  rw [candidateFor_eq]
  unfold load SlotFormat.currentGeneration BootMetadata.selectNewestSlot
  dsimp only
  cases BootMetadata.slotFormat.selectNewestSlot (copyFromFlash d bootMetadataAAddress)
    (copyFromFlash d bootMetadataBAddress) <;> rfl

/--
A commit is crash-atomic after any sequence of commits and cuts. The slot that
was selected before is untouched. The next load returns the old record, or the
new record, or, when the CRC of the programmed beginning of the 48-byte body is
the value of erased flash, that beginning. A commit that reports success is
loaded exactly.
-/
theorem commit_crash_atomic (applicationVersion : UInt32) (start : Device)
    (earlier : List (BootMetadata × Option Nat)) (requested : BootMetadata) (cut : Option Nat) :
    let d := runCommits earlier start
    let r := runCommit requested cut d
    let new := candidateFor d requested
    let loaded := (load applicationVersion r.state.device).2
    (∀ slot ≠ Slot.none, BootMetadata.selectNewestSlot (copyFromFlash d bootMetadataAAddress)
        (copyFromFlash d bootMetadataBAddress) = slot →
      ∀ i < internalFlashPageSize,
        r.state.device.internal (slotAddress slot + i) = d.internal (slotAddress slot + i)) ∧
    new.Stores requested ∧
    new.generation = BootMetadata.nextGeneration (load applicationVersion d).2.generation ∧
    (loaded = (load applicationVersion d).2 ∨ loaded = new ∨
      ∃ n, loaded = new.torn (2 * n) ∧
        Crc32.calculate ((new.tornBytes (2 * n)).take BootMetadata.crcOffset) = 0xFFFFFFFF) ∧
    (∀ committed, r.value? = some (.ok committed) →
      committed = new ∧ load applicationVersion r.state.device = (.ok, committed)) := by
  intro d r new loaded
  refine ⟨?_, candidateFor_stores d requested, candidateFor_generation applicationVersion d _, ?_⟩
  · intro slot hne hslot i hi
    rcases runCommit_cases requested cut d with ⟨s, hr, hd⟩ | ⟨s, hr, -, hd⟩ | ⟨s, hr, hd | ⟨n, hd⟩⟩
    all_goals simp only [r, hr, Result.state_done, Result.state_cut, hd]
    · rfl
    · exact selected_page_unchanged hslot hne _ _ hi
    · exact selected_page_unchanged hslot hne _ _ hi
  · rcases runCommit_cases requested cut d with
      ⟨s, hr, hd⟩ | ⟨s, hr, hacc, hd⟩ | ⟨s, hr, hd | ⟨n, hd⟩⟩
    · simp only [loaded, r, hr, Result.state_done, hd, load_congr (persisted_record d _)]
      simp [Result.value?]
    · have hload : load applicationVersion s.device = (.ok, new) := by
        rw [hd]
        exact (committedDevice_persisted hacc).load applicationVersion
      simp only [loaded, r, hr, Result.state_done, hload]
      simp [Result.value?, new]
    · simp only [loaded, r, hr, Result.state_cut, hd]
      simp [Result.value?]
    · simp only [loaded, r, hr, Result.state_cut, hd]
      refine ⟨?_, by simp [Result.value?]⟩
      rcases persisted_torn d requested (2 * n) with hold | ⟨hv, hnew⟩
      · exact .inl (congrArg Prod.snd (load_congr hold))
      · have hload := congrArg Prod.snd (Persisted.load hnew applicationVersion)
        rcases BootMetadata.torn_valid_cases (candidateFor_crc d requested) hv with hcomplete | herased
        · exact .inr (.inl (hload.trans hcomplete))
        · refine .inr (.inr ⟨n, hload, ?_⟩)
          rw [← BootMetadata.calculateCrc_torn]
          exact herased

end MetadataStorage

end SecureDeltaOta
