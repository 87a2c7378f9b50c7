import SecureDeltaOta.Memory.TwoSlot
import SecureDeltaOta.Storage.BackupImageStorage

/-!
# Records in the external metadata sectors

`download_checkpoint.c` and `update_handoff.c` define two kinds of record that
share the two external metadata sectors at different offsets.
`download_checkpoint_storage.c` and `update_handoff_storage.c` keep each kind as
a two-slot store, and each carries a valid record of the other kind over the
erase of the sector it writes. The two storages are one definition, `RecordStore`.
-/

namespace SecureDeltaOta

open Memory Crash

/-! ## Download checkpoints -/

inductive DownloadCheckpointState where
  | idle
  | receiving
  | artifactReady
  deriving DecidableEq, Repr

def DownloadCheckpointState.code : DownloadCheckpointState → UInt32
  | .idle => 0
  | .receiving => 1
  | .artifactReady => 2

structure DownloadCheckpointRecord where
  magic : UInt32
  generation : UInt32
  formatVersion : UInt32
  state : UInt32
  updateId : UInt32
  targetVersion : UInt32
  imageSize : UInt32
  imageCrc32 : UInt32
  nextOffset : UInt32
  crc32 : UInt32
  deriving DecidableEq, Repr

inductive DownloadCheckpointValidationStatus where
  | valid
  | invalidMagic
  | invalidVersion
  | invalidGeneration
  | invalidState
  | invalidFields
  | invalidCrc
  deriving DecidableEq, Repr

namespace DownloadCheckpoint

def expectedMagic : UInt32 := 0x37504344

def expectedFormatVersion : UInt32 := 1

def layout : WordRecord DownloadCheckpointRecord where
  count := 10
  toWords r := [r.magic, r.generation, r.formatVersion, r.state, r.updateId, r.targetVersion,
    r.imageSize, r.imageCrc32, r.nextOffset, r.crc32]
  ofWords w := ⟨w 0, w 1, w 2, w 3, w 4, w 5, w 6, w 7, w 8, w 9⟩
  toWords_length _ := rfl
  ofWords_toWords _ := rfl
  toWords_ofWords _ := rfl
  ofWords_congr f g h := by simp [h]

def crcOffset : Nat := 36

def initIdle : DownloadCheckpointRecord where
  magic := expectedMagic
  generation := 0
  formatVersion := expectedFormatVersion
  state := DownloadCheckpointState.idle.code
  updateId := 0
  targetVersion := 0
  imageSize := 0
  imageCrc32 := 0
  nextOffset := 0
  crc32 := 0

def initSession (state : DownloadCheckpointState)
    (updateId targetVersion imageSize imageCrc32 nextOffset : UInt32) :
    DownloadCheckpointRecord where
  magic := expectedMagic
  generation := 0
  formatVersion := expectedFormatVersion
  state := state.code
  updateId := updateId
  targetVersion := targetVersion
  imageSize := imageSize
  imageCrc32 := imageCrc32
  nextOffset := nextOffset
  crc32 := 0

def calculateCrc (r : DownloadCheckpointRecord) : UInt32 :=
  Crc32.calculate ((layout.encode r).take crcOffset)

def finalize (r : DownloadCheckpointRecord) : DownloadCheckpointRecord :=
  let r := { r with magic := expectedMagic, formatVersion := expectedFormatVersion }
  { r with crc32 := calculateCrc r }

def sessionFieldsValid (r : DownloadCheckpointRecord) : Bool :=
  if r.updateId = 0 ∨ r.imageSize = 0 ∨ r.imageSize.toNat > extIncomingSize ∨
      r.nextOffset > r.imageSize then false
  else if r.state = DownloadCheckpointState.receiving.code then
    r.nextOffset.toNat % extFlashSectorSize = 0
  else if r.state = DownloadCheckpointState.artifactReady.code then
    r.nextOffset = r.imageSize
  else false

def validate (r : DownloadCheckpointRecord) : DownloadCheckpointValidationStatus :=
  if r.magic ≠ expectedMagic then .invalidMagic
  else if r.formatVersion ≠ expectedFormatVersion then .invalidVersion
  else if r.generation = 0 then .invalidGeneration
  else if r.state > DownloadCheckpointState.artifactReady.code then .invalidState
  else if r.state = DownloadCheckpointState.idle.code ∧
      (r.updateId ≠ 0 ∨ r.targetVersion ≠ 0 ∨ r.imageSize ≠ 0 ∨ r.imageCrc32 ≠ 0 ∨
        r.nextOffset ≠ 0) then .invalidFields
  else if r.state ≠ DownloadCheckpointState.idle.code ∧ sessionFieldsValid r = false then
    .invalidFields
  else if r.crc32 ≠ calculateCrc r then .invalidCrc
  else .valid

def slotFormat : SlotFormat DownloadCheckpointRecord where
  isValid r := validate r = .valid
  generation := DownloadCheckpointRecord.generation

end DownloadCheckpoint

/-! ## Install handoffs -/

structure UpdateHandoffRecord where
  magic : UInt32
  generation : UInt32
  formatVersion : UInt32
  updateId : UInt32
  targetVersion : UInt32
  imageSize : UInt32
  imageCrc32 : UInt32
  targetLoadAddress : UInt32
  crc32 : UInt32
  deriving DecidableEq, Repr

inductive UpdateHandoffValidationStatus where
  | valid
  | invalidMagic
  | invalidVersion
  | invalidGeneration
  | invalidUpdateId
  | invalidTargetVersion
  | invalidImageSize
  | invalidLoadAddress
  | invalidCrc
  deriving DecidableEq, Repr

namespace UpdateHandoff

def expectedMagic : UInt32 := 0x3641544F

def expectedFormatVersion : UInt32 := 1

def layout : WordRecord UpdateHandoffRecord where
  count := 9
  toWords r := [r.magic, r.generation, r.formatVersion, r.updateId, r.targetVersion,
    r.imageSize, r.imageCrc32, r.targetLoadAddress, r.crc32]
  ofWords w := ⟨w 0, w 1, w 2, w 3, w 4, w 5, w 6, w 7, w 8⟩
  toWords_length _ := rfl
  ofWords_toWords _ := rfl
  toWords_ofWords _ := rfl
  ofWords_congr f g h := by simp [h]

def crcOffset : Nat := 32

def calculateCrc (r : UpdateHandoffRecord) : UInt32 :=
  Crc32.calculate ((layout.encode r).take crcOffset)

def finalize (r : UpdateHandoffRecord) : UpdateHandoffRecord :=
  let r := { r with magic := expectedMagic, formatVersion := expectedFormatVersion }
  { r with crc32 := calculateCrc r }

def validate (r : UpdateHandoffRecord) : UpdateHandoffValidationStatus :=
  if r.magic ≠ expectedMagic then .invalidMagic
  else if r.formatVersion ≠ expectedFormatVersion then .invalidVersion
  else if r.generation = 0 then .invalidGeneration
  else if r.updateId = 0 then .invalidUpdateId
  else if r.targetVersion = 0 then .invalidTargetVersion
  else if r.imageSize < 8 ∨ r.imageSize.toNat > applicationMaxSize then .invalidImageSize
  else if r.targetLoadAddress.toNat ≠ applicationStartAddress then .invalidLoadAddress
  else if r.crc32 ≠ calculateCrc r then .invalidCrc
  else .valid

def slotFormat : SlotFormat UpdateHandoffRecord where
  isValid r := validate r = .valid
  generation := UpdateHandoffRecord.generation

end UpdateHandoff

/-! ## The storage -/

inductive RecordStorageStatus where
  | ok
  | invalidArgument
  | notFound
  | readFailed
  | eraseFailed
  | writeFailed
  | verifyFailed
  deriving DecidableEq, Repr

/-- A kind of record in the external metadata sectors, and the kind it shares them with. -/
structure RecordStore (ρ : Type) where
  layout : WordRecord ρ
  slots : SlotFormat ρ
  /-- The record with the given generation, finalised. -/
  numbered : UInt32 → ρ → ρ
  offset : Nat
  crcOffset : Nat
  neighbourOffset : Nat
  neighbourSize : Nat
  neighbourIsValid : List UInt8 → Bool
  generation_numbered : ∀ g r, slots.generation (numbered g r) = g
  crcOffset_le : crcOffset ≤ 4 * layout.count
  record_fits : offset + 4 * layout.count ≤ extFlashSectorSize
  neighbour_fits : neighbourOffset + neighbourSize ≤ extFlashSectorSize
  disjoint : neighbourOffset + neighbourSize ≤ offset ∨ offset + 4 * layout.count ≤ neighbourOffset

namespace RecordStore

variable {ρ : Type} (store : RecordStore ρ)

def recordSize : Nat := 4 * store.layout.count

def partitionForSlot (slot : Slot) : ExternalPartition :=
  if slot = .b then .metadataB else .metadataA

def recordsEqual (left right : ρ) : Bool :=
  store.layout.encode left = store.layout.encode right

def readSlot (slot : Slot) : Prog Machine (Option ρ) := do
  match ← ExternalFlashStorage.read (partitionForSlot slot) store.offset store.recordSize with
  | none => pure none
  | some bytes => pure (some (store.layout.decode bytes))

def load : Prog Machine (Except RecordStorageStatus ρ) := do
  match ← store.readSlot .a with
  | none => pure (.error .readFailed)
  | some a => do
      match ← store.readSlot .b with
      | none => pure (.error .readFailed)
      | some b =>
          match store.slots.selectNewestSlot a b with
          | .none => pure (.error .notFound)
          | .a => pure (.ok a)
          | .b => pure (.ok b)

/-- Write back the record of the other kind, if there was a valid one. -/
def writePreserved (partition : ExternalPartition) : Option (List UInt8) → Prog Machine Bool
  | none => pure true
  | some neighbour => ExternalFlashStorage.write partition store.neighbourOffset neighbour

/-- Erase the target sector and write the candidate, its CRC last, and a preserved neighbour. -/
def rewrite (partition : ExternalPartition) (candidate : ρ) (preserved : Option (List UInt8)) :
    Prog Machine (Except RecordStorageStatus ρ) := do
  let bytes := store.layout.encode candidate
  let erased ← ExternalFlashStorage.erasePartition partition
  if !erased then
    pure (.error .eraseFailed)
  else do
    let written ← ExternalFlashStorage.writeCrcLast partition store.offset
      (bytes.take store.crcOffset) (bytes.drop store.crcOffset)
    if !written then
      pure (.error .writeFailed)
    else do
      let kept ← store.writePreserved partition preserved
      if !kept then
        pure (.error .writeFailed)
      else do
        match ← ExternalFlashStorage.read partition store.offset store.recordSize with
        | none => pure (.error .verifyFailed)
        | some stored =>
            let verify := store.layout.decode stored
            if store.slots.isValid verify = false ∨ store.recordsEqual candidate verify = false then
              pure (.error .verifyFailed)
            else
              pure (.ok verify)

def commit (requested : ρ) : Prog Machine (Except RecordStorageStatus ρ) := do
  match ← store.readSlot .a with
  | none => pure (.error .readFailed)
  | some a => do
      match ← store.readSlot .b with
      | none => pure (.error .readFailed)
      | some b => do
          let target := store.slots.selectWriteSlot a b
          let candidate := store.numbered
            (nextGeneration (store.slots.currentGeneration a b)) requested
          if store.slots.isValid candidate = false then
            pure (.error .invalidArgument)
          else do
            let partition := partitionForSlot target
            let neighbour ←
              ExternalFlashStorage.read partition store.neighbourOffset store.neighbourSize
            store.rewrite partition candidate (neighbour.filter store.neighbourIsValid)

end RecordStore

/-- The records of `download_checkpoint_storage.c`. -/
def DownloadCheckpointStorage.store : RecordStore DownloadCheckpointRecord where
  layout := DownloadCheckpoint.layout
  slots := DownloadCheckpoint.slotFormat
  numbered g r := DownloadCheckpoint.finalize { r with generation := g }
  offset := extMetadataDownloadOffset
  crcOffset := DownloadCheckpoint.crcOffset
  neighbourOffset := extMetadataHandoffOffset
  neighbourSize := 4 * UpdateHandoff.layout.count
  neighbourIsValid bytes := UpdateHandoff.validate (UpdateHandoff.layout.decode bytes) = .valid
  generation_numbered _ _ := rfl
  crcOffset_le := by decide
  record_fits := by decide
  neighbour_fits := by decide
  disjoint := by decide

/-- The records of `update_handoff_storage.c`. -/
def UpdateHandoffStorage.store : RecordStore UpdateHandoffRecord where
  layout := UpdateHandoff.layout
  slots := UpdateHandoff.slotFormat
  numbered g r := UpdateHandoff.finalize { r with generation := g }
  offset := extMetadataHandoffOffset
  crcOffset := UpdateHandoff.crcOffset
  neighbourOffset := extMetadataDownloadOffset
  neighbourSize := 4 * DownloadCheckpoint.layout.count
  neighbourIsValid bytes :=
    DownloadCheckpoint.validate (DownloadCheckpoint.layout.decode bytes) = .valid
  generation_numbered _ _ := rfl
  crcOffset_le := by decide
  record_fits := by decide
  neighbour_fits := by decide
  disjoint := by decide

namespace DownloadCheckpointStorage

def load : Prog Machine (Except RecordStorageStatus DownloadCheckpointRecord) := store.load

def commit (requested : DownloadCheckpointRecord) :
    Prog Machine (Except RecordStorageStatus DownloadCheckpointRecord) :=
  store.commit requested

def clear : Prog Machine RecordStorageStatus := do
  match ← commit DownloadCheckpoint.initIdle with
  | .error status => pure status
  | .ok _ => pure .ok

end DownloadCheckpointStorage

/-! ## What the storage does -/

namespace RecordStore

section Specs

variable {ρ : Type} {store : RecordStore ρ} {μ : Mode} {up : Bool} {s : Machine}

/-- The contents of a slot. -/
def slotOf (store : RecordStore ρ) (d : Device) (slot : Slot) : ρ :=
  store.layout.decode (d.slice (partitionForSlot slot) store.offset store.recordSize)

/-- The record a load selects. -/
def current (store : RecordStore ρ) (d : Device) : Option ρ :=
  store.slots.current (store.slotOf d .a) (store.slotOf d .b)

/-- The record a commit writes. -/
def candidateFor (store : RecordStore ρ) (d : Device) (requested : ρ) : ρ :=
  store.numbered (nextGeneration (store.slots.currentGeneration (store.slotOf d .a)
    (store.slotOf d .b))) requested

theorem partitionForSlot_size (slot : Slot) :
    (partitionForSlot slot).size = extFlashSectorSize := by
  unfold partitionForSlot
  split <;> rfl

theorem slotOf_congr {d d' : Device} {slot : Slot}
    (h : ∀ i < extFlashSectorSize,
      d'.part (partitionForSlot slot) i = d.part (partitionForSlot slot) i) :
    store.slotOf d' slot = store.slotOf d slot := by
  have hfits := store.record_fits
  unfold slotOf
  rw [Device.slice_eq_window, Device.slice_eq_window, window_eq_iff.2]
  intro i hi
  unfold recordSize at hi
  exact h _ (by omega)

theorem readSlot_holds (hs : Env μ up s) (hup : μ.Usable up) (slot : Slot) :
    Holds μ up (store.readSlot slot s)
      (fun r d => d = s.device ∧ (r = some (store.slotOf s.device slot) ∨ r = none ∧ μ.Faulty))
      (fun d => d = s.device) := by
  have hfits := store.record_fits
  have hsize := partitionForSlot_size slot
  refine Holds.bind (storageRead_holds hs hup _ _ _) ?_ (fun _ hd => hd)
  rintro r t ht ⟨hd, ⟨rfl, -⟩ | ⟨rfl, hbad⟩⟩
  · exact Holds.pure ht ⟨hd, .inl rfl⟩
  · refine Holds.pure ht ⟨hd, .inr ⟨rfl, hbad.resolve_right ?_⟩⟩
    unfold recordSize
    omega

theorem load_holds (hs : Env μ up s) (hup : μ.Usable up) :
    Holds μ up (store.load s)
      (fun r d => d = s.device ∧
        (r = .error .readFailed ∧ μ.Faulty ∨
          r = match store.current s.device with
            | some c => .ok c
            | none => .error .notFound))
      (fun d => d = s.device) := by
  refine Holds.bind (readSlot_holds hs hup .a) ?_ (fun _ hd => hd)
  rintro r t ht ⟨hd, rfl | ⟨rfl, hfaulty⟩⟩
  · refine Holds.bind (readSlot_holds ht hup .b) ?_ (fun _ hd' => hd'.trans hd)
    rintro r u hu ⟨hd', rfl | ⟨rfl, hfaulty⟩⟩
    · rw [hd] at hd' ⊢
      unfold current SlotFormat.current
      dsimp only
      cases store.slots.selectNewestSlot (store.slotOf s.device .a) (store.slotOf s.device .b) with
      | none => exact Holds.pure hu ⟨hd', .inr rfl⟩
      | a => exact Holds.pure hu ⟨hd', .inr rfl⟩
      | b => exact Holds.pure hu ⟨hd', .inr rfl⟩
    · exact Holds.pure hu ⟨hd'.trans hd, .inl ⟨rfl, hfaulty⟩⟩
  · exact Holds.pure ht ⟨hd, .inl ⟨rfl, hfaulty⟩⟩

/-- A sector that was erased holds a prefix of some bytes at an offset, and nothing behind it. -/
def Partly (d : Device) (p : ExternalPartition) (offset size : Nat) (bytes : List UInt8) : Prop :=
  ∃ n ≤ bytes.length, (∀ i < n, d.part p (offset + i) = bytes.getD i 0) ∧
    ∀ i, n ≤ i → i < size → d.part p (offset + i) = 0xFF

theorem partly_of_torn {d d' : Device} {p : ExternalPartition} {offset size : Nat}
    {bytes : List UInt8} (herased : ∀ i < size, d.part p (offset + i) = 0xFF)
    (hsize : bytes.length = size)
    (h : Torn d.external (p.address + offset) bytes d'.external) :
    Partly d' p offset size bytes := by
  obtain ⟨n, hn, hwritten, hkept⟩ := h
  refine ⟨n, hn, fun i hi => ?_, fun i hlow hi => ?_⟩
  · rw [Device.part, ← Nat.add_assoc]
    exact hwritten i hi
  · rw [Device.part, ← Nat.add_assoc, hkept i hlow (by omega), Nat.add_assoc]
    exact herased i hi

theorem partly_of_erased {d : Device} {p : ExternalPartition} {offset size : Nat}
    (bytes : List UInt8) (herased : ∀ i < size, d.part p (offset + i) = 0xFF) :
    Partly d p offset size bytes :=
  ⟨0, Nat.zero_le _, fun _ h => absurd h (Nat.not_lt_zero _), fun i _ hi => herased i hi⟩

theorem Partly.congr {d d' : Device} {p : ExternalPartition} {offset size : Nat}
    {bytes : List UInt8} (h : Partly d p offset size bytes) (hsize : bytes.length ≤ size)
    (hsame : ∀ i < size, d'.part p (offset + i) = d.part p (offset + i)) :
    Partly d' p offset size bytes := by
  obtain ⟨n, hn, hwritten, hkept⟩ := h
  exact ⟨n, hn, fun i hi => (hsame i (by omega)).trans (hwritten i hi),
    fun i hlow hi => (hsame i hi).trans (hkept i hlow hi)⟩

/-- A sector in the course of being rewritten. -/
structure Rewriting (store : RecordStore ρ) (p : ExternalPartition) (candidate : ρ)
    (preserved : Option (List UInt8)) (d : Device) : Prop where
  record : Partly d p store.offset store.recordSize (store.layout.encode candidate)
  neighbour : Partly d p store.neighbourOffset store.neighbourSize (preserved.getD [])

theorem writePreserved_holds (hs : Env μ up s) (hup : μ.Usable up) {p : ExternalPartition}
    (hsize : p.size = extFlashSectorSize)
    (herased : ∀ i < store.neighbourSize, s.device.part p (store.neighbourOffset + i) = 0xFF)
    {preserved : Option (List UInt8)}
    (hpreserved : ∀ bytes, preserved = some bytes → bytes.length = store.neighbourSize) :
    Holds μ up (store.writePreserved p preserved s)
      (fun ok d => (ok = true ∧ Partly d p store.neighbourOffset store.neighbourSize
          (preserved.getD []) ∨ ok = false ∧ μ.Faulty) ∧
        ∀ i < store.recordSize, d.part p (store.offset + i) = s.device.part p (store.offset + i))
      (fun d => Partly d p store.neighbourOffset store.neighbourSize (preserved.getD []) ∧
        ∀ i < store.recordSize,
          d.part p (store.offset + i) = s.device.part p (store.offset + i)) := by
  have hneighbour := store.neighbour_fits
  have hdisjoint := store.disjoint
  cases preserved with
  | none => exact Holds.pure hs ⟨.inl ⟨rfl, partly_of_erased _ herased⟩, fun _ _ => rfl⟩
  | some neighbour =>
      have hlen := hpreserved neighbour rfl
      have hprogrammable : Programmable s.device (p.address + store.neighbourOffset) neighbour := by
        refine programmable_of_erased fun i hi => ?_
        rw [Nat.add_assoc]
        exact herased i (by omega)
      have hkept : ∀ d, OutsideFrame (p.address + store.neighbourOffset)
          (p.address + store.neighbourOffset + neighbour.length) s.device d →
          ∀ i < store.recordSize,
            d.part p (store.offset + i) = s.device.part p (store.offset + i) := by
        unfold recordSize
        exact fun d hframe i hi => hframe.external _ (by omega)
      refine ((storageWrite_holds hs hup (by omega)).and_keeps
        (storageWrite_keeps fun _ => allows_outsideFrame le_rfl le_rfl)).mono ?_ ?_
      · rintro ok d ⟨⟨rfl, hwritten⟩ | ⟨rfl, hbad⟩, hframe⟩
        · exact ⟨.inl ⟨rfl, partly_of_torn herased hlen (.of_window hwritten)⟩, hkept d hframe⟩
        · exact ⟨.inr ⟨rfl, hbad.resolve_right (not_not.2 hprogrammable)⟩, hkept d hframe⟩
      · rintro d ⟨htorn, hframe⟩
        exact ⟨partly_of_torn herased hlen htorn, hkept d hframe⟩

theorem rewrite_holds (hs : Env μ up s) (hup : μ.Usable up) {p : ExternalPartition}
    (hsize : p.size = extFlashSectorSize) {candidate : ρ}
    (hvalid : store.slots.isValid candidate = true) {preserved : Option (List UInt8)}
    (hpreserved : ∀ bytes, preserved = some bytes → bytes.length = store.neighbourSize) :
    Holds μ up (store.rewrite p candidate preserved s)
      (fun r d => r = .ok candidate ∧
          store.layout.decode (d.slice p store.offset store.recordSize) = candidate ∧
          store.Rewriting p candidate preserved d ∨
        (∃ e, r = .error e) ∧ μ.Faulty)
      (fun d => d = s.device ∨ store.Rewriting p candidate preserved d) := by
  have hfits := store.record_fits
  have hneighbour := store.neighbour_fits
  have hdisjoint := store.disjoint
  have hlength := store.layout.encode_length candidate
  have hsplit : ((store.layout.encode candidate).take store.crcOffset).length +
      ((store.layout.encode candidate).drop store.crcOffset).length = 4 * store.layout.count := by
    rw [← List.length_append, List.take_append_drop, hlength]
  refine Holds.bind (erasePartition_holds hs hup p) ?_ ?_
  swap
  · -- one sector is erased or it is not
    rintro d ⟨n, hn, hmod, rfl⟩
    obtain rfl : n = 0 := by
      unfold extFlashSectorSize at hsize hmod
      omega
    exact .inl (Device.withExternal_zero _ _ _)
  rintro ok t ht (⟨rfl, herased⟩ | ⟨rfl, hfaulty⟩)
  swap
  · exact Holds.pure ht (.inr ⟨⟨_, rfl⟩, hfaulty⟩)
  have hrecord : ∀ i < store.recordSize, t.device.part p (store.offset + i) = 0xFF := by
    unfold recordSize
    exact fun i hi => herased _ (by omega)
  have hother : ∀ d, OutsideFrame (p.address + store.offset)
      (p.address + store.offset + 4 * store.layout.count) t.device d →
      ∀ i < store.neighbourSize, d.part p (store.neighbourOffset + i) = 0xFF := by
    intro d hframe i hi
    rw [Device.part, hframe.external _ (by omega)]
    exact herased _ (by omega)
  simp only [Bool.not_true, Bool.false_eq_true, if_false]
  refine Holds.bind ((writeCrcLast_holds ht hup (by omega)
    fun i hi => herased _ (by omega)).and_keeps (R := OutsideFrame (p.address + store.offset)
      (p.address + store.offset + 4 * store.layout.count))
      (writeCrcLast_keeps (allows_outsideFrame le_rfl (by omega)))) ?_ ?_
  swap
  · rintro d ⟨htorn, hframe⟩
    rw [List.take_append_drop] at htorn
    exact .inr ⟨partly_of_torn hrecord hlength htorn, partly_of_erased _ (hother d hframe)⟩
  rw [hsplit, List.take_append_drop]
  rintro ok u hu ⟨⟨rfl, hwritten⟩ | ⟨rfl, hfaulty⟩, hframe⟩
  swap
  · exact Holds.pure hu (.inr ⟨⟨_, rfl⟩, hfaulty⟩)
  have hpartly : Partly u.device p store.offset store.recordSize
      (store.layout.encode candidate) := by
    refine partly_of_torn hrecord hlength (.of_window ?_)
    rw [hlength]
    exact hwritten
  refine Holds.bind (writePreserved_holds hu hup hsize (hother _ hframe) hpreserved) ?_
    (fun d hd => .inr ⟨hpartly.congr hlength.le hd.2, hd.1⟩)
  rintro ok v hv ⟨⟨rfl, hneighbour'⟩ | ⟨rfl, hfaulty⟩, hsame⟩
  swap
  · exact Holds.pure hv (.inr ⟨⟨_, rfl⟩, hfaulty⟩)
  have hrewriting : store.Rewriting p candidate preserved v.device :=
    ⟨hpartly.congr hlength.le hsame, hneighbour'⟩
  refine Holds.bind (storageRead_holds hv hup p store.offset store.recordSize) ?_
    (by rintro d rfl; exact .inr hrewriting)
  rintro r w hw ⟨hd, ⟨rfl, -⟩ | ⟨rfl, hbad⟩⟩
  swap
  · refine Holds.pure hw (.inr ⟨⟨_, rfl⟩, hbad.resolve_right ?_⟩)
    unfold recordSize
    omega
  have hdecoded : store.layout.decode (v.device.slice p store.offset store.recordSize) =
      candidate := by
    have hbytes : v.device.slice p store.offset store.recordSize =
        store.layout.encode candidate := by
      refine Eq.trans ?_ hwritten
      unfold recordSize at hsame ⊢
      rw [Device.slice_eq_window, Device.slice_eq_window, window_eq_iff]
      exact hsame
    rw [hbytes]
    exact store.layout.decode_encode _
  dsimp only
  rw [hdecoded, if_neg (by simp [hvalid, recordsEqual])]
  exact Holds.pure hw (.inl ⟨rfl, by rw [hd, hdecoded], hd ▸ hrewriting⟩)

end Specs

section Frames

variable {ρ : Type} {store : RecordStore ρ} {R : Device → Device → Prop} [IsPreorder Device R]

theorem readSlot_keeps (slot : Slot) : Keeps R (store.readSlot slot) := by
  refine Keeps.bind (storageRead_keeps _ _ _) ?_
  intro r
  cases r with
  | none => exact Keeps.pure _
  | some bytes => exact Keeps.pure _

theorem load_keeps : Keeps R store.load := by
  refine Keeps.bind (readSlot_keeps .a) fun a => ?_
  cases a with
  | none => exact Keeps.pure _
  | some a =>
      refine Keeps.bind (readSlot_keeps .b) fun b => ?_
      cases b with
      | none => exact Keeps.pure _
      | some b =>
          dsimp only
          split <;> exact Keeps.pure _

/-- Rewriting a sector stays in it. -/
theorem rewrite_keeps {p : ExternalPartition} (hsize : p.size = extFlashSectorSize)
    (h : Allows R p.address (p.address + p.size)) (candidate : ρ)
    (preserved : Option (List UInt8)) : Keeps R (store.rewrite p candidate preserved) := by
  have hfits := store.record_fits
  have hsplit : ((store.layout.encode candidate).take store.crcOffset).length +
      ((store.layout.encode candidate).drop store.crcOffset).length = 4 * store.layout.count := by
    rw [← List.length_append, List.take_append_drop, store.layout.encode_length]
  refine Keeps.bind (erasePartition_keeps h) fun _ => Keeps.ite (Keeps.pure _)
    (Keeps.bind (writeCrcLast_keeps (h.mono (by omega) (by omega))) fun _ =>
      Keeps.ite (Keeps.pure _) (Keeps.bind ?_ fun _ => Keeps.ite (Keeps.pure _)
        (Keeps.bind (storageRead_keeps _ _ _) ?_)))
  · cases preserved with
    | none => exact Keeps.pure _
    | some neighbour =>
        exact storageWrite_keeps fun hin => h.mono (by omega) (by omega)
  · intro r
    cases r with
    | none => exact Keeps.pure _
    | some stored => exact Keeps.ite (Keeps.pure _) (Keeps.pure _)

/-- A commit stays in the two metadata sectors. -/
theorem commit_keeps
    (h : ∀ slot, Allows R (partitionForSlot slot).address
      ((partitionForSlot slot).address + (partitionForSlot slot).size)) (requested : ρ) :
    Keeps R (store.commit requested) := by
  refine Keeps.bind (readSlot_keeps .a) fun a => ?_
  cases a with
  | none => exact Keeps.pure _
  | some a =>
      refine Keeps.bind (readSlot_keeps .b) fun b => ?_
      cases b with
      | none => exact Keeps.pure _
      | some b =>
          exact Keeps.ite (Keeps.pure _) (Keeps.bind (storageRead_keeps _ _ _) fun _ =>
            rewrite_keeps (partitionForSlot_size _) (h _) _ _)

end Frames

end RecordStore

end SecureDeltaOta
