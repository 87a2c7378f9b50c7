import SecureDeltaOta.Shared.Image
import SecureDeltaOta.Storage.ExternalFlash

/-!
# The backup partition

`backup_image_storage.c`: a header in a sector of its own and the 38 KiB image
behind it. The header is erased before a backup begins and written last.
-/

namespace SecureDeltaOta

open Memory Crash

namespace ExternalFlashStorage

/-- Write a record in two steps, its CRC last. -/
def writeCrcLast (partition : ExternalPartition) (offset : Nat) (body crc : List UInt8) :
    Prog Machine Bool := do
  let written ← write partition offset body
  if !written then pure false else write partition (offset + body.length) crc

end ExternalFlashStorage

inductive BackupImageStorageStatus where
  | ok
  | invalidArgument
  | notFound
  | readFailed
  | eraseFailed
  | writeFailed
  | verifyFailed
  deriving DecidableEq, Repr

namespace BackupImageStorage

open BackupImage (layout recordSize crcOffset dataOffset)

def recordsEqual (left right : BackupImageRecord) : Bool :=
  layout.encode left = layout.encode right

def loadHeader : Prog Machine (Except BackupImageStorageStatus BackupImageRecord) := do
  match ← ExternalFlashStorage.read .backup 0 recordSize with
  | none => pure (.error .readFailed)
  | some bytes =>
      let record := layout.decode bytes
      if BackupImage.validate record ≠ .valid then pure (.error .notFound) else pure (.ok record)

def invalidateHeader : Prog Machine BackupImageStorageStatus := do
  let erased ← ExternalFlashStorage.eraseRange .backup 0 extFlashSectorSize
  if !erased then pure .eraseFailed else pure .ok

def commitHeader (requested : BackupImageRecord) :
    Prog Machine (Except BackupImageStorageStatus BackupImageRecord) := do
  let candidate := BackupImage.finalize requested
  if BackupImage.validate candidate ≠ .valid then
    pure (.error .invalidArgument)
  else do
    let invalidated ← invalidateHeader
    if invalidated ≠ .ok then
      pure (.error .eraseFailed)
    else do
      let bytes := layout.encode candidate
      let written ← ExternalFlashStorage.writeCrcLast .backup 0 (bytes.take crcOffset)
        (bytes.drop crcOffset)
      if !written then
        pure (.error .writeFailed)
      else do
        match ← ExternalFlashStorage.read .backup 0 recordSize with
        | none => pure (.error .verifyFailed)
        | some stored =>
            let verify := layout.decode stored
            if BackupImage.validate verify ≠ .valid ∨ recordsEqual candidate verify = false then
              pure (.error .verifyFailed)
            else
              pure (.ok verify)

def imageRangeValid (offset length : Nat) : Bool :=
  !(offset > applicationMaxSize) && length ≤ applicationMaxSize - offset

def read (offset length : Nat) : Prog Machine (Option (List UInt8)) :=
  if !imageRangeValid offset length then pure none
  else ExternalFlashStorage.read .backup (dataOffset + offset) length

def write (offset : Nat) (data : List UInt8) : Prog Machine Bool :=
  if !imageRangeValid offset data.length then pure false
  else ExternalFlashStorage.write .backup (dataOffset + offset) data

def verify (offset : Nat) (data : List UInt8) : Prog Machine Bool :=
  if !imageRangeValid offset data.length then pure false
  else ExternalFlashStorage.verify .backup (dataOffset + offset) data

def eraseSector (imageOffset : Nat) : Prog Machine Bool :=
  if imageOffset ≥ applicationMaxSize ∨ imageOffset % extFlashSectorSize ≠ 0 then pure false
  else ExternalFlashStorage.eraseRange .backup (dataOffset + imageOffset) extFlashSectorSize

end BackupImageStorage

/-! ## Contents of the partition -/

namespace Device

/-- The header in the backup partition, valid or not. -/
def backupHeader (d : Device) : BackupImageRecord :=
  BackupImage.layout.decode (d.slice .backup 0 BackupImage.recordSize)

/-- The byte of the backed up image at an offset. -/
def backupImage (d : Device) (offset : Nat) : UInt8 :=
  d.part .backup (BackupImage.dataOffset + offset)

theorem slice_eq_window (d : Device) (p : ExternalPartition) (offset length : Nat) :
    d.slice p offset length = window (d.part p) offset length := by
  rw [slice, window_eq_iff]
  exact fun i _ => congrArg d.external (Nat.add_assoc _ _ _)

theorem slice_backup (d : Device) (offset length : Nat) :
    d.slice .backup (BackupImage.dataOffset + offset) length =
      window d.backupImage offset length := by
  rw [slice_eq_window, window_eq_iff]
  exact fun i _ => congrArg (d.part .backup) (Nat.add_assoc _ _ _)

theorem internal_window (d : Device) (offset length : Nat) :
    window d.internal (applicationStartAddress + offset) length = window d.app offset length := by
  rw [window_eq_iff]
  exact fun i _ => congrArg d.internal (Nat.add_assoc _ _ _)

/-- The backup header is a function of the bytes of its record. -/
theorem backupHeader_congr {d d' : Device}
    (h : ∀ i < BackupImage.recordSize, d'.part .backup i = d.part .backup i) :
    d'.backupHeader = d.backupHeader := by
  unfold backupHeader slice
  rw [window_eq_iff.2]
  simpa [part] using h

end Device

/-! ## What the operations do -/

section Specs

variable {μ : Mode} {up : Bool} {s : Machine} {p : ExternalPartition}

theorem writeCrcLast_holds (hs : Env μ up s) (hup : μ.Usable up) {offset : Nat}
    {body crc : List UInt8} (hrange : offset + (body.length + crc.length) ≤ p.size)
    (herased : ∀ i < body.length + crc.length, s.device.part p (offset + i) = 0xFF) :
    Holds μ up (ExternalFlashStorage.writeCrcLast p offset body crc s)
      (fun ok d => ok = true ∧ d.slice p offset (body.length + crc.length) = body ++ crc ∨
        ok = false ∧ μ.Faulty)
      (fun d => Torn s.device.external (p.address + offset) (body ++ crc) d.external) := by
  have hbody : Programmable s.device (p.address + offset) body := by
    refine programmable_of_erased fun i hi => ?_
    rw [Nat.add_assoc]
    exact herased i (by omega)
  refine Holds.bind ((storageWrite_holds hs hup (by omega)).and_keeps
    (storageWrite_keeps fun _ => allows_outsideFrame le_rfl le_rfl)) ?_
    (fun _ hd => hd.1.append_left fun i _ => hd.2.external _ (by omega))
  rintro ok t ht ⟨⟨rfl, hwritten⟩ | ⟨rfl, hbad⟩, hframe⟩
  · have hcrc : Programmable t.device (p.address + (offset + body.length)) crc := by
      refine programmable_of_erased fun i hi => ?_
      rw [hframe.external _ (by omega)]
      have hbyte := herased (body.length + i) (by omega)
      rwa [Device.part, show p.address + (offset + (body.length + i)) =
        p.address + (offset + body.length) + i by omega] at hbyte
    simp only [Bool.not_true, Bool.false_eq_true, if_false]
    refine ((storageWrite_holds ht hup (by omega)).and_keeps
      (storageWrite_keeps fun _ => allows_outsideFrame le_rfl le_rfl)).mono ?_ ?_
    swap
    · rintro d ⟨htorn, hframe'⟩
      rw [← Nat.add_assoc] at htorn
      refine .append_right (fun i hi => ?_) (htorn.congr fun i _ => hframe.external _ (by omega))
      rw [hframe'.external _ (by omega)]
      exact window_eq_list_iff.1 hwritten i hi
    rintro ok d ⟨⟨rfl, hlast⟩ | ⟨rfl, hbad⟩, hframe'⟩
    · left
      refine ⟨rfl, ?_⟩
      -- the second write leaves the first part as the first write left it
      have hfirst : d.slice p offset body.length = body := by
        refine Eq.trans ?_ hwritten
        rw [Device.slice, Device.slice, window_eq_iff]
        exact fun i hi => hframe'.external _ (by omega)
      rw [Device.slice, window_add, ← Device.slice, hfirst, Nat.add_assoc]
      exact congrArg (body ++ ·) hlast
    · exact .inr ⟨rfl, hbad.resolve_right (not_not.2 hcrc)⟩
  · exact Holds.pure ht (.inr ⟨rfl, hbad.resolve_right (not_not.2 hbody)⟩)

theorem loadHeader_holds (hs : Env μ up s) (hup : μ.Usable up) :
    Holds μ up (BackupImageStorage.loadHeader s)
      (fun r d => d = s.device ∧
        (r = .ok s.device.backupHeader ∧ BackupImage.validate s.device.backupHeader = .valid ∨
          (∃ e, r = .error e) ∧
            (μ.Faulty ∨ BackupImage.validate s.device.backupHeader ≠ .valid)))
      (fun d => d = s.device) := by
  refine Holds.bind (storageRead_holds hs hup .backup 0 BackupImage.recordSize) ?_ (fun _ hd => hd)
  rintro r t ht ⟨hd, ⟨rfl, -⟩ | ⟨rfl, hbad⟩⟩
  · dsimp only
    split
    · next hinvalid => exact Holds.pure ht ⟨hd, .inr ⟨⟨_, rfl⟩, .inr hinvalid⟩⟩
    · next hvalid => exact Holds.pure ht ⟨hd, .inl ⟨rfl, not_not.1 hvalid⟩⟩
  · exact Holds.pure ht ⟨hd, .inr ⟨⟨_, rfl⟩, .inl (hbad.resolve_right (by decide))⟩⟩

theorem invalidateHeader_holds (hs : Env μ up s) (hup : μ.Usable up) :
    Holds μ up (BackupImageStorage.invalidateHeader s)
      (fun r d => r = .ok ∧ (∀ i < extFlashSectorSize, d.part .backup i = 0xFF) ∨
        r = .eraseFailed ∧ μ.Faulty)
      (fun _ => True) := by
  refine Holds.bind (eraseRange_holds hs hup (p := .backup) (by decide) (by decide) (by decide)
    (by decide)) ?_ (fun _ _ => trivial)
  rintro ok t ht (⟨rfl, herased⟩ | ⟨rfl, hfaulty⟩)
  · exact Holds.pure ht (.inl ⟨rfl, fun i hi => by simpa using herased i hi⟩)
  · exact Holds.pure ht (.inr ⟨rfl, hfaulty⟩)

/-- A committed header is in place; otherwise the flash failed or the request is no header. -/
theorem commitHeader_holds (hs : Env μ up s) (hup : μ.Usable up) {requested : BackupImageRecord}
    (hvalid : BackupImage.validate (BackupImage.finalize requested) = .valid) :
    Holds μ up (BackupImageStorage.commitHeader requested s)
      (fun r d => r = .ok d.backupHeader ∧ d.backupHeader = BackupImage.finalize requested ∨
        (∃ e, r = .error e) ∧ μ.Faulty)
      (fun _ => True) := by
  set bytes := BackupImage.layout.encode (BackupImage.finalize requested) with hbytes
  have hlength : bytes.length = BackupImage.recordSize := BackupImage.layout.encode_length _
  have hsplit : (bytes.take BackupImage.crcOffset).length +
      (bytes.drop BackupImage.crcOffset).length = BackupImage.recordSize := by
    simp only [List.length_take, List.length_drop, hlength]
    decide
  unfold BackupImageStorage.commitHeader
  dsimp only
  rw [if_neg (not_not.2 hvalid)]
  refine Holds.bind (invalidateHeader_holds hs hup) ?_ (fun _ _ => trivial)
  rintro r t ht (⟨rfl, herased⟩ | ⟨rfl, hfaulty⟩)
  · rw [if_neg (not_not.2 rfl)]
    refine Holds.bind (writeCrcLast_holds (p := .backup) ht hup (by rw [hsplit]; decide) ?_) ?_
      (fun _ _ => trivial)
    · intro i hi
      rw [hsplit] at hi
      rw [Nat.zero_add]
      exact herased i (hi.trans (by decide))
    rw [hsplit, List.take_append_drop]
    rintro ok u hu (⟨rfl, hwritten⟩ | ⟨rfl, hfaulty⟩)
    · refine Holds.bind (storageRead_holds hu hup .backup 0 BackupImage.recordSize) ?_
        (fun _ _ => trivial)
      rintro r v hv ⟨hd, ⟨rfl, -⟩ | ⟨rfl, hbad⟩⟩
      · have hheader : u.device.backupHeader = BackupImage.finalize requested := by
          rw [Device.backupHeader, hwritten]
          exact BackupImage.layout.decode_encode _
        rw [Device.backupHeader] at hheader
        dsimp only
        rw [hheader, if_neg (by simp [hvalid, BackupImageStorage.recordsEqual])]
        refine Holds.pure hv (.inl ?_)
        rw [hd, Device.backupHeader, hheader]
        exact ⟨rfl, rfl⟩
      · exact Holds.pure hv (.inr ⟨⟨_, rfl⟩, hbad.resolve_right (by decide)⟩)
    · exact Holds.pure hu (.inr ⟨⟨_, rfl⟩, hfaulty⟩)
  · rw [if_pos (by decide)]
    exact Holds.pure ht (.inr ⟨⟨_, rfl⟩, hfaulty⟩)

theorem commitHeader_returns (hs : Env μ up s) (hup : μ.Usable up) (requested : BackupImageRecord) :
    Holds μ up (BackupImageStorage.commitHeader requested s) (fun _ _ => True) (fun _ => True) := by
  by_cases hvalid : BackupImage.validate (BackupImage.finalize requested) = .valid
  · exact (commitHeader_holds hs hup hvalid).mono (fun _ _ _ => trivial) (fun _ hd => hd)
  · unfold BackupImageStorage.commitHeader
    dsimp only
    rw [if_pos hvalid]
    exact Holds.pure hs trivial

theorem imageRangeValid_iff {offset length : Nat} :
    BackupImageStorage.imageRangeValid offset length = true ↔
      offset + length ≤ applicationMaxSize := by
  simp only [BackupImageStorage.imageRangeValid, Bool.and_eq_true, Bool.not_eq_true',
    decide_eq_false_iff_not, decide_eq_true_eq]
  omega

theorem backupRange_le {offset length : Nat} (h : offset + length ≤ applicationMaxSize) :
    BackupImage.dataOffset + offset + length ≤ ExternalPartition.backup.size := by
  have hsize : ExternalPartition.backup.size = 0x20000 := rfl
  unfold applicationMaxSize at h
  unfold BackupImage.dataOffset
  omega

theorem backupRead_holds (hs : Env μ up s) (hup : μ.Usable up) {offset length : Nat}
    (hrange : offset + length ≤ applicationMaxSize) :
    Holds μ up (BackupImageStorage.read offset length s)
      (fun r d => d = s.device ∧
        (r = some (window s.device.backupImage offset length) ∨ r = none ∧ μ.Faulty))
      (fun d => d = s.device) := by
  have hin := backupRange_le hrange
  unfold BackupImageStorage.read
  rw [if_neg (by simp [imageRangeValid_iff.2 hrange]), ← Device.slice_backup]
  refine (storageRead_holds hs hup .backup _ length).mono ?_ (fun _ hd => hd)
  rintro r d ⟨hd, ⟨rfl, -⟩ | ⟨rfl, hbad⟩⟩
  · exact ⟨hd, .inl rfl⟩
  · exact ⟨hd, .inr ⟨rfl, hbad.resolve_right (by omega)⟩⟩

theorem backupWrite_holds (hs : Env μ up s) (hup : μ.Usable up) {offset : Nat}
    {data : List UInt8} (hrange : offset + data.length ≤ applicationMaxSize)
    (herased : ∀ i < data.length, s.device.backupImage (offset + i) = 0xFF) :
    Holds μ up (BackupImageStorage.write offset data s)
      (fun ok d => ok = true ∧ window d.backupImage offset data.length = data ∨
        ok = false ∧ μ.Faulty)
      (fun _ => True) := by
  have hprogrammable : Programmable s.device
      (ExternalPartition.backup.address + (BackupImage.dataOffset + offset)) data := by
    refine programmable_of_erased fun i hi => ?_
    have hbyte := herased i hi
    rwa [Device.backupImage, Device.part, ← Nat.add_assoc, ← Nat.add_assoc,
      Nat.add_assoc ExternalPartition.backup.address] at hbyte
  unfold BackupImageStorage.write
  rw [if_neg (by simp [imageRangeValid_iff.2 hrange])]
  refine (storageWrite_holds hs hup (backupRange_le hrange)).mono ?_ (fun _ _ => trivial)
  rintro ok d (⟨rfl, hwritten⟩ | ⟨rfl, hbad⟩)
  · exact .inl ⟨rfl, by rw [← Device.slice_backup, hwritten]⟩
  · exact .inr ⟨rfl, hbad.resolve_right (not_not.2 hprogrammable)⟩

theorem backupVerify_holds (hs : Env μ up s) (hup : μ.Usable up) {offset : Nat}
    {data : List UInt8} (hrange : offset + data.length ≤ applicationMaxSize) :
    Holds μ up (BackupImageStorage.verify offset data s)
      (fun ok d => d = s.device ∧
        (ok = true ∧ window s.device.backupImage offset data.length = data ∨
          ok = false ∧ (μ.Faulty ∨ window s.device.backupImage offset data.length ≠ data)))
      (fun d => d = s.device) := by
  unfold BackupImageStorage.verify
  rw [if_neg (by simp [imageRangeValid_iff.2 hrange]), ← Device.slice_backup]
  exact storageVerify_holds hs hup (backupRange_le hrange)

theorem backupEraseSector_holds (hs : Env μ up s) (hup : μ.Usable up) {offset : Nat}
    (hrange : offset < applicationMaxSize) (haligned : offset % extFlashSectorSize = 0) :
    Holds μ up (BackupImageStorage.eraseSector offset s)
      (fun ok d => ok = true ∧ (∀ i < extFlashSectorSize, d.backupImage (offset + i) = 0xFF) ∨
        ok = false ∧ μ.Faulty)
      (fun _ => True) := by
  have hroom : BackupImage.dataOffset + offset + extFlashSectorSize ≤
      ExternalPartition.backup.size := by
    have hsize : ExternalPartition.backup.size = 0x20000 := rfl
    unfold applicationMaxSize at hrange
    unfold extFlashSectorSize at haligned ⊢
    unfold BackupImage.dataOffset
    omega
  have hsector : (BackupImage.dataOffset + offset) % extFlashSectorSize = 0 := by
    unfold extFlashSectorSize at *
    unfold BackupImage.dataOffset
    omega
  unfold BackupImageStorage.eraseSector
  rw [if_neg (by omega)]
  refine (eraseRange_holds hs hup (by decide) hroom hsector (by decide)).mono ?_
    (fun _ _ => trivial)
  rintro ok d (⟨rfl, herased⟩ | hbad)
  · refine .inl ⟨rfl, fun i hi => ?_⟩
    rw [Device.backupImage, ← Nat.add_assoc]
    exact herased i hi
  · exact .inr hbad

end Specs

section Frames

variable {R : Device → Device → Prop} [IsPreorder Device R]

theorem writeCrcLast_keeps {p : ExternalPartition} {offset : Nat} {body crc : List UInt8}
    (h : Allows R (p.address + offset) (p.address + offset + (body.length + crc.length))) :
    Keeps R (ExternalFlashStorage.writeCrcLast p offset body crc) :=
  Keeps.bind (storageWrite_keeps fun _ => h.mono le_rfl (by omega)) fun _ =>
    Keeps.ite (Keeps.pure _) (storageWrite_keeps fun _ => h.mono (by omega) (by omega))

/-- The header operations stay in the first sector of the partition. -/
theorem invalidateHeader_keeps
    (h : Allows R ExternalPartition.backup.address
      (ExternalPartition.backup.address + BackupImage.dataOffset)) :
    Keeps R BackupImageStorage.invalidateHeader :=
  Keeps.bind (eraseRange_keeps fun _ => h) fun _ => Keeps.ite (Keeps.pure _) (Keeps.pure _)

theorem commitHeader_keeps
    (h : Allows R ExternalPartition.backup.address
      (ExternalPartition.backup.address + BackupImage.dataOffset)) (requested : BackupImageRecord) :
    Keeps R (BackupImageStorage.commitHeader requested) := by
  have hlength := BackupImage.layout.encode_length (BackupImage.finalize requested)
  unfold BackupImageStorage.commitHeader
  refine Keeps.ite (Keeps.pure _) (Keeps.bind (invalidateHeader_keeps h) fun _ =>
    Keeps.ite (Keeps.pure _) (Keeps.bind (writeCrcLast_keeps (h.mono le_rfl ?_)) fun _ =>
      Keeps.ite (Keeps.pure _) (Keeps.bind (storageRead_keeps _ _ _) ?_)))
  · rw [List.length_take, List.length_drop, hlength]
    decide
  · intro r
    cases r with
    | none => exact Keeps.pure _
    | some stored => exact Keeps.ite (Keeps.pure _) (Keeps.pure _)

theorem backupVerify_keeps (offset : Nat) (data : List UInt8) :
    Keeps R (BackupImageStorage.verify offset data) :=
  Keeps.ite (Keeps.pure _) (storageVerify_keeps _ _ _)

theorem backupWrite_keeps {offset : Nat} {data : List UInt8}
    (h : Allows R (ExternalPartition.backup.address + (BackupImage.dataOffset + offset))
      (ExternalPartition.backup.address + (BackupImage.dataOffset + offset) + data.length)) :
    Keeps R (BackupImageStorage.write offset data) :=
  Keeps.ite (Keeps.pure _) (storageWrite_keeps fun _ => h)

theorem backupEraseSector_keeps {offset : Nat}
    (h : Allows R (ExternalPartition.backup.address + (BackupImage.dataOffset + offset))
      (ExternalPartition.backup.address + (BackupImage.dataOffset + offset) +
        extFlashSectorSize)) :
    Keeps R (BackupImageStorage.eraseSector offset) :=
  Keeps.ite (Keeps.pure _) (eraseRange_keeps fun _ => h)

end Frames

end SecureDeltaOta
