import SecureDeltaOta.Storage.RecordStore

/-!
# Commits of the external records

A commit rewrites the sector of the slot that is not current. Wherever it is cut,
the sector holds a prefix of the new record, and no proper prefix is a valid
record, so a commit is atomic for its own kind of record. The record of the other
kind in that sector is erased with it and written back last: it survives a cut only
if it was not the selected one.
-/

namespace SecureDeltaOta

open Memory Crash

namespace RecordStore

/-! ## The rewritten slot -/

section Slots

variable {ρ : Type} {store : RecordStore ρ} {d d' : Device}

/-- The slot a commit writes. -/
def target (store : RecordStore ρ) (d : Device) : Slot :=
  store.slots.selectWriteSlot (store.slotOf d .a) (store.slotOf d .b)

/-- The other one of the two slots. -/
def otherSlot : Slot → Slot
  | .a => .b
  | _ => .a

/-- The record of the other kind that a commit carries over the erase. -/
def preservedOf (store : RecordStore ρ) (d : Device) : Option (List UInt8) :=
  (some (d.slice (partitionForSlot (store.target d)) store.neighbourOffset
    store.neighbourSize)).filter store.neighbourIsValid

/-- Only the sector of a slot changes. -/
abbrev SlotFrame (slot : Slot) : Device → Device → Prop :=
  OutsideFrame (partitionForSlot slot).address
    ((partitionForSlot slot).address + extFlashSectorSize)

theorem target_cases (store : RecordStore ρ) (d : Device) :
    store.target d = .a ∨ store.target d = .b := by
  unfold target SlotFormat.selectWriteSlot
  split
  · exact .inr rfl
  · exact .inl rfl

theorem partition_end_le : ExternalPartition.metadataA.address + extFlashSectorSize ≤
    ExternalPartition.metadataB.address := by
  decide

/-- The other slot is in another sector. -/
theorem slotOf_otherSlot {slot : Slot} (hslot : slot = .a ∨ slot = .b)
    (hframe : SlotFrame slot d d') :
    store.slotOf d' (otherSlot slot) = store.slotOf d (otherSlot slot) := by
  have hend := partition_end_le
  refine slotOf_congr fun i hi => hframe.external _ ?_
  rcases hslot with rfl | rfl
  · exact .inr (show ExternalPartition.metadataA.address + extFlashSectorSize ≤
      ExternalPartition.metadataB.address + i by omega)
  · exact .inl (show ExternalPartition.metadataA.address + i <
      ExternalPartition.metadataB.address by omega)

/-- The slots after a change of the sector a commit writes. -/
theorem writeSlot_of_frame (hframe : SlotFrame (store.target d) d d') :
    store.slots.writeSlot (store.slotOf d .a) (store.slotOf d .b)
      (store.slotOf d' (store.target d)) = (store.slotOf d' .a, store.slotOf d' .b) := by
  have hother : store.slotOf d' (otherSlot (store.target d)) =
      store.slotOf d (otherSlot (store.target d)) :=
    slotOf_otherSlot (target_cases store d) hframe
  unfold SlotFormat.writeSlot
  rcases target_cases store d with h | h
  · rw [h] at hother ⊢
    rw [target] at h
    rw [h]
    exact Prod.ext rfl hother.symm
  · rw [h] at hother ⊢
    rw [target] at h
    rw [h]
    exact Prod.ext hother.symm rfl

/-- A slot without a valid record leaves the current record current. -/
theorem current_of_invalid (hframe : SlotFrame (store.target d) d d')
    (hinvalid : store.slots.isValid (store.slotOf d' (store.target d)) = false) :
    store.current d' = store.current d := by
  have hcurrent : _ = store.slots.current (store.slotOf d .a) (store.slotOf d .b) :=
    SlotFormat.current_writeSlot_of_invalid hinvalid
  rwa [writeSlot_of_frame hframe] at hcurrent

/-- The candidate becomes current once it is in its slot. -/
theorem current_of_candidate (hframe : SlotFrame (store.target d) d d') {requested : ρ}
    (hvalid : store.slots.isValid (store.candidateFor d requested) = true)
    (hwritten : store.slotOf d' (store.target d) = store.candidateFor d requested) :
    store.current d' = some (store.candidateFor d requested) := by
  have hcurrent := SlotFormat.current_writeSlot_of_next hvalid
    (store.generation_numbered (nextGeneration (store.slots.currentGeneration
      (store.slotOf d .a) (store.slotOf d .b))) requested)
  rwa [← hwritten, writeSlot_of_frame hframe, hwritten] at hcurrent

/-- A new record is numbered after the current one. -/
theorem candidateFor_of_current {c : ρ} (h : store.current d = some c) (requested : ρ) :
    store.candidateFor d requested =
      store.numbered (nextGeneration (store.slots.generation c)) requested := by
  unfold current SlotFormat.current at h
  unfold candidateFor SlotFormat.currentGeneration
  cases hslot : store.slots.selectNewestSlot (store.slotOf d .a) (store.slotOf d .b) <;>
    simp_all

end Slots

/-! ## Commits that are cut -/

section Commit

variable {ρ : Type} {store : RecordStore ρ} {μ : Mode} {up : Bool} {s : Machine}

/-- The commit of a valid record has erased the sector it writes. -/
structure Rewritten (store : RecordStore ρ) (μ : Mode) (d : Device) (requested : ρ)
    (d' : Device) : Prop where
  valid : store.slots.isValid (store.candidateFor d requested) = true
  rewriting : ∃ preserved, (preserved = store.preservedOf d ∨ μ.Faulty) ∧
    store.Rewriting (partitionForSlot (store.target d)) (store.candidateFor d requested) preserved d'

/-- What a commit does to the sector it writes, and that it touches nothing else. -/
theorem commit_rewrites (hs : Env μ up s) (hup : μ.Usable up) (requested : ρ) :
    Holds μ up (store.commit requested s)
      (fun r d => SlotFrame (store.target s.device) s.device d ∧
        (r = .ok (store.candidateFor s.device requested) ∧
            store.slotOf d (store.target s.device) = store.candidateFor s.device requested ∧
            store.Rewritten μ s.device requested d ∨
          (∃ e, r = .error e) ∧ (μ.Faulty ∨
            d = s.device ∧ store.slots.isValid (store.candidateFor s.device requested) = false)))
      (fun d => SlotFrame (store.target s.device) s.device d ∧
        (d = s.device ∨ store.Rewritten μ s.device requested d)) := by
  have hself : ∀ {d}, d = s.device → SlotFrame (store.target s.device) s.device d := by
    rintro d rfl
    exact refl_of (SlotFrame (store.target s.device)) s.device
  refine Holds.bind (readSlot_holds hs hup .a) ?_ (fun _ hd => ⟨hself hd, .inl hd⟩)
  rintro r t ht ⟨hd, rfl | ⟨rfl, hfaulty⟩⟩
  swap
  · exact Holds.pure ht ⟨hself hd, .inr ⟨⟨_, rfl⟩, .inl hfaulty⟩⟩
  refine Holds.bind (readSlot_holds ht hup .b) ?_
    (fun _ hd' => ⟨hself (hd'.trans hd), .inl (hd'.trans hd)⟩)
  rw [hd]
  rintro r u hu ⟨hd', rfl | ⟨rfl, hfaulty⟩⟩
  swap
  · exact Holds.pure hu ⟨hself hd', .inr ⟨⟨_, rfl⟩, .inl hfaulty⟩⟩
  dsimp only
  rw [← candidateFor, ← target]
  cases hvalid : store.slots.isValid (store.candidateFor s.device requested) with
  | false =>
      rw [if_pos rfl]
      exact Holds.pure hu ⟨hself hd', .inr ⟨⟨_, rfl⟩, .inr ⟨hd', rfl⟩⟩⟩
  | true =>
      rw [if_neg (by decide)]
      refine Holds.bind (storageRead_holds hu hup _ _ _) ?_
        (fun _ hd'' => ⟨hself (hd''.trans hd'), .inl (hd''.trans hd')⟩)
      rw [hd']
      rintro neighbour v hv ⟨hd'', hneighbour⟩
      have hpreserved : Option.filter store.neighbourIsValid neighbour =
          store.preservedOf s.device ∨ μ.Faulty := by
        have hfits := store.neighbour_fits
        have hsize := partitionForSlot_size (store.target s.device)
        rcases hneighbour with ⟨rfl, -⟩ | ⟨-, hfaulty | hout⟩
        · exact .inl rfl
        · exact .inr hfaulty
        · omega
      have hlength : ∀ bytes, Option.filter store.neighbourIsValid neighbour = some bytes →
          bytes.length = store.neighbourSize := by
        intro bytes hbytes
        rcases hneighbour with ⟨rfl, -⟩ | ⟨rfl, -⟩
        · rw [← Option.mem_def, Option.mem_filter_iff, Option.mem_some_iff] at hbytes
          rw [← hbytes.1]
          exact window_length _ _ _
        · cases hbytes
      refine ((rewrite_holds hv hup (partitionForSlot_size _) hvalid hlength).and_keeps
        (rewrite_keeps (partitionForSlot_size _) (allows_outsideFrame le_rfl
          (by rw [partitionForSlot_size])) _ _)).mono ?_ ?_
      · rintro r d ⟨⟨rfl, hwritten, hrewriting⟩ | ⟨hfail, hfaulty⟩, hframe⟩
        · exact ⟨hd'' ▸ hframe, .inl ⟨rfl, hwritten, hvalid, _, hpreserved, hrewriting⟩⟩
        · exact ⟨hd'' ▸ hframe, .inr ⟨hfail, .inl hfaulty⟩⟩
      · rintro d ⟨hold | hrewriting, hframe⟩
        · exact ⟨hd'' ▸ hframe, .inl (hold.trans hd'')⟩
        · exact ⟨hd'' ▸ hframe, .inr ⟨hvalid, _, hpreserved, hrewriting⟩⟩

/-- No erased sector and no part of a record is taken for a record. -/
structure Sealed (store : RecordStore ρ) : Prop where
  erased : ∀ {d : Device} {p : ExternalPartition},
    (∀ i < store.recordSize, d.part p (store.offset + i) = 0xFF) →
      store.slots.isValid (store.layout.decode (d.slice p store.offset store.recordSize)) = false
  torn : ∀ {d : Device} {p : ExternalPartition} {r : ρ}, store.slots.isValid r = true →
    Partly d p store.offset store.recordSize (store.layout.encode r) →
      store.slots.isValid (store.layout.decode (d.slice p store.offset store.recordSize)) = true →
        store.layout.decode (d.slice p store.offset store.recordSize) = r

theorem current_of_rewritten (hsealed : store.Sealed) {d d' : Device} {requested : ρ}
    (hframe : SlotFrame (store.target d) d d') (h : store.Rewritten μ d requested d') :
    store.current d' = store.current d ∨
      store.current d' = some (store.candidateFor d requested) := by
  obtain ⟨hvalid, preserved, -, hrewriting⟩ := h
  cases hslot : store.slots.isValid (store.slotOf d' (store.target d)) with
  | false => exact .inl (current_of_invalid hframe hslot)
  | true => exact .inr (current_of_candidate hframe hvalid (hsealed.torn hvalid
      hrewriting.record hslot))

/-- A commit is atomic: a cut leaves the record of before or the new one. -/
theorem commit_holds (hsealed : store.Sealed) (hs : Env μ up s) (hup : μ.Usable up)
    {requested : ρ}
    (hvalid : store.slots.isValid (store.candidateFor s.device requested) = true) :
    Holds μ up (store.commit requested s)
      (fun r d => r = .ok (store.candidateFor s.device requested) ∧
          store.current d = some (store.candidateFor s.device requested) ∨
        (∃ e, r = .error e) ∧ μ.Faulty)
      (fun d => store.current d = store.current s.device ∨
        store.current d = some (store.candidateFor s.device requested)) := by
  refine (commit_rewrites hs hup requested).mono ?_ ?_
  · rintro r d ⟨hframe, ⟨rfl, hwritten, -⟩ | ⟨hfail, hfaulty | ⟨-, hinvalid⟩⟩⟩
    · exact .inl ⟨rfl, current_of_candidate hframe hvalid hwritten⟩
    · exact .inr ⟨hfail, hfaulty⟩
    · rw [hvalid] at hinvalid
      cases hinvalid
  · rintro d ⟨hframe, rfl | hrewritten⟩
    · exact .inl rfl
    · exact current_of_rewritten hsealed hframe hrewritten

end Commit

end RecordStore

/-! ## No part of a record is a record -/

section Partly

variable {d : Device} {p : ExternalPartition} {offset size : Nat} {bytes : List UInt8}

theorem slice_getD {i : Nat} (hi : i < size) :
    (d.slice p offset size).getD i 0 = d.part p (offset + i) := by
  rw [Device.slice_eq_window, window_getD hi]

/-- Either all of the given prefix is there, or its last byte is erased. -/
theorem RecordStore.Partly.complete_or_erased (h : RecordStore.Partly d p offset size bytes)
    {k : Nat} (hk : k < size) :
    (∀ i ≤ k, (d.slice p offset size).getD i 0 = bytes.getD i 0) ∨
      (d.slice p offset size).getD k 0 = 0xFF := by
  obtain ⟨n, hn, hwritten, herased⟩ := h
  rcases Nat.lt_or_ge k n with hlt | hge
  · exact .inl fun i hi => by rw [slice_getD (by omega), hwritten i (by omega)]
  · exact .inr (by rw [slice_getD hk, herased k hge hk])

end Partly

theorem take_eq_of_getD {a b : List UInt8} {k : Nat} (ha : k ≤ a.length) (hb : k ≤ b.length)
    (h : ∀ i < k, a.getD i 0 = b.getD i 0) : a.take k = b.take k := by
  refine List.ext_getElem (by simp [ha, hb]) fun i hi hi' => ?_
  rw [List.length_take] at hi hi'
  have hbyte := h i (by omega)
  rw [List.getD_eq_getElem _ _ (by omega), List.getD_eq_getElem _ _ (by omega)] at hbyte
  simpa using hbyte

/--
A kind of record is sealed if its last word is a CRC of the others and neither its
first word nor the word before the CRC can end in an erased byte.
-/
theorem RecordStore.sealed_of {ρ : Type} {store : RecordStore ρ} {k : Nat}
    (hcount : store.layout.count = k + 2)
    (hfirst : ∀ r, store.slots.isValid r = true →
      ((store.layout.toWords r).getD 0 0).toNat < 0xFF000000)
    (hbody : ∀ r, store.slots.isValid r = true →
      ((store.layout.toWords r).getD k 0).toNat < 0xFF000000)
    (hcrc : ∀ r, store.slots.isValid r = true → (store.layout.toWords r).getD (k + 1) 0 =
      Crc32.calculate ((store.layout.encode r).take (4 * (k + 1)))) : store.Sealed where
  erased {d p} h := by
    have hsize : store.recordSize = 4 * (k + 2) := by rw [recordSize, hcount]
    have hlast : (d.slice p store.offset store.recordSize).getD (4 * 0 + 3) 0 = 0xFF :=
      (slice_getD (by omega)).trans (h (4 * 0 + 3) (by omega))
    have hbig := readLe32_of_last_erased hlast
    rw [← store.layout.toWords_decode (by omega)] at hbig
    by_contra hvalid
    have hsmall := hfirst _ (eq_true_of_ne_false hvalid)
    omega
  torn {d p r} hr hpartly hvalid := by
    have hsize : store.recordSize = 4 * (k + 2) := by rw [recordSize, hcount]
    have hlength : (d.slice p store.offset store.recordSize).length = 4 * store.layout.count :=
      window_length _ _ _
    rcases hpartly.complete_or_erased (k := 4 * k + 3) (by omega) with hsame | hlast
    · refine store.layout.decode_eq_of_last (k := k + 1) hcount
        (fun i hi => hsame i (by omega)) ?_
      -- both CRCs are those of the same body
      rw [← store.layout.toWords_decode (by omega), hcrc _ hvalid, hcrc r hr,
        store.layout.encode_decode hlength]
      refine congrArg Crc32.calculate (take_eq_of_getD ?_ ?_ fun i hi => hsame i (by omega))
      · omega
      · rw [store.layout.encode_length]
        omega
    · have hbig := readLe32_of_last_erased hlast
      rw [← store.layout.toWords_decode (by omega)] at hbig
      have hsmall := hbody _ hvalid
      omega

namespace DownloadCheckpoint

theorem validate_eq_valid {r : DownloadCheckpointRecord} :
    validate r = .valid ↔ r.magic = expectedMagic ∧ r.formatVersion = expectedFormatVersion ∧
      r.generation ≠ 0 ∧ r.state ≤ DownloadCheckpointState.artifactReady.code ∧
      (r.state = DownloadCheckpointState.idle.code → r.updateId = 0 ∧ r.targetVersion = 0 ∧
        r.imageSize = 0 ∧ r.imageCrc32 = 0 ∧ r.nextOffset = 0) ∧
      (r.state ≠ DownloadCheckpointState.idle.code → sessionFieldsValid r = true) ∧
      r.crc32 = calculateCrc r := by
  unfold validate
  split_ifs <;> simp_all
  all_goals first | omega | (intros; simp_all)

theorem sessionFieldsValid_iff {r : DownloadCheckpointRecord} :
    sessionFieldsValid r = true ↔ r.updateId ≠ 0 ∧ r.imageSize ≠ 0 ∧
      r.imageSize.toNat ≤ extIncomingSize ∧ r.nextOffset.toNat ≤ r.imageSize.toNat ∧
      (r.state = DownloadCheckpointState.receiving.code ∧
          r.nextOffset.toNat % extFlashSectorSize = 0 ∨
        r.state = DownloadCheckpointState.artifactReady.code ∧ r.nextOffset = r.imageSize) := by
  have hne : DownloadCheckpointState.artifactReady.code ≠
      DownloadCheckpointState.receiving.code := by decide
  unfold sessionFieldsValid
  split
  · next hbad =>
    rw [gt_iff_lt, gt_iff_lt, UInt32.lt_iff_toNat_lt] at hbad
    refine iff_of_false Bool.false_ne_true ?_
    rintro ⟨hid, hsize, hmax, hoffset, -⟩
    rcases hbad with h | h | h | h
    · exact hid h
    · exact hsize h
    · omega
    · omega
  · next hgood =>
    simp only [not_or, gt_iff_lt, UInt32.lt_iff_toNat_lt, not_lt] at hgood
    obtain ⟨hid, hsize, hmax, hoffset⟩ := hgood
    split
    · next hstate => simp [hid, hsize, hmax, hoffset, hstate, hne.symm]
    · next hstate =>
      split
      · next hready => simp [hid, hsize, hmax, hoffset, hready, hne]
      · next hready => simp [hstate, hready]

/-- The offset of a valid checkpoint lies in the partition of incoming artifacts. -/
theorem nextOffset_le {r : DownloadCheckpointRecord} (h : validate r = .valid) :
    r.nextOffset.toNat ≤ extIncomingSize := by
  obtain ⟨-, -, -, -, hidle, hsession, -⟩ := validate_eq_valid.1 h
  by_cases hstate : r.state = DownloadCheckpointState.idle.code
  · rw [(hidle hstate).2.2.2.2]
    exact Nat.zero_le _
  · obtain ⟨-, -, hmax, hoffset, -⟩ := sessionFieldsValid_iff.1 (hsession hstate)
    exact hoffset.trans hmax

end DownloadCheckpoint

namespace UpdateHandoff

theorem validate_eq_valid {r : UpdateHandoffRecord} :
    validate r = .valid ↔ r.magic = expectedMagic ∧ r.formatVersion = expectedFormatVersion ∧
      r.generation ≠ 0 ∧ r.updateId ≠ 0 ∧ r.targetVersion ≠ 0 ∧
      ¬ (r.imageSize < 8 ∨ r.imageSize.toNat > applicationMaxSize) ∧
      r.targetLoadAddress.toNat = applicationStartAddress ∧ r.crc32 = calculateCrc r := by
  unfold validate
  split_ifs <;> simp_all

theorem finalize_crc32 (r : UpdateHandoffRecord) :
    (finalize r).crc32 = calculateCrc (finalize r) := rfl

end UpdateHandoff

theorem DownloadCheckpointStorage.isValid_iff {r : DownloadCheckpointRecord} :
    store.slots.isValid r = true ↔ DownloadCheckpoint.validate r = .valid :=
  decide_eq_true_iff

theorem UpdateHandoffStorage.isValid_iff {r : UpdateHandoffRecord} :
    store.slots.isValid r = true ↔ UpdateHandoff.validate r = .valid :=
  decide_eq_true_iff

/-- A checkpoint has its offset, which is small, right before its CRC. -/
theorem DownloadCheckpointStorage.store_sealed : store.Sealed := by
  refine RecordStore.sealed_of (k := 8) rfl (fun r hr => ?_) (fun r hr => ?_) fun r hr => ?_
  · have hmagic : r.magic = _ :=
      (DownloadCheckpoint.validate_eq_valid.1 (isValid_iff.1 hr)).1
    exact (congrArg UInt32.toNat hmagic).trans_lt (by decide)
  · exact (DownloadCheckpoint.nextOffset_le (isValid_iff.1 hr)).trans_lt (by decide)
  · exact (DownloadCheckpoint.validate_eq_valid.1 (isValid_iff.1 hr)).2.2.2.2.2.2

/-- A handoff has a fixed address right before its CRC. -/
theorem UpdateHandoffStorage.store_sealed : store.Sealed := by
  refine RecordStore.sealed_of (k := 7) rfl (fun r hr => ?_) (fun r hr => ?_) fun r hr => ?_
  · have hmagic : r.magic = _ := (UpdateHandoff.validate_eq_valid.1 (isValid_iff.1 hr)).1
    exact (congrArg UInt32.toNat hmagic).trans_lt (by decide)
  · have haddress : r.targetLoadAddress.toNat = _ :=
      (UpdateHandoff.validate_eq_valid.1 (isValid_iff.1 hr)).2.2.2.2.2.2.1
    exact haddress.trans_lt (by decide)
  · exact (UpdateHandoff.validate_eq_valid.1 (isValid_iff.1 hr)).2.2.2.2.2.2.2

/-! ## Clearing the checkpoint -/

/-- The newest download checkpoint. -/
def Device.checkpoint (d : Device) : Option DownloadCheckpointRecord :=
  DownloadCheckpointStorage.store.current d

/-- The newest checkpoint says that no download is open. -/
def Device.CheckpointIdle (d : Device) : Prop :=
  ∃ c, d.checkpoint = some c ∧ c.state = DownloadCheckpointState.idle.code

/-- The newest checkpoint is a function of the two record partitions. -/
theorem Device.checkpoint_congr {d d' : Device}
    (h : ∀ p, p = .metadataA ∨ p = .metadataB → ∀ i < extFlashSectorSize,
      d'.part p i = d.part p i) : d'.checkpoint = d.checkpoint := by
  unfold checkpoint RecordStore.current
  rw [RecordStore.slotOf_congr (h _ (.inl rfl)), RecordStore.slotOf_congr (h _ (.inr rfl))]

namespace DownloadCheckpointStorage

theorem validate_idle {r : DownloadCheckpointRecord} (hgen : r.generation ≠ 0)
    (hcrc : r.crc32 = DownloadCheckpoint.calculateCrc r)
    (hfields : { r with generation := 0, crc32 := 0 } = DownloadCheckpoint.initIdle) :
    DownloadCheckpoint.validate r = .valid := by
  have hmagic := congrArg DownloadCheckpointRecord.magic hfields
  have hversion := congrArg DownloadCheckpointRecord.formatVersion hfields
  have hstate := congrArg DownloadCheckpointRecord.state hfields
  have hid := congrArg DownloadCheckpointRecord.updateId hfields
  have htarget := congrArg DownloadCheckpointRecord.targetVersion hfields
  have hsize := congrArg DownloadCheckpointRecord.imageSize hfields
  have himage := congrArg DownloadCheckpointRecord.imageCrc32 hfields
  have hoffset := congrArg DownloadCheckpointRecord.nextOffset hfields
  simp only [DownloadCheckpoint.initIdle] at hmagic hversion hstate hid htarget hsize himage hoffset
  simp only [DownloadCheckpoint.validate, hmagic, hversion, hstate, hid, htarget, hsize, himage,
    hoffset, hgen, ← hcrc]
  simp [DownloadCheckpointState.code]

/-- A commit of the idle record is never refused. -/
theorem initIdle_candidate_valid (d : Device) :
    store.slots.isValid (store.candidateFor d DownloadCheckpoint.initIdle) = true := by
  have hgen := nextGeneration_ne_zero
    (store.slots.currentGeneration (store.slotOf d .a) (store.slotOf d .b))
  unfold RecordStore.candidateFor
  generalize nextGeneration
    (store.slots.currentGeneration (store.slotOf d .a) (store.slotOf d .b)) = g at hgen ⊢
  exact decide_eq_true (validate_idle hgen rfl rfl)

theorem candidateFor_initIdle_state (d : Device) :
    (store.candidateFor d DownloadCheckpoint.initIdle).state =
      DownloadCheckpointState.idle.code := rfl

theorem clear_holds {μ : Mode} {up : Bool} {s : Machine} (hs : Env μ up s) (hup : μ.Usable up) :
    Holds μ up (clear s)
      (fun r d => r = .ok ∧ d.CheckpointIdle ∨ μ.Faulty)
      (fun d => d.checkpoint = s.device.checkpoint ∨ d.CheckpointIdle) := by
  refine Holds.bind (RecordStore.commit_holds store_sealed hs hup
    (initIdle_candidate_valid s.device)) ?_
    (fun _ hd => hd.imp_right fun h => ⟨_, h, candidateFor_initIdle_state s.device⟩)
  rintro r t ht (⟨rfl, hcurrent⟩ | ⟨⟨e, rfl⟩, hfaulty⟩)
  · exact Holds.pure ht (.inl ⟨rfl, _, hcurrent, candidateFor_initIdle_state s.device⟩)
  · exact Holds.pure ht (.inr hfaulty)

theorem clear_keeps {R : Device → Device → Prop} [IsPreorder Device R]
    (h : ∀ slot, Allows R (RecordStore.partitionForSlot slot).address
      ((RecordStore.partitionForSlot slot).address +
        (RecordStore.partitionForSlot slot).size)) : Keeps R clear := by
  refine Keeps.bind (RecordStore.commit_keeps h _) fun r => ?_
  cases r with
  | error status => exact Keeps.pure _
  | ok c => exact Keeps.pure _

/-- Everything but the two record partitions is kept. -/
abbrev CheckpointFrame : Device → Device → Prop :=
  PartFrame (fun _ => True) fun p => p ≠ .metadataA ∧ p ≠ .metadataB

theorem clear_frame : Keeps CheckpointFrame clear := by
  refine clear_keeps fun slot => allows_partFrame ?_
  unfold RecordStore.partitionForSlot
  split <;> simp

end DownloadCheckpointStorage

/-! ## Sequences of commits and cuts -/

/-- The script of a run cut at its operation `k`, which may be a page program cut inside. -/
def tornCut : Option (Nat × Nat) → List Outcome
  | none => []
  | some (k, written) => List.replicate k .ok ++ [.cut written]

/-- Power may be lost at any operation and inside page programs. -/
def tornMode : Mode where
  cuts := true
  tornPrograms := true
  externalFaults := false
  atomicCommit := false
  writer := .bootloader

theorem tornMode_admits (cut : Option (Nat × Nat)) : ∀ o ∈ tornCut cut, tornMode.Admits o := by
  intro o ho
  cases cut with
  | none => cases ho
  | some cut =>
      simp only [tornCut, List.mem_append, List.mem_replicate, List.mem_singleton] at ho
      rcases ho with ⟨-, rfl⟩ | rfl
      · exact trivial
      · exact ⟨rfl, .inl rfl⟩

namespace RecordStore

section Runs

variable {ρ : Type} (store : RecordStore ρ)

/-- The node with a working external flash, in front of a script. -/
def machineOf (script : List Outcome) (d : Device) : Machine :=
  ⟨d, ⟨true, .ok⟩, script, false, .bootloader⟩

def runCommit (requested : ρ) (cut : Option (Nat × Nat)) (d : Device) :
    Result Machine (Except RecordStorageStatus ρ) :=
  store.commit requested (machineOf (tornCut cut) d)

/-- One commit after the other, each of them cut or not. -/
def runCommits (requests : List (ρ × Option (Nat × Nat))) (d : Device) : Device :=
  requests.foldl (fun d request => (store.runCommit request.1 request.2 d).state.device) d

/-- What a load that is not interrupted returns. -/
def loaded (d : Device) : Option (Except RecordStorageStatus ρ) :=
  (store.load (machineOf [] d)).value?

variable {store} {d : Device}

theorem env_machineOf (cut : Option (Nat × Nat)) (d : Device) :
    Env tornMode true (machineOf (tornCut cut) d) :=
  ⟨tornMode_admits cut, fun _ => rfl, rfl, rfl⟩

theorem loaded_eq (d : Device) :
    store.loaded d = some (match store.current d with
      | some c => .ok c
      | none => .error .notFound) := by
  let μ : Mode := { tornMode with cuts := false }
  have hs : Env μ true (machineOf [] d) :=
    ⟨fun _ h => absurd h List.not_mem_nil, fun _ => rfl, rfl, rfl⟩
  have hload : Holds μ true (store.load (machineOf [] d)) _ _ := load_holds hs (.inl rfl)
  obtain ⟨r, t, hdone, -, -, ⟨-, hfaulty⟩ | hr⟩ := hload.exists_done rfl
  · cases hfaulty
  · rw [loaded, hdone, Result.value?, hr]
    rfl

theorem loaded_ok_iff {c : ρ} : store.loaded d = some (.ok c) ↔ store.current d = some c := by
  rw [loaded_eq]
  cases store.current d <;> simp

/-- A commit in an environment of cuts only. -/
theorem runCommit_cases (hsealed : store.Sealed) (requested : ρ) (cut : Option (Nat × Nat))
    (d : Device) :
    (store.current (store.runCommit requested cut d).state.device = store.current d ∨
      store.current (store.runCommit requested cut d).state.device =
        some (store.candidateFor d requested)) ∧
    ∀ committed, (store.runCommit requested cut d).value? = some (.ok committed) →
      committed = store.candidateFor d requested ∧
        store.current (store.runCommit requested cut d).state.device =
          some (store.candidateFor d requested) := by
  have hrun : Holds tornMode true (store.commit requested (machineOf (tornCut cut) d)) _ _ :=
    commit_rewrites (env_machineOf cut d) (.inl rfl) requested
  unfold runCommit
  cases hr : store.commit requested (machineOf (tornCut cut) d) with
  | done r t =>
      rw [hr] at hrun
      obtain ⟨-, hframe, ⟨rfl, hwritten, hrewritten⟩ | ⟨⟨e, rfl⟩, hfaulty | ⟨hd, -⟩⟩⟩ := hrun
      · have hnew := current_of_candidate hframe hrewritten.valid hwritten
        refine ⟨.inr hnew, fun committed hcommitted => ?_⟩
        cases hcommitted
        exact ⟨rfl, hnew⟩
      · cases hfaulty
      · rw [Result.state_done, hd]
        exact ⟨.inl rfl, fun _ hcommitted => by cases hcommitted⟩
  | cut t =>
      rw [hr] at hrun
      obtain ⟨-, hframe, hd | hrewritten⟩ := hrun
      · rw [Result.state_cut, hd]
        exact ⟨.inl rfl, fun _ hcommitted => by cases hcommitted⟩
      · exact ⟨current_of_rewritten hsealed hframe hrewritten,
          fun _ hcommitted => by cases hcommitted⟩
  | spin t =>
      rw [hr] at hrun
      exact hrun.elim

/-- A record that is there once is not lost. -/
theorem runCommits_current (hsealed : store.Sealed) (requests : List (ρ × Option (Nat × Nat)))
    (h : ∃ c, store.current d = some c) : ∃ c, store.current (store.runCommits requests d) = some c := by
  induction requests generalizing d with
  | nil => exact h
  | cons request requests ih =>
      refine ih ?_
      rcases (runCommit_cases hsealed request.1 request.2 d).1 with hold | hnew
      · rwa [hold]
      · exact ⟨_, hnew⟩

/--
After any commits and cuts the next commit is atomic: a load that follows it
returns the record that was loaded before or the new one, numbered after it, and
exactly the new one if the commit reported success.
-/
def CrashAtomic (store : RecordStore ρ) : Prop :=
  ∀ (start : Device) (earlier : List (ρ × Option (Nat × Nat))) (requested : ρ)
    (cut : Option (Nat × Nat)), (∃ c, store.loaded start = some (.ok c)) →
    ∃ c, store.loaded (store.runCommits earlier start) = some (.ok c) ∧
      let r := store.runCommit requested cut (store.runCommits earlier start)
      let new := store.numbered (nextGeneration (store.slots.generation c)) requested
      (store.loaded r.state.device = some (.ok c) ∨ store.loaded r.state.device = some (.ok new)) ∧
      ∀ committed, r.value? = some (.ok committed) →
        committed = new ∧ store.loaded r.state.device = some (.ok new)

theorem crashAtomic (hsealed : store.Sealed) : store.CrashAtomic := by
  rintro start earlier requested cut ⟨c₀, hc₀⟩
  obtain ⟨c, hc⟩ := runCommits_current hsealed earlier ⟨c₀, loaded_ok_iff.1 hc₀⟩
  refine ⟨c, loaded_ok_iff.2 hc, ?_⟩
  dsimp only
  obtain ⟨hcases, hcommitted⟩ :=
    runCommit_cases hsealed requested cut (store.runCommits earlier start)
  rw [candidateFor_of_current hc, hc] at hcases
  rw [candidateFor_of_current hc] at hcommitted
  simp only [loaded_ok_iff]
  exact ⟨hcases, hcommitted⟩

/-- Download checkpoints and install handoffs are committed atomically. -/
theorem records_crash_atomic :
    DownloadCheckpointStorage.store.CrashAtomic ∧ UpdateHandoffStorage.store.CrashAtomic :=
  ⟨crashAtomic DownloadCheckpointStorage.store_sealed, crashAtomic UpdateHandoffStorage.store_sealed⟩

end Runs

end RecordStore

end SecureDeltaOta
