import SecureDeltaOta.Storage.RecordCommit

/-!
# Two kinds of record in one sector

Download checkpoints and install handoffs lie in the same two sectors. A commit of
one kind erases a sector with a record of the other kind in it and writes that
record back at the end. What a cut or a failure in between costs is decided here.
-/

namespace SecureDeltaOta

open Memory Crash

/-! ## Operations in front of a known script -/

section Scripts

variable {s : Machine} {o : Outcome} {rest : List Outcome} {d : Device} {p : ExternalPartition}
  {offset length : Nat}

/-- The driver is initialised, and the given outcomes are still to come. -/
structure Facing (script : List Outcome) (d : Device) (t : Machine) : Prop where
  device : t.device = d
  script : t.script = script
  initialized : t.spi.initialized = true

theorem Facing.nextOutcome (h : Facing (o :: rest) d s) :
    Flash.nextOutcome s = .done o { s with script := rest } := by
  unfold Flash.nextOutcome
  rw [h.script]

theorem spiRead_ok {address : Nat} (h : Facing (.ok :: rest) d s) (hpos : 0 < length)
    (hrange : address + length ≤ extFlashSize) :
    (SpiFlash.read address length s).Ensures
      (fun r t => r = some (window d.external address length) ∧ Facing rest d t)
      (fun _ => False) := by
  have hvalid : ExtFlash.isAbsoluteRangeValid address length = true :=
    ExtFlash.isRangeValid_iff.2 (by omega)
  simp only [SpiFlash.read, SpiFlash.isInitialized, SpiFlash.readData, ensures_bind, ensures_read,
    h.initialized, hvalid, hpos.ne', Bool.not_true, Bool.false_eq_true, if_false, h.nextOutcome,
    Result.ensures_done]
  exact ⟨by rw [h.device], h.device, rfl, h.initialized⟩

theorem spiRead_cut {address written : Nat} (h : Facing (.cut written :: rest) d s)
    (hpos : 0 < length) (hrange : address + length ≤ extFlashSize) :
    (SpiFlash.read address length s).Ensures (fun _ _ => False) (fun t => t.device = d) := by
  have hvalid : ExtFlash.isAbsoluteRangeValid address length = true :=
    ExtFlash.isRangeValid_iff.2 (by omega)
  simp only [SpiFlash.read, SpiFlash.isInitialized, SpiFlash.readData, ensures_bind, ensures_read,
    h.initialized, hvalid, hpos.ne', Bool.not_true, Bool.false_eq_true, if_false, h.nextOutcome,
    Result.ensures_done, ensures_halt]
  exact h.device

theorem storageRead_ok (h : Facing (.ok :: rest) d s) (hpos : 0 < length)
    (hrange : offset + length ≤ p.size) :
    (ExternalFlashStorage.read p offset length s).Ensures
      (fun r t => r = some (d.slice p offset length) ∧ Facing rest d t) (fun _ => False) := by
  have hend := p.end_le_extFlashSize
  unfold ExternalFlashStorage.read
  rw [resolveRange_of_le hrange]
  exact spiRead_ok h hpos (by omega)

/-- A write begins with a read of what is there, so a cut at its first operation changes nothing. -/
theorem storageWrite_cut {data : List UInt8} {written : Nat}
    (h : Facing (.cut written :: rest) d s) (hpos : 0 < data.length)
    (hrange : offset + data.length ≤ p.size) :
    (ExternalFlashStorage.write p offset data s).Ensures (fun _ _ => False)
      (fun t => t.device = d) := by
  have hend := p.end_le_extFlashSize
  have hvalid : ExtFlash.isAbsoluteRangeValid (p.address + offset) data.length = true :=
    ExtFlash.isRangeValid_iff.2 (by omega)
  unfold ExternalFlashStorage.write
  rw [resolveRange_of_le hrange]
  simp only [SpiFlash.write, SpiFlash.isInitialized, ensures_bind, ensures_read, h.initialized,
    hvalid, hpos.ne', Bool.not_true, Bool.false_eq_true, if_false]
  refine (ensures_loopThen (I := fun offset t => offset = 0 ∧ Facing (.cut written :: rest) d t)
    (Q := fun _ _ => False) (C := fun t => t.device = d)
    (fun offset => data.length - offset) ?_ ?_ ?_ le_rfl ⟨rfl, h⟩).mono
    (fun _ _ hfalse => hfalse.elim) (fun _ ht => ht)
  · rintro offset t - ⟨rfl, -⟩
    exact hpos
  · rintro offset t - ⟨rfl, ht⟩
    have hchunk : 0 < min (data.length - 0) SpiFlash.preflightBufferSize :=
      lt_min hpos (by decide)
    refine Ensures.bind (spiRead_cut ht hchunk ?_) (fun _ _ hfalse => hfalse.elim) (fun _ ht => ht)
    have hle := min_le_left (data.length - 0) SpiFlash.preflightBufferSize
    omega
  · rintro offset t hguard ⟨rfl, -⟩
    simp [hpos.ne'] at hguard

theorem erasePartition_ok (hsize : p.size = extFlashSectorSize) (h : Facing (.ok :: rest) d s) :
    (ExternalFlashStorage.erasePartition p s).Ensures
      (fun ok t => ok = true ∧
        Facing rest (d.withExternal p.address extFlashSectorSize fun _ => 0xFF) t)
      (fun _ => False) := by
  have hend := p.end_le_extFlashSize
  have hvalid : ExtFlash.isAbsoluteRangeValid p.address extFlashSectorSize = true :=
    ExtFlash.isRangeValid_iff.2 (by omega)
  have haligned : ExtFlash.isSectorAligned p.address = true := by
    simp [ExtFlash.isSectorAligned, p.address_aligned]
  unfold ExternalFlashStorage.erasePartition
  rw [if_neg (by simp [haligned, p.size_whole])]
  unfold ExternalFlashStorage.eraseSectors
  rw [hsize]
  refine ensures_loopThen (I := fun erased t => erased = 0 ∧ Facing (.ok :: rest) d t ∨
      erased = extFlashSectorSize ∧
        Facing rest (d.withExternal p.address extFlashSectorSize fun _ => 0xFF) t)
    (fun erased => extFlashSectorSize - erased) ?_ ?_ ?_ le_rfl (.inl ⟨rfl, h⟩)
  · rintro erased t hguard -
    simpa using hguard
  · rintro erased t hguard (⟨rfl, ht⟩ | ⟨rfl, -⟩)
    · simp only [SpiFlash.eraseSector, SpiFlash.isInitialized, SpiFlash.sectorErase, ensures_bind,
        ensures_read, ht.initialized, haligned, hvalid, Nat.add_zero, Bool.not_true,
        Bool.false_eq_true, if_false, ht.nextOutcome, Result.ensures_done]
      exact ⟨.inr ⟨Nat.zero_add _, by rw [← ht.device]; rfl, rfl, ht.initialized⟩, by decide⟩
    · simp at hguard
  · rintro erased t hguard (⟨rfl, -⟩ | ⟨-, ht⟩)
    · exact absurd hguard (by decide)
    · exact ⟨rfl, ht⟩

end Scripts

namespace RecordStore

section Sharing

variable {ρ σ : Type} {store : RecordStore ρ} {other : RecordStore σ} {d d' : Device}

/-- The environment of a commit that loses power right after its erase. -/
def afterErase : List Outcome := [.ok, .ok, .ok, .ok, .cut 0]

theorem commit_after_erase (hcrc : 0 < store.crcOffset) (hneighbour : 0 < store.neighbourSize)
    {requested : ρ} (hvalid : store.slots.isValid (store.candidateFor d requested) = true) :
    (store.commit requested (machineOf afterErase d)).state.device =
      d.withExternal (partitionForSlot (store.target d)).address extFlashSectorSize
        fun _ => 0xFF := by
  have hle := store.crcOffset_le
  have hfits := store.record_fits
  have hfits' := store.neighbour_fits
  have hsize : ∀ slot, (partitionForSlot slot).size = extFlashSectorSize := partitionForSlot_size
  have hread : ∀ {slot rest s}, Facing (.ok :: rest) d s → (store.readSlot slot s).Ensures
      (fun r t => r = some (store.slotOf d slot) ∧ Facing rest d t) (fun _ => False) := by
    intro slot rest s h
    refine Ensures.bind (storageRead_ok h ?_ ?_) ?_ (fun _ hfalse => hfalse)
    · unfold recordSize
      omega
    · rw [hsize]
      exact hfits
    · rintro r t ⟨rfl, ht⟩
      exact ⟨rfl, ht⟩
  have hstart : Facing afterErase d (machineOf afterErase d) := ⟨rfl, rfl, rfl⟩
  have hrun : (store.commit requested (machineOf afterErase d)).Ensures (fun _ _ => False)
      (fun t => t.device = d.withExternal (partitionForSlot (store.target d)).address
        extFlashSectorSize fun _ => 0xFF) := by
    refine Ensures.bind (hread hstart) ?_ (fun _ hfalse => hfalse.elim)
    rintro r t ⟨rfl, ht⟩
    refine Ensures.bind (hread ht) ?_ (fun _ hfalse => hfalse.elim)
    rintro r u ⟨rfl, hu⟩
    dsimp only
    rw [← candidateFor, ← target, if_neg (by simp [hvalid])]
    refine Ensures.bind (storageRead_ok hu hneighbour (by rw [hsize]; exact hfits')) ?_
      (fun _ hfalse => hfalse.elim)
    rintro r v ⟨rfl, hv⟩
    refine Ensures.bind (erasePartition_ok (hsize _) hv) ?_ (fun _ hfalse => hfalse.elim)
    rintro ok w ⟨rfl, hw⟩
    have hbody : ((store.layout.encode (store.candidateFor d requested)).take
        store.crcOffset).length = store.crcOffset := by
      rw [List.length_take, store.layout.encode_length, Nat.min_eq_left hle]
    have hroom : store.offset + ((store.layout.encode (store.candidateFor d requested)).take
        store.crcOffset).length ≤ (partitionForSlot (store.target d)).size := by
      rw [hbody, hsize]
      omega
    have hwrite := storageWrite_cut hw (hbody.symm ▸ hcrc) hroom
    have hrecord : (ExternalFlashStorage.writeCrcLast (partitionForSlot (store.target d))
        store.offset ((store.layout.encode (store.candidateFor d requested)).take store.crcOffset)
        ((store.layout.encode (store.candidateFor d requested)).drop store.crcOffset) w).Ensures
        (fun _ _ => False) (fun t => t.device = d.withExternal
          (partitionForSlot (store.target d)).address extFlashSectorSize fun _ => 0xFF) :=
      Ensures.bind hwrite (fun _ _ hfalse => hfalse.elim) (fun _ ht => ht)
    simp only [Bool.not_true, Bool.false_eq_true, if_false]
    exact Ensures.bind hrecord (fun _ _ hfalse => hfalse.elim) (fun _ ht => ht)
  cases hr : store.commit requested (machineOf afterErase d) with
  | done r t =>
      rw [hr] at hrun
      exact hrun.elim
  | cut t =>
      rw [hr] at hrun
      exact hrun
  | spin t =>
      rw [hr] at hrun
      exact hrun.elim

/-! ## The record of the other kind -/

/-- The record that is left when a slot is lost. -/
def remaining (store : RecordStore ρ) (d : Device) (slot : Slot) : Option ρ :=
  if store.slots.isValid (store.slotOf d (otherSlot slot)) then
    some (store.slotOf d (otherSlot slot))
  else none

theorem current_of_lost {slot : Slot} (hslot : slot = .a ∨ slot = .b)
    (hframe : SlotFrame slot d d')
    (hinvalid : store.slots.isValid (store.slotOf d' slot) = false) :
    store.current d' = store.remaining d slot := by
  have hother : store.slotOf d' (otherSlot slot) = store.slotOf d (otherSlot slot) :=
    slotOf_otherSlot hslot hframe
  unfold current remaining
  rw [← hother]
  rcases hslot with rfl | rfl
  · exact SlotFormat.current_of_invalid_left hinvalid
  · exact SlotFormat.current_of_invalid_right hinvalid

theorem current_of_kept {slot : Slot} (hslot : slot = .a ∨ slot = .b)
    (hframe : SlotFrame slot d d') (hkept : store.slotOf d' slot = store.slotOf d slot) :
    store.current d' = store.current d := by
  have hother : store.slotOf d' (otherSlot slot) = store.slotOf d (otherSlot slot) :=
    slotOf_otherSlot hslot hframe
  unfold current
  rcases hslot with rfl | rfl
  · rw [hkept, show store.slotOf d' .b = store.slotOf d .b from hother]
  · rw [hkept, show store.slotOf d' .a = store.slotOf d .a from hother]

theorem loaded_eq_iff : store.loaded d' = store.loaded d ↔ store.current d' = store.current d := by
  rw [loaded_eq, loaded_eq]
  cases store.current d' <;> cases store.current d <;> simp

/-- Two kinds of record that carry each other over the erase of a sector. -/
structure Neighbours (store : RecordStore ρ) (other : RecordStore σ) : Prop where
  offset : store.neighbourOffset = other.offset
  size : store.neighbourSize = other.recordSize
  isValid : ∀ bytes, store.neighbourIsValid bytes = other.slots.isValid (other.layout.decode bytes)

/-- A slot holds no record that it did not hold before. -/
def Unforged (other : RecordStore σ) (slot : Slot) (d d' : Device) : Prop :=
  other.slots.isValid (other.slotOf d' slot) = true → other.slotOf d' slot = other.slotOf d slot

/-- A commit that is only cut makes up no record of the other kind. -/
theorem unforged_of_rewritten (hneighbours : Neighbours store other) (hsealed : other.Sealed)
    {μ : Mode} (hfault : ¬ μ.Faulty) {requested : ρ} (h : store.Rewritten μ d requested d') :
    other.Unforged (store.target d) d d' := by
  obtain ⟨-, preserved, hpreserved | hfaulty, hrewriting⟩ := h
  swap
  · exact absurd hfaulty hfault
  have hpartly := hrewriting.neighbour
  rw [hneighbours.offset, hneighbours.size, hpreserved, preservedOf, hneighbours.offset,
    hneighbours.size] at hpartly
  intro hvalid
  have hdecode : other.layout.decode (d.slice (partitionForSlot (store.target d)) other.offset
      other.recordSize) = other.slotOf d (store.target d) := rfl
  cases hbefore : other.slots.isValid (other.slotOf d (store.target d)) with
  | true =>
      rw [Option.filter_some_pos (by rw [hneighbours.isValid, hdecode, hbefore])] at hpartly
      refine hsealed.torn hbefore ?_ hvalid
      have hencode : other.layout.encode (other.slotOf d (store.target d)) =
          d.slice (partitionForSlot (store.target d)) other.offset other.recordSize :=
        other.layout.encode_decode (window_length _ _ _)
      rwa [hencode]
  | false =>
      rw [Option.filter_some_neg (by rw [hneighbours.isValid, hdecode, hbefore])] at hpartly
      obtain ⟨n, hn, -, herased⟩ := hpartly
      obtain rfl : n = 0 := Nat.le_zero.1 hn
      have hinvalid := hsealed.erased fun i hi => herased i (Nat.zero_le i) hi
      rw [slotOf, hinvalid] at hvalid
      cases hvalid

/-- Power may be lost, also inside page programs, and the external flash may fail. -/
def faultyMode : Mode := { tornMode with externalFaults := true }

/-- A refused commit changes nothing. -/
theorem commit_refuses {μ : Mode} {s : Machine} {up : Bool} (hs : Env μ up s) (hup : μ.Usable up)
    {requested : ρ}
    (hinvalid : store.slots.isValid (store.candidateFor s.device requested) = false) :
    Holds μ up (store.commit requested s) (fun _ d => d = s.device) (fun d => d = s.device) := by
  refine Holds.bind (readSlot_holds hs hup .a) ?_ (fun _ hd => hd)
  rintro r t ht ⟨hd, rfl | ⟨rfl, -⟩⟩
  swap
  · exact Holds.pure ht hd
  refine Holds.bind (readSlot_holds ht hup .b) ?_ (fun _ hd' => hd'.trans hd)
  rintro r u hu ⟨hd', rfl | ⟨rfl, -⟩⟩
  swap
  · exact Holds.pure hu (hd'.trans hd)
  dsimp only
  rw [hd, ← candidateFor, if_pos hinvalid]
  exact Holds.pure hu (hd'.trans hd)

/--
Whatever cuts and failures a commit meets, the record of the other kind that is
loaded afterwards is the one of before. A failing operation may leave anything but
a valid record that was not there.
-/
def Spares (store : RecordStore ρ) (other : RecordStore σ) (d : Device) (requested : ρ) : Prop :=
  ∀ script : List Outcome, (∀ o ∈ script, ∀ junk, o ≠ .internalFault junk) →
    ((∃ o ∈ script, ∃ status junk, o = .externalFault status junk) →
      other.Unforged (store.target d) d
        (store.commit requested (machineOf script d)).state.device) →
    other.loaded (store.commit requested (machineOf script d)).state.device = other.loaded d

theorem env_faulty {script : List Outcome}
    (hscript : ∀ o ∈ script, ∀ junk, o ≠ .internalFault junk) (d : Device) :
    Env faultyMode true (machineOf script d) := by
  refine ⟨fun o ho => ?_, fun _ => rfl, rfl, rfl⟩
  cases o with
  | ok => exact trivial
  | externalFault status junk => exact rfl
  | internalFault junk => exact absurd rfl (hscript _ ho junk)
  | cut written => exact ⟨rfl, .inl rfl⟩

theorem commit_slotFrame (requested : ρ) {script : List Outcome}
    (hscript : ∀ o ∈ script, ∀ junk, o ≠ .internalFault junk) :
    SlotFrame (store.target d) d (store.commit requested (machineOf script d)).state.device := by
  exact Holds.state (C := fun t => SlotFrame (store.target d) d t)
    ((commit_rewrites (env_faulty hscript d) (.inl rfl) requested).mono (fun _ _ h => h.1)
      (fun _ h => h.1))

theorem unforged_of_cuts (hneighbours : Neighbours store other) (hsealed : other.Sealed)
    (requested : ρ) {script : List Outcome}
    (hscript : ∀ o ∈ script, tornMode.Admits o) :
    other.Unforged (store.target d) d
      (store.commit requested (machineOf script d)).state.device := by
  have hs : Env tornMode true (machineOf script d) := ⟨hscript, fun _ => rfl, rfl, rfl⟩
  refine Holds.state (C := fun t => other.Unforged (store.target d) d t)
    ((commit_rewrites hs (.inl rfl) requested).mono ?_ ?_)
  · rintro r t ⟨-, ⟨-, -, hrewritten⟩ | ⟨-, hfaulty | ⟨rfl, -⟩⟩⟩
    · exact unforged_of_rewritten hneighbours hsealed Bool.false_ne_true hrewritten
    · cases hfaulty
    · exact fun _ => rfl
  · rintro t ⟨-, rfl | hrewritten⟩
    · exact fun _ => rfl
    · exact unforged_of_rewritten hneighbours hsealed Bool.false_ne_true hrewritten

/-- A commit spares the other kind exactly if it is refused or that kind loses nothing. -/
theorem spares_iff (hneighbours : Neighbours store other) (hsealed : other.Sealed)
    (hcrc : 0 < store.crcOffset) (hsize : 0 < store.neighbourSize) (requested : ρ) :
    store.Spares other d requested ↔
      store.slots.isValid (store.candidateFor d requested) = false ∨
        other.remaining d (store.target d) = other.current d := by
  constructor
  · intro hspares
    by_contra hneither
    obtain ⟨hvalid, hlost⟩ := not_or.1 hneither
    have hvalid := eq_true_of_ne_false hvalid
    have hkept := hspares afterErase (by simp [afterErase]) (by simp [afterErase])
    have hframe : SlotFrame (store.target d) d
        (store.commit requested (machineOf afterErase d)).state.device :=
      commit_slotFrame requested (by simp [afterErase])
    rw [loaded_eq_iff] at hkept
    refine hlost (Eq.trans ?_ hkept)
    refine (current_of_lost (target_cases store d) hframe (hsealed.erased fun i hi => ?_)).symm
    have hfits := other.record_fits
    unfold recordSize at hi
    rw [commit_after_erase hcrc hsize hvalid]
    exact Device.withExternal_inside (by omega)
  · rintro hcond script hscript hunforged
    rw [loaded_eq_iff]
    rcases hcond with hinvalid | hremaining
    · have hsame : (store.commit requested (machineOf script d)).state.device = d :=
        Holds.state (C := fun t => t = d) (commit_refuses (env_faulty hscript d) (.inl rfl) hinvalid)
      rw [hsame]
    · have hframe : SlotFrame (store.target d) d
          (store.commit requested (machineOf script d)).state.device :=
        commit_slotFrame requested hscript
      have hslot : other.Unforged (store.target d) d
          (store.commit requested (machineOf script d)).state.device := by
        by_cases hfault : ∃ o ∈ script, ∃ status junk, o = .externalFault status junk
        · exact hunforged hfault
        · refine unforged_of_cuts hneighbours hsealed requested fun o ho => ?_
          cases o with
          | ok => exact trivial
          | externalFault status junk => exact absurd ⟨_, ho, status, junk, rfl⟩ hfault
          | internalFault junk => exact absurd rfl (hscript _ ho junk)
          | cut written => exact ⟨rfl, .inl rfl⟩
      cases hvalid : other.slots.isValid (other.slotOf
          (store.commit requested (machineOf script d)).state.device (store.target d)) with
      | true => exact current_of_kept (target_cases store d) hframe (hslot hvalid)
      | false => exact (current_of_lost (target_cases store d) hframe hvalid).trans hremaining

end Sharing

theorem checkpoint_neighbours :
    Neighbours DownloadCheckpointStorage.store UpdateHandoffStorage.store :=
  ⟨rfl, rfl, fun _ => rfl⟩

theorem handoff_neighbours :
    Neighbours UpdateHandoffStorage.store DownloadCheckpointStorage.store :=
  ⟨rfl, rfl, fun _ => rfl⟩

/--
A commit of one kind keeps the other kind's record over all cuts and failures
exactly if it is refused, or the other kind's record is still selected when the
sector that the commit rewrites is lost.
-/
theorem records_spare_each_other_iff (d : Device) :
    (∀ requested, DownloadCheckpointStorage.store.Spares UpdateHandoffStorage.store d requested ↔
      DownloadCheckpointStorage.store.slots.isValid
          (DownloadCheckpointStorage.store.candidateFor d requested) = false ∨
        UpdateHandoffStorage.store.remaining d (DownloadCheckpointStorage.store.target d) =
          UpdateHandoffStorage.store.current d) ∧
    ∀ requested, UpdateHandoffStorage.store.Spares DownloadCheckpointStorage.store d requested ↔
      UpdateHandoffStorage.store.slots.isValid
          (UpdateHandoffStorage.store.candidateFor d requested) = false ∨
        DownloadCheckpointStorage.store.remaining d (UpdateHandoffStorage.store.target d) =
          DownloadCheckpointStorage.store.current d :=
  ⟨spares_iff checkpoint_neighbours UpdateHandoffStorage.store_sealed (by decide) (by decide),
    spares_iff handoff_neighbours DownloadCheckpointStorage.store_sealed (by decide) (by decide)⟩

/-- A handoff of a small image. -/
def smallHandoff : UpdateHandoffRecord :=
  UpdateHandoff.finalize
    { magic := 0
      generation := 1
      formatVersion := 0
      updateId := 7
      targetVersion := 2
      imageSize := 8
      imageCrc32 := 0
      targetLoadAddress := UInt32.ofNat applicationStartAddress
      crc32 := 0 }

/-- A device with nothing in its external flash but that handoff, in the first sector. -/
def handoffDevice : Device where
  internal _ := 0xFF
  external a :=
    if a < ExternalPartition.metadataA.address then 0xFF
    else (UpdateHandoff.layout.encode smallHandoff).getD
      (a - ExternalPartition.metadataA.address) 0xFF
  history := []

theorem handoffDevice_part (i : Nat) : handoffDevice.part .metadataA i =
    (UpdateHandoff.layout.encode smallHandoff).getD i 0xFF := by
  simp only [Device.part, handoffDevice]
  rw [if_neg (by omega), Nat.add_sub_cancel_left]

theorem handoffDevice_erased {a : Nat}
    (h : ExternalPartition.metadataA.address + 4 * UpdateHandoff.layout.count ≤ a) :
    handoffDevice.external a = 0xFF := by
  have hlength := UpdateHandoff.layout.encode_length smallHandoff
  simp only [handoffDevice]
  rw [if_neg (by omega), List.getD_eq_default _ _ (by omega)]

theorem handoffDevice_current : UpdateHandoffStorage.store.current handoffDevice =
    some smallHandoff := by
  have hslot : UpdateHandoffStorage.store.slotOf handoffDevice .a = smallHandoff := by
    have hlength := UpdateHandoff.layout.encode_length smallHandoff
    have hbytes : handoffDevice.slice .metadataA UpdateHandoffStorage.store.offset
        (UpdateHandoff.layout.encode smallHandoff).length =
          UpdateHandoff.layout.encode smallHandoff := by
      rw [Device.slice_eq_window, window_eq_list_iff]
      intro i hi
      rw [handoffDevice_part, List.getD_eq_getElem _ _ hi,
        List.getD_eq_getElem _ _ (show UpdateHandoffStorage.store.offset + i < _ by
          rw [show UpdateHandoffStorage.store.offset + i = i from Nat.zero_add i]; exact hi)]
      congr 1
      exact Nat.zero_add i
    rw [hlength] at hbytes
    exact (congrArg UpdateHandoff.layout.decode hbytes).trans
      (UpdateHandoff.layout.decode_encode smallHandoff)
  have hother : UpdateHandoffStorage.store.slots.isValid
      (UpdateHandoffStorage.store.slotOf handoffDevice .b) = false := by
    refine UpdateHandoffStorage.store_sealed.erased fun i _ => handoffDevice_erased ?_
    have hend : ExternalPartition.metadataA.address + 4 * UpdateHandoff.layout.count ≤
      ExternalPartition.metadataB.address := by decide
    exact hend.trans (Nat.le_add_right _ _)
  have hvalid : UpdateHandoffStorage.store.slots.isValid smallHandoff = true := by
    rw [UpdateHandoffStorage.isValid_iff, UpdateHandoff.validate_eq_valid]
    exact ⟨rfl, rfl, by decide, by decide, by decide, by decide, by decide,
      UpdateHandoff.finalize_crc32 _⟩
  rw [current, SlotFormat.current_of_invalid_right hother, hslot, if_pos hvalid]

/-- The checkpoint is cleared over the handoff, and power is lost after the erase. -/
theorem handoff_lost_by_clear :
    UpdateHandoffStorage.store.loaded handoffDevice = some (.ok smallHandoff) ∧
      UpdateHandoffStorage.store.loaded (DownloadCheckpointStorage.store.commit
        DownloadCheckpoint.initIdle (machineOf afterErase handoffDevice)).state.device =
          some (.error .notFound) := by
  have hcheckpoint : ∀ slot, slot = .a ∨ slot = .b → DownloadCheckpointStorage.store.slots.isValid
      (DownloadCheckpointStorage.store.slotOf handoffDevice slot) = false := by
    rintro slot hslot
    refine DownloadCheckpointStorage.store_sealed.erased fun i _ => handoffDevice_erased ?_
    have hend : ∀ slot, slot = .a ∨ slot = .b →
        ExternalPartition.metadataA.address + 4 * UpdateHandoff.layout.count ≤
          (partitionForSlot slot).address + DownloadCheckpointStorage.store.offset := by
      rintro slot (rfl | rfl) <;> decide
    have hle := hend slot hslot
    omega
  have htarget : DownloadCheckpointStorage.store.target handoffDevice = .a := by
    unfold target SlotFormat.selectWriteSlot SlotFormat.selectNewestSlot
    simp [hcheckpoint .a (.inl rfl), hcheckpoint .b (.inr rfl)]
  have hframe : SlotFrame .a handoffDevice (DownloadCheckpointStorage.store.commit
      DownloadCheckpoint.initIdle (machineOf afterErase handoffDevice)).state.device := by
    rw [← htarget]
    exact commit_slotFrame _ (by simp [afterErase])
  have hlost : UpdateHandoffStorage.store.current (DownloadCheckpointStorage.store.commit
      DownloadCheckpoint.initIdle (machineOf afterErase handoffDevice)).state.device = none := by
    refine (current_of_lost (.inl rfl) hframe (UpdateHandoffStorage.store_sealed.erased
      fun i hi => ?_)).trans ?_
    · have hroom : ∀ i < UpdateHandoffStorage.store.recordSize,
          UpdateHandoffStorage.store.offset + i < extFlashSectorSize := by decide
      rw [commit_after_erase (by decide) (by decide)
        (DownloadCheckpointStorage.initIdle_candidate_valid handoffDevice), htarget]
      have hlt := hroom i hi
      exact Device.withExternal_inside ⟨Nat.le_add_right _ _, Nat.add_lt_add_left hlt _⟩
    · refine if_neg (Bool.not_eq_true _ ▸ UpdateHandoffStorage.store_sealed.erased fun i _ => ?_)
      have hend : ExternalPartition.metadataA.address + 4 * UpdateHandoff.layout.count ≤
        ExternalPartition.metadataB.address := by decide
      exact handoffDevice_erased (hend.trans (Nat.le_add_right _ _))
  exact ⟨loaded_ok_iff.2 handoffDevice_current, by rw [loaded_eq, hlost]⟩

end RecordStore

end SecureDeltaOta
