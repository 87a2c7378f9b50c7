import Mathlib.Data.Nat.Bitwise
import SecureDeltaOta.App.OtaReceiver
import SecureDeltaOta.Storage.RecordCommit

/-!
# Storing a download

What the receiver does to the external flash while it works: sectors are erased
once, before the first byte of a packet is written to them, and the bytes already
received are never erased. The bitmap of erased sectors says which sectors are
free from the next offset on.
-/

namespace SecureDeltaOta

open Memory Crash

theorem Device.checkpoint_valid {d : Device} {c : DownloadCheckpointRecord}
    (h : d.checkpoint = some c) : DownloadCheckpoint.validate c = .valid :=
  DownloadCheckpointStorage.isValid_iff.1 (SlotFormat.current_isValid h)

theorem Device.slice_congr {d d' : Device} {p : ExternalPartition} {offset length bound : Nat}
    (h : ∀ i < bound, d'.part p i = d.part p i) (hle : offset + length ≤ bound) :
    d'.slice p offset length = d.slice p offset length := by
  unfold Device.slice
  rw [window_eq_iff]
  intro i hi
  rw [Nat.add_assoc]
  exact h _ (by omega)

namespace OtaReceiver

/-! ## The bitmap of erased sectors -/

/-- The sector is marked as erased. -/
def Marked (bitmap : UInt32) (sector : Nat) : Prop :=
  bitmap &&& sectorMask sector ≠ 0

instance (bitmap : UInt32) (sector : Nat) : Decidable (Marked bitmap sector) :=
  inferInstanceAs (Decidable (_ ≠ _))

theorem sectorMask_toNat {sector : Nat} (h : sector < 32) :
    (sectorMask sector).toNat = 2 ^ sector := by
  interval_cases sector <;> rfl

theorem marked_iff {bitmap : UInt32} {sector : Nat} (h : sector < 32) :
    Marked bitmap sector ↔ bitmap.toNat.testBit sector = true := by
  unfold Marked
  rw [Ne, ← UInt32.toNat_inj, UInt32.toNat_and, sectorMask_toNat h, Nat.and_two_pow,
    UInt32.toNat_zero]
  cases bitmap.toNat.testBit sector <;> simp

theorem not_marked_zero (sector : Nat) : ¬ Marked 0 sector := by
  simp [Marked]

theorem marked_or {bitmap : UInt32} {sector other : Nat} (h : sector < 32) (ho : other < 32) :
    Marked (bitmap ||| sectorMask other) sector ↔ Marked bitmap sector ∨ sector = other := by
  rw [marked_iff h, marked_iff h, UInt32.toNat_or, sectorMask_toNat ho, Nat.testBit_or,
    Nat.testBit_two_pow]
  by_cases heq : other = sector
  · simp [heq]
  · simp [heq, Ne.symm heq]

/-- The sectors below a checkpoint are marked, and no others. -/
theorem marked_completed {offset : UInt32} (hle : offset.toNat ≤ extIncomingSize) {sector : Nat}
    (h : sector < 32) :
    Marked (completedSectorBitmap offset) sector ↔ sector < offset.toNat / extFlashSectorSize := by
  have hsectors : ∀ n ≤ 32, Marked ((List.range n).foldl
      (fun bitmap sector => bitmap ||| sectorMask sector) 0) sector ↔ sector < n := by
    intro n hn
    induction n with
    | zero => simp [not_marked_zero]
    | succ n ih =>
        rw [List.range_succ, List.foldl_append, List.foldl_cons, List.foldl_nil,
          marked_or h (by omega), ih (by omega)]
        omega
  refine hsectors _ ?_
  unfold extIncomingSize at hle
  unfold extFlashSectorSize
  omega

/-- The marks fit an offset: what is to be written next is free, what was written is kept. -/
structure Marks (bitmap : UInt32) (offset : Nat) (d : Device) : Prop where
  below : ∀ sector < 32, sector * extFlashSectorSize < offset → Marked bitmap sector
  erased : ∀ sector < 32, Marked bitmap sector → ∀ i, offset ≤ i →
    sector * extFlashSectorSize ≤ i → i < (sector + 1) * extFlashSectorSize →
    d.part .incoming i = 0xFF

theorem marks_zero (d : Device) : Marks 0 0 d :=
  ⟨fun _ _ h => absurd h (Nat.not_lt_zero _), fun _ _ h => absurd h (not_marked_zero _)⟩

/-- A restored session has no marks beyond its checkpoint. -/
theorem marks_completed {offset : UInt32} (hle : offset.toNat ≤ extIncomingSize)
    (haligned : offset.toNat % extFlashSectorSize = 0) (d : Device) :
    Marks (completedSectorBitmap offset) offset.toNat d := by
  refine ⟨fun sector h hlow => ?_, fun sector h hmarked i hi _ hhigh => ?_⟩
  · rw [marked_completed hle h]
    unfold extFlashSectorSize at *
    omega
  · rw [marked_completed hle h] at hmarked
    unfold extFlashSectorSize at *
    omega

theorem Marks.congr {bitmap : UInt32} {offset : Nat} {d d' : Device} (h : Marks bitmap offset d)
    (hsame : ∀ i < ExternalPartition.incoming.size, d'.part .incoming i = d.part .incoming i) :
    Marks bitmap offset d' := by
  refine ⟨h.below, fun sector hsector hmarked i hi hlow hhigh => ?_⟩
  have hsize : ExternalPartition.incoming.size = 131072 := rfl
  rw [hsame i (by unfold extFlashSectorSize at *; omega)]
  exact h.erased sector hsector hmarked i hi hlow hhigh

/-! ## Erasing and writing -/

/-- Only the partition of incoming artifacts changes. -/
abbrev IncomingFrame : Device → Device → Prop :=
  PartFrame (fun _ => True) fun p => p ≠ .incoming

theorem allows_incomingFrame {lo hi : Nat} (hlo : ExternalPartition.incoming.address ≤ lo)
    (hhi : hi ≤ ExternalPartition.incoming.address + ExternalPartition.incoming.size) :
    Allows IncomingFrame lo hi :=
  (allows_partFrame (p := .incoming) (by simp)).mono hlo hhi

section Storing

variable {μ : Mode} {s : Machine} {bitmap offset : UInt32} {length : Nat}

/-- The bytes below an offset are kept, and nothing outside the partition changes. -/
structure KeepsBelow (offset : Nat) (d d' : Device) : Prop where
  frame : IncomingFrame d d'
  kept : ∀ i < offset, d'.part .incoming i = d.part .incoming i

instance (offset : Nat) : IsPreorder Device (KeepsBelow offset) where
  refl d := ⟨refl_of IncomingFrame d, fun _ _ => rfl⟩
  trans _ _ _ h h' := ⟨trans_of IncomingFrame h.frame h'.frame,
    fun i hi => (h'.kept i hi).trans (h.kept i hi)⟩

theorem allows_keepsBelow {offset lo hi : Nat}
    (hlo : ExternalPartition.incoming.address + offset ≤ lo)
    (hhi : hi ≤ ExternalPartition.incoming.address + ExternalPartition.incoming.size) :
    Allows (KeepsBelow offset) lo hi := by
  intro d start n bytes hstart hend
  refine ⟨allows_incomingFrame (by omega) hhi d start n bytes hstart hend, fun i hi => ?_⟩
  exact Device.withExternal_outside (by omega)

theorem Marks.erase {d d' : Device} {sector offset : Nat} (h : Marks bitmap offset d)
    (hsector : sector < 32)
    (herased : ∀ i < extFlashSectorSize,
      d'.part .incoming (sector * extFlashSectorSize + i) = 0xFF)
    (hother : ∀ i < ExternalPartition.incoming.size, i < sector * extFlashSectorSize ∨
      (sector + 1) * extFlashSectorSize ≤ i → d'.part .incoming i = d.part .incoming i) :
    Marks (bitmap ||| sectorMask sector) offset d' := by
  refine ⟨fun other hlt hlow => (marked_or hlt hsector).2 (.inl (h.below other hlt hlow)), ?_⟩
  intro other hlt hmarked i hi hlow hhigh
  have hsize : ExternalPartition.incoming.size = 131072 := rfl
  by_cases heq : other = sector
  · subst heq
    have hbyte := herased (i - other * extFlashSectorSize) (by
      unfold extFlashSectorSize at *
      omega)
    rwa [Nat.add_sub_cancel' hlow] at hbyte
  · rw [hother i (by unfold extFlashSectorSize at *; omega)
      (by unfold extFlashSectorSize at *; omega)]
    refine h.erased other hlt ?_ i hi hlow hhigh
    exact ((marked_or hlt hsector).1 hmarked).resolve_right heq

/-- Sectors that are not marked are erased; none of them holds a byte below the offset. -/
theorem ensureIncomingSectorsErased_holds (hs : Env μ true s) (hfault : ¬ μ.Faulty)
    (hmarks : Marks bitmap offset.toNat s.device) (hpos : 0 < length)
    (hrange : offset.toNat + length ≤ extIncomingSize) :
    Holds μ true (ensureIncomingSectorsErased bitmap offset length s)
      (fun r d => KeepsBelow offset.toNat s.device d ∧ r.1 = true ∧
        Marks r.2 offset.toNat d ∧
        ∀ sector < 32, sector * extFlashSectorSize < offset.toNat + length → Marked r.2 sector)
      (KeepsBelow offset.toNat s.device) := by
  have hsize : ExternalPartition.incoming.size = 131072 := rfl
  have hmax : extIncomingSize = 131072 := rfl
  unfold ensureIncomingSectorsErased
  rw [if_neg (by omega)]
  generalize hlast : (offset.toNat + length - 1) / extFlashSectorSize = last
  refine Holds.loopThen (I := fun st d => KeepsBelow offset.toNat s.device d ∧
      Marks st.2 offset.toNat d ∧ ∀ sector < st.1, sector ≤ last → Marked st.2 sector)
    (fun st => last + 1 - st.1) ?_ ?_ ?_ hs (Nat.sub_le _ _) ⟨refl_of _ _, hmarks, ?_⟩
  · intro st d hguard _
    simp only [decide_eq_true_eq] at hguard
    omega
  · rintro ⟨sector, marks⟩ t ht hguard ⟨hkept, hmarks, hdone⟩
    simp only [decide_eq_true_eq] at hguard hkept hmarks hdone ⊢
    have hlt : sector < 32 := by
      unfold extFlashSectorSize at *
      omega
    split
    · next hfree =>
      have hfree : ¬ Marked marks sector := not_not.2 hfree
      -- an unmarked sector begins at or after the offset
      have hstart : offset.toNat ≤ sector * extFlashSectorSize := by
        by_contra hlow
        exact hfree (hmarks.below sector hlt (by omega))
      have hend : sector * extFlashSectorSize + extFlashSectorSize ≤ 131072 := by
        unfold extFlashSectorSize
        omega
      refine Holds.bind (((eraseRange_holds (p := .incoming) ht (.inl rfl) (by decide) (by omega)
        (Nat.mul_mod_left _ _) (Nat.mod_self _)).and_keeps
          (eraseRange_keeps fun _ => allows_keepsBelow (by omega) (by omega))).and_keeps
          (eraseRange_keeps fun _ => allows_outsideFrame le_rfl le_rfl)) ?_
        (fun _ hd => trans_of _ hkept hd.1.2)
      rintro ok u hu ⟨⟨⟨rfl, herased⟩ | ⟨-, hfaulty⟩, hkept'⟩, houtside⟩
      swap
      · exact absurd hfaulty hfault
      refine Holds.pure hu ⟨⟨trans_of _ hkept hkept', ?_, ?_⟩, by omega⟩
      · refine hmarks.erase hlt herased fun i _ hi => houtside.external _ ?_
        unfold extFlashSectorSize at *
        omega
      · intro other hother hle
        have hother' : other < 32 := by omega
        rw [marked_or hother' hlt]
        rcases Nat.lt_succ_iff_lt_or_eq.1 hother with hless | rfl
        · exact .inl (hdone other hless hle)
        · exact .inr rfl
    · next hmarked =>
      refine Holds.pure ht ⟨⟨hkept, hmarks, fun other hother hle => ?_⟩, by omega⟩
      rcases Nat.lt_succ_iff_lt_or_eq.1 hother with hless | rfl
      · exact hdone other hless hle
      · exact hmarked
  · rintro ⟨sector, marks⟩ t ht hguard ⟨hkept, hmarks, hdone⟩
    simp only [decide_eq_false_iff_not, not_le] at hguard
    refine Holds.pure ht ⟨hkept, rfl, hmarks, fun other hother hlow => ?_⟩
    have hle : other ≤ last := by
      unfold extFlashSectorSize at *
      omega
    exact hdone other (by dsimp only; omega) hle
  · intro sector hless _
    dsimp only at hless
    refine hmarks.below sector ?_ ?_
    · unfold extFlashSectorSize at *
      omega
    · unfold extFlashSectorSize at *
      omega

end Storing

/-! ## Checkpoints -/

/-- The record is a checkpoint of the session. -/
structure Saves (g : Session) (state : DownloadCheckpointState) (offset : UInt32)
    (c : DownloadCheckpointRecord) : Prop where
  state : c.state = state.code
  updateId : c.updateId = g.updateId
  targetVersion : c.targetVersion = g.targetVersion
  imageSize : c.imageSize = g.expectedSize
  imageCrc32 : c.imageCrc32 = g.artifactCrc32
  nextOffset : c.nextOffset = offset

/-- What a session must satisfy so that it can be checkpointed. -/
structure Checkpointable (g : Session) : Prop where
  updateId : g.updateId ≠ 0
  size_pos : g.expectedSize ≠ 0
  size_le : g.expectedSize.toNat ≤ extIncomingSize
  offset_le : g.nextOffset.toNat ≤ g.expectedSize.toNat

section Checkpoints

variable {μ : Mode} {s : Machine} {g : Session} {state : DownloadCheckpointState} {offset : UInt32}

/-- The record committed for a session. -/
abbrev sessionRecord (g : Session) (state : DownloadCheckpointState) (offset : UInt32) :
    DownloadCheckpointRecord :=
  DownloadCheckpoint.initSession state g.updateId g.targetVersion g.expectedSize g.artifactCrc32
    offset

theorem candidateFor_saves (d : Device) : Saves g state offset
    (DownloadCheckpointStorage.store.candidateFor d (sessionRecord g state offset)) :=
  ⟨rfl, rfl, rfl, rfl, rfl, rfl⟩

/-- An aligned offset of a session can be checkpointed, and so can its end. -/
theorem candidateFor_valid (hg : Checkpointable g) (hle : offset.toNat ≤ g.expectedSize.toNat)
    (hplace : state = .receiving ∧ offset.toNat % extFlashSectorSize = 0 ∨
      state = .artifactReady ∧ offset = g.expectedSize) (d : Device) :
    DownloadCheckpointStorage.store.slots.isValid
      (DownloadCheckpointStorage.store.candidateFor d (sessionRecord g state offset)) = true := by
  have hgen := nextGeneration_ne_zero (DownloadCheckpointStorage.store.slots.currentGeneration
    (DownloadCheckpointStorage.store.slotOf d .a) (DownloadCheckpointStorage.store.slotOf d .b))
  unfold RecordStore.candidateFor
  generalize nextGeneration (DownloadCheckpointStorage.store.slots.currentGeneration
    (DownloadCheckpointStorage.store.slotOf d .a)
    (DownloadCheckpointStorage.store.slotOf d .b)) = generation at hgen ⊢
  have hstate : state.code ≤ DownloadCheckpointState.artifactReady.code ∧
      state.code ≠ DownloadCheckpointState.idle.code := by
    rcases hplace with ⟨rfl, -⟩ | ⟨rfl, -⟩ <;> decide
  refine DownloadCheckpointStorage.isValid_iff.2 (DownloadCheckpoint.validate_eq_valid.2
    ⟨rfl, rfl, hgen, hstate.1, fun hidle => absurd hidle hstate.2, fun _ => ?_, rfl⟩)
  refine DownloadCheckpoint.sessionFieldsValid_iff.2
    ⟨hg.updateId, hg.size_pos, hg.size_le, hle, ?_⟩
  rcases hplace with ⟨rfl, haligned⟩ | ⟨rfl, hend⟩
  · exact .inl ⟨rfl, haligned⟩
  · exact .inr ⟨rfl, hend⟩

theorem checkpoint_frame (slot : Slot) :
    Allows DownloadCheckpointStorage.CheckpointFrame (RecordStore.partitionForSlot slot).address
      ((RecordStore.partitionForSlot slot).address + (RecordStore.partitionForSlot slot).size) := by
  refine allows_partFrame ?_
  unfold RecordStore.partitionForSlot
  split <;> simp

theorem persistDownloadCheckpoint_holds (hs : Env μ true s) (hfault : ¬ μ.Faulty) (hg : Checkpointable g)
    (hle : offset.toNat ≤ g.expectedSize.toNat)
    (hplace : state = .receiving ∧ offset.toNat % extFlashSectorSize = 0 ∨
      state = .artifactReady ∧ offset = g.expectedSize) :
    Holds μ true (persistDownloadCheckpoint g state offset s)
      (fun r d => DownloadCheckpointStorage.CheckpointFrame s.device d ∧
        r = (.ok, { g with persistedOffset := offset }) ∧
        ∃ c, d.checkpoint = some c ∧ Saves g state offset c)
      (fun d => DownloadCheckpointStorage.CheckpointFrame s.device d ∧
        (d.checkpoint = s.device.checkpoint ∨ ∃ c, d.checkpoint = some c ∧
          Saves g state offset c)) := by
  refine Holds.bind ((RecordStore.commit_holds DownloadCheckpointStorage.store_sealed hs (.inl rfl)
    (candidateFor_valid hg hle hplace s.device)).and_keeps
      (RecordStore.commit_keeps checkpoint_frame _)) ?_ ?_
  · rintro r t ht ⟨⟨rfl, hcurrent⟩ | ⟨-, hfaulty⟩, hframe⟩
    · exact Holds.pure ht ⟨hframe, rfl, _, hcurrent, candidateFor_saves s.device⟩
    · exact absurd hfaulty hfault
  · rintro d ⟨hcurrent, hframe⟩
    exact ⟨hframe, hcurrent.imp_right fun h => ⟨_, h, candidateFor_saves s.device⟩⟩

end Checkpoints

/-! ## Sessions that receive -/

/-- The partitions a download changes. -/
abbrev DownloadFrame : Device → Device → Prop :=
  PartFrame (fun _ => True) fun p => p ≠ .incoming ∧ p ≠ .metadataA ∧ p ≠ .metadataB

/-- The newest checkpoint is one of the session. -/
def Saved (g : Session) (state : DownloadCheckpointState) (offset : UInt32) (d : Device) : Prop :=
  ∃ c, d.checkpoint = some c ∧ Saves g state offset c

/-- The invariant of a session in `RECEIVING`. -/
structure Receiving (g : Session) (d : Device) : Prop extends Checkpointable g where
  marks : Marks g.erasedSectorBitmap g.nextOffset.toNat d
  last : g.hasLastData = true →
    0 < g.lastDataLength ∧ g.lastDataOffset.toNat + g.lastDataLength = g.nextOffset.toNat
  saved : Saved g .receiving g.persistedOffset d
  persisted_le : g.persistedOffset.toNat ≤ g.nextOffset.toNat
  boundary : g.nextOffset.toNat % extFlashSectorSize = 0 → g.persistedOffset = g.nextOffset

/-- The invariant of a session in `ARTIFACT_READY`. -/
structure Ready (g : Session) (d : Device) : Prop extends Checkpointable g where
  complete : g.nextOffset = g.expectedSize
  saved : Saved g .artifactReady g.expectedSize d

/-- The bytes of a packet are stored behind the ones before it. -/
structure Appended (offset : Nat) (payload : List UInt8) (d d' : Device) : Prop where
  frame : DownloadFrame d d'
  kept : ∀ i < offset, d'.part .incoming i = d.part .incoming i
  data : d'.slice .incoming offset payload.length = payload

/-- The session has moved on by one packet. -/
structure Advances (g : Session) (request : OtaPacket) (g' : Session) : Prop where
  state : g'.state = g.state
  updateId : g'.updateId = g.updateId
  targetVersion : g'.targetVersion = g.targetVersion
  expectedSize : g'.expectedSize = g.expectedSize
  artifactCrc32 : g'.artifactCrc32 = g.artifactCrc32
  resetPending : g'.resetPending = g.resetPending
  storageReady : g'.storageReady = g.storageReady
  nextOffset : g'.nextOffset.toNat = g.nextOffset.toNat + request.payload.length
  sequence : g'.expectedSequence = g.expectedSequence + 1

section Data

variable {μ : Mode} {s : Machine} {g : Session} {request : OtaPacket}

theorem refuseData_eq_none : refuseData g request = none ↔
    request.sequence = g.expectedSequence ∧ request.offset = g.nextOffset ∧
      request.payload.length ≤ (g.expectedSize - g.nextOffset).toNat := by
  unfold refuseData
  split_ifs with hsequence hoffset hlength
  · simp [hsequence]
  · simp [hoffset]
  · simp only [false_iff]
    omega
  · exact iff_of_true rfl ⟨not_not.1 hsequence, not_not.1 hoffset, not_lt.1 hlength⟩

theorem remaining_toNat (hle : g.nextOffset.toNat ≤ g.expectedSize.toNat) :
    (g.expectedSize - g.nextOffset).toNat = g.expectedSize.toNat - g.nextOffset.toNat :=
  UInt32.toNat_sub_of_le _ _ (UInt32.le_iff_toNat_le.2 hle)

/-- The bytes of a packet leave the sectors behind them free. -/
theorem Marks.append {bitmap : UInt32} {offset length : Nat} {d d' : Device}
    (h : Marks bitmap offset d)
    (hbelow : ∀ sector < 32, sector * extFlashSectorSize < offset + length → Marked bitmap sector)
    (hsame : ∀ i, offset + length ≤ i → i < ExternalPartition.incoming.size →
      d'.part .incoming i = d.part .incoming i) : Marks bitmap (offset + length) d' := by
  refine ⟨hbelow, fun sector hsector hmarked i hi hlow hhigh => ?_⟩
  have hsize : ExternalPartition.incoming.size = 131072 := rfl
  rw [hsame i hi (by unfold extFlashSectorSize at *; omega)]
  exact h.erased sector hsector hmarked i (by omega) hlow hhigh

/-- What is to be written next is free. -/
theorem Marks.free {bitmap : UInt32} {offset length : Nat} {d : Device} (h : Marks bitmap offset d)
    (hbelow : ∀ sector < 32, sector * extFlashSectorSize < offset + length → Marked bitmap sector)
    (hrange : offset + length ≤ extIncomingSize) {i : Nat} (hi : i < length) :
    d.part .incoming (offset + i) = 0xFF := by
  have hmax : extIncomingSize = 131072 := rfl
  have hsector : (offset + i) / extFlashSectorSize < 32 := by
    unfold extFlashSectorSize
    omega
  have hlow : (offset + i) / extFlashSectorSize * extFlashSectorSize ≤ offset + i :=
    Nat.div_mul_le_self _ _
  refine h.erased _ hsector (hbelow _ hsector (by omega)) _ (Nat.le_add_right _ _) hlow ?_
  rw [Nat.add_mul, Nat.one_mul]
  exact Nat.lt_div_mul_add (by decide)

/-- The boundary of a sector is persisted when it is reached. -/
theorem persistReceiveBoundaryIfNeeded_holds (hs : Env μ true s) (hfault : ¬ μ.Faulty)
    (hg : Checkpointable g) (hsaved : Saved g .receiving g.persistedOffset s.device)
    (hle : g.persistedOffset.toNat ≤ g.nextOffset.toNat) :
    Holds μ true (persistReceiveBoundaryIfNeeded g s)
      (fun r d => DownloadCheckpointStorage.CheckpointFrame s.device d ∧
        ∃ persisted, r = (.ok, { g with persistedOffset := persisted }) ∧
          Saved g .receiving persisted d ∧ persisted.toNat ≤ g.nextOffset.toNat ∧
          (g.nextOffset.toNat % extFlashSectorSize = 0 → persisted = g.nextOffset))
      (fun d => DownloadCheckpointStorage.CheckpointFrame s.device d ∧
        (d.checkpoint = s.device.checkpoint ∨
          g.nextOffset.toNat % extFlashSectorSize = 0 ∧ Saved g .receiving g.nextOffset d)) := by
  unfold persistReceiveBoundaryIfNeeded
  split
  · next hnone =>
    refine Holds.pure hs ⟨refl_of _ _, g.persistedOffset, rfl, hsaved, hle, fun haligned => ?_⟩
    rcases hnone with h | h | h
    · rw [h, UInt32.toNat_zero, Nat.le_zero] at hle
      rw [h]
      exact UInt32.toNat_inj.1 hle
    · exact absurd haligned h
    · exact h
  · next hneeded =>
    simp only [not_or, not_not] at hneeded
    refine (persistDownloadCheckpoint_holds hs hfault hg hg.offset_le
      (.inl ⟨rfl, hneeded.2.1⟩)).mono ?_ ?_
    · rintro r d ⟨hframe, rfl, hsaved'⟩
      exact ⟨hframe, _, rfl, hsaved', le_rfl, fun _ => rfl⟩
    · rintro d ⟨hframe, hcheckpoint⟩
      exact ⟨hframe, hcheckpoint.imp_right fun h => ⟨hneeded.2.1, h⟩⟩

theorem toNat_add_length {offset : UInt32} {length : Nat}
    (h : offset.toNat + length ≤ extIncomingSize) :
    (offset + UInt32.ofNat length).toNat = offset.toNat + length := by
  have hmax : extIncomingSize = 131072 := rfl
  rw [UInt32.toNat_add, UInt32.toNat_ofNat_of_lt' (by
    have hsize : UInt32.size = 4294967296 := rfl
    omega)]
  exact Nat.mod_eq_of_lt (by omega)

theorem advanced_advances {bitmap : UInt32}
    (h : g.nextOffset.toNat + request.payload.length ≤ extIncomingSize) :
    Advances g request (advanced { g with erasedSectorBitmap := bitmap } request) :=
  ⟨rfl, rfl, rfl, rfl, rfl, rfl, rfl, toNat_add_length h, rfl⟩

theorem Advances.checkpointable {g' : Session} (h : Advances g request g') (hg : Checkpointable g)
    (hroom : g.nextOffset.toNat + request.payload.length ≤ g.expectedSize.toNat) :
    Checkpointable g' := by
  refine ⟨?_, ?_, ?_, ?_⟩
  · rw [h.updateId]
    exact hg.updateId
  · rw [h.expectedSize]
    exact hg.size_pos
  · rw [h.expectedSize]
    exact hg.size_le
  · rw [h.nextOffset, h.expectedSize]
    exact hroom

/-- A checkpoint does not tell the sessions apart. -/
theorem Advances.saves {g' : Session} {state : DownloadCheckpointState} {offset : UInt32}
    {c : DownloadCheckpointRecord} (h : Advances g request g') :
    Saves g' state offset c ↔ Saves g state offset c := by
  constructor
  · rintro ⟨hstate, hid, htarget, hsize, hcrc, hoffset⟩
    exact ⟨hstate, hid.trans h.updateId, htarget.trans h.targetVersion, hsize.trans h.expectedSize,
      hcrc.trans h.artifactCrc32, hoffset⟩
  · rintro ⟨hstate, hid, htarget, hsize, hcrc, hoffset⟩
    exact ⟨hstate, hid.trans h.updateId.symm, htarget.trans h.targetVersion.symm,
      hsize.trans h.expectedSize.symm, hcrc.trans h.artifactCrc32.symm, hoffset⟩

/-- What a power cut leaves of a packet that is being stored. -/
structure Interrupted (g : Session) (request : OtaPacket) (d d' : Device) : Prop where
  frame : DownloadFrame d d'
  kept : ∀ i < g.nextOffset.toNat, d'.part .incoming i = d.part .incoming i
  checkpoint : d'.checkpoint = d.checkpoint ∨
    d'.slice .incoming g.nextOffset.toNat request.payload.length = request.payload ∧
      ∃ offset : UInt32, offset.toNat = g.nextOffset.toNat + request.payload.length ∧
        Saved g .receiving offset d'

theorem downloadFrame_of_incoming {d d' : Device} (h : IncomingFrame d d') : DownloadFrame d d' :=
  h.mono (fun _ _ => trivial) fun _ ⟨p, hp, hin⟩ => ⟨p, hp.1, hin⟩

theorem downloadFrame_of_checkpoint {d d' : Device}
    (h : DownloadCheckpointStorage.CheckpointFrame d d') : DownloadFrame d d' :=
  h.mono (fun _ _ => trivial) fun _ ⟨p, hp, hin⟩ => ⟨p, hp.2, hin⟩

theorem checkpoint_of_incoming {d d' : Device} (h : IncomingFrame d d') :
    d'.checkpoint = d.checkpoint := by
  refine Device.checkpoint_congr ?_
  rintro p (rfl | rfl) i hi <;> exact h.part (by decide) hi

theorem incoming_of_checkpoint {d d' : Device}
    (h : DownloadCheckpointStorage.CheckpointFrame d d') {i : Nat}
    (hi : i < ExternalPartition.incoming.size) : d'.part .incoming i = d.part .incoming i :=
  h.part (by decide) hi

/-- The next packet of a session is stored and acknowledged. -/
theorem storeData_holds (hs : Env μ true s) (hfault : ¬ μ.Faulty) (h : Receiving g s.device)
    (hnext : refuseData g request = none) (hpos : 0 < request.payload.length) :
    Holds μ true (storeData g request s)
      (fun r d => ∃ g', r = ack g' request ∧ Advances g request g' ∧ Receiving g' d ∧
        Appended g.nextOffset.toNat request.payload s.device d)
      (Interrupted g request s.device) := by
  obtain ⟨-, hoffset, hroom⟩ := refuseData_eq_none.1 hnext
  rw [remaining_toNat h.offset_le] at hroom
  have hmax : extIncomingSize = 131072 := rfl
  have hsize : ExternalPartition.incoming.size = 131072 := rfl
  have hsizele := h.size_le
  have hle := h.offset_le
  unfold storeData
  rw [hoffset]
  have hcut : ∀ d, KeepsBelow g.nextOffset.toNat s.device d → Interrupted g request s.device d :=
    fun d hkept => ⟨downloadFrame_of_incoming hkept.frame, hkept.kept,
      .inl (checkpoint_of_incoming hkept.frame)⟩
  refine Holds.bind (ensureIncomingSectorsErased_holds hs hfault h.marks hpos (by omega)) ?_
    (fun _ hd => hcut _ hd)
  rintro ⟨erased, bitmap⟩ t ht ⟨hkept, herased, hmarks, hbelow⟩
  dsimp only at herased hmarks hbelow ⊢
  rw [herased, if_neg (by simp)]
  have hallows : Allows (KeepsBelow g.nextOffset.toNat)
      (ExternalPartition.incoming.address + g.nextOffset.toNat)
      (ExternalPartition.incoming.address + g.nextOffset.toNat + request.payload.length) :=
    allows_keepsBelow le_rfl (by omega)
  have hfree : ∀ i < request.payload.length,
      t.device.part .incoming (g.nextOffset.toNat + i) = 0xFF :=
    fun i hi => hmarks.free hbelow (by omega) hi
  refine Holds.bind (((storageWrite_holds (p := .incoming) ht (.inl rfl) (by omega)).and_keeps
    (storageWrite_keeps fun _ => hallows)).and_keeps
      (storageWrite_keeps fun _ => allows_outsideFrame le_rfl le_rfl)) ?_
    (fun _ hd => hcut _ (trans_of _ hkept hd.1.2))
  rintro ok u hu ⟨⟨⟨rfl, hwritten⟩ | ⟨-, hbad⟩, hkept'⟩, houtside⟩
  swap
  · refine absurd (hbad.resolve_left hfault) (not_not.2 (programmable_of_erased fun i hi => ?_))
    rw [Nat.add_assoc]
    exact hfree i hi
  rw [if_neg (by simp)]
  have hkept₂ := trans_of (KeepsBelow _) hkept hkept'
  refine Holds.bind (storageVerify_holds (p := .incoming) hu (.inl rfl) (by omega)) ?_
    (fun d hd => hcut d (hd ▸ hkept₂))
  rintro ok v hv ⟨hd, ⟨rfl, -⟩ | ⟨-, hbad⟩⟩
  swap
  · exact absurd hwritten (hbad.resolve_left hfault)
  rw [← hd] at hkept₂ hwritten houtside
  rw [if_neg (by simp)]
  have hmarks₂ : Marks bitmap (g.nextOffset.toNat + request.payload.length) v.device :=
    hmarks.append hbelow fun i hi _ => houtside.external _ (.inr (by omega))
  have hadvances : Advances g request (advanced { g with erasedSectorBitmap := bitmap } request) :=
    advanced_advances (by omega)
  have hcheckpointable := hadvances.checkpointable h.toCheckpointable (by omega)
  have hsaved : Saved (advanced { g with erasedSectorBitmap := bitmap } request) .receiving
      g.persistedOffset v.device := by
    obtain ⟨c, hc, hsaves⟩ := h.saved
    exact ⟨c, (checkpoint_of_incoming hkept₂.frame).trans hc, hadvances.saves.2 hsaves⟩
  refine Holds.bind (persistReceiveBoundaryIfNeeded_holds hv hfault hcheckpointable hsaved
    (by rw [hadvances.nextOffset]; exact h.persisted_le.trans (Nat.le_add_right _ _))) ?_ ?_
  · rintro r w hw ⟨hframe, persisted, rfl, hsaved', hpersisted, hboundary⟩
    have hsame : ∀ i < ExternalPartition.incoming.size,
        w.device.part .incoming i = v.device.part .incoming i :=
      fun i hi => incoming_of_checkpoint hframe hi
    have hmarks₃ : Marks bitmap (g.nextOffset.toNat + request.payload.length) w.device :=
      hmarks₂.congr hsame
    rw [← hadvances.nextOffset] at hmarks₃
    refine Holds.pure hw ⟨_, rfl, ?_, ⟨?_, hmarks₃, fun _ => ⟨hpos, ?_⟩, ?_, hpersisted, hboundary⟩,
      ⟨?_, ?_, ?_⟩⟩
    · exact ⟨rfl, rfl, rfl, rfl, rfl, rfl, rfl, hadvances.nextOffset, rfl⟩
    · exact ⟨hcheckpointable.updateId, hcheckpointable.size_pos, hcheckpointable.size_le,
        hcheckpointable.offset_le⟩
    · change request.offset.toNat + request.payload.length = _
      rw [hoffset]
      exact hadvances.nextOffset.symm
    · obtain ⟨c, hc, hsaves⟩ := hsaved'
      exact ⟨c, hc, hsaves.state, hsaves.updateId, hsaves.targetVersion, hsaves.imageSize,
        hsaves.imageCrc32, hsaves.nextOffset⟩
    · exact trans_of DownloadFrame (downloadFrame_of_incoming hkept₂.frame)
        (downloadFrame_of_checkpoint hframe)
    · exact fun i hi => (hsame i (by omega)).trans (hkept₂.kept i hi)
    · exact (Frame.slice hframe (p := .incoming) (by decide) (by omega)).trans hwritten
  · rintro d ⟨hframe, hcheckpoint⟩
    refine ⟨trans_of DownloadFrame (downloadFrame_of_incoming hkept₂.frame)
      (downloadFrame_of_checkpoint hframe), fun i hi => ?_, ?_⟩
    · exact (incoming_of_checkpoint hframe (by omega)).trans (hkept₂.kept i hi)
    · rcases hcheckpoint with hsame | ⟨-, c, hc, hsaves⟩
      · exact .inl (hsame.trans (checkpoint_of_incoming hkept₂.frame))
      · refine .inr ⟨?_, _, hadvances.nextOffset, c, hc, hadvances.saves.1 hsaves⟩
        exact (Frame.slice hframe (p := .incoming) (by decide) (by omega)).trans hwritten

end Data

end OtaReceiver

end SecureDeltaOta
