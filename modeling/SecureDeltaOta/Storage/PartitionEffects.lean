import SecureDeltaOta.Storage.FlashEffects

/-!
# Requests to the partitions of the external flash

What `ExternalFlashStorage_Write` and `ExternalFlashStorage_EraseRange` do to the memory of the
chip, for every partition, offset and length.  A request that fails changes nothing.
-/

namespace SecureDeltaOta.SpiDriver

open NorFlash

/-- A range inside a partition of the flash. -/
def InPartition (info : PartitionInfo) (offset length : UInt32) : Prop :=
  offset.toNat + length.toNat ≤ info.size.toNat

/-- Whole sectors inside a partition, at least one. -/
def WholeSectors (info : PartitionInfo) (offset length : UInt32) : Prop :=
  length.toNat ≠ 0 ∧ InPartition info offset length ∧ offset.toNat % sectorSize = 0 ∧
    length.toNat % sectorSize = 0

/-- No byte of the chip belongs to both. -/
def Disjoint (one two : PartitionInfo) : Prop :=
  ∀ a : Nat, ¬ ((one.address.toNat ≤ a ∧ a < one.address.toNat + one.size.toNat) ∧
    (two.address.toNat ≤ a ∧ a < two.address.toNat + two.size.toNat))

theorem partitions_whole : ∀ info ∈ partitions, info.address.toNat % sectorSize = 0 ∧
    info.address.toNat + info.size.toNat ≤ extFlashSize.toNat := by
  decide

theorem getPartition_mem {partition : UInt32} {info : PartitionInfo}
    (h : getPartition partition = some info) : info ∈ partitions :=
  List.mem_of_getElem? h

theorem getPartition_disjoint {first second : UInt32} {one two : PartitionInfo}
    (hfirst : getPartition first = some one) (hsecond : getPartition second = some two)
    (hne : first ≠ second) : Disjoint one two := by
  have hpairwise : ∀ i < partitions.length, ∀ j < partitions.length, i ≠ j →
      ∀ one ∈ partitions[i]?, ∀ two ∈ partitions[j]?,
        one.address.toNat + one.size.toNat ≤ two.address.toNat ∨
          two.address.toNat + two.size.toNat ≤ one.address.toNat := by
    decide
  obtain ⟨hi, -⟩ := List.getElem?_eq_some_iff.1 hfirst
  obtain ⟨hj, -⟩ := List.getElem?_eq_some_iff.1 hsecond
  have hindex : first.toNat ≠ second.toNat := fun heq => hne (UInt32.toNat_inj.1 heq)
  have happart := hpairwise _ hi _ hj hindex one hfirst two hsecond
  intro a hboth
  omega

/-- What a request to a partition does: it returns, it succeeds exactly when it is allowed there,
and the memory is then the given one; a request that fails leaves the memory as it is. -/
def Effects (found : Option PartitionInfo) (d : Driver) (allowed : PartitionInfo → Prop)
    (memory : PartitionInfo → Nat → UInt8) (run : Option (Bool × Driver)) : Prop :=
  ∃ ok after, run = some (ok, after) ∧ Ready after ∧
    (ok = true ↔ ∃ info, found = some info ∧ allowed info) ∧
    (ok = false → after.chip.memory = d.chip.memory) ∧
    (ok = true → ∀ info, found = some info → after.chip.memory = memory info)

section Requests

variable {part : Part} {d : Driver} {allowed : PartitionInfo → Prop}
  {memory : PartitionInfo → Nat → UInt8}

theorem Effects.refused {found : Option PartitionInfo} (h : Ready d)
    (hrefused : ∀ info, found = some info → ¬ allowed info) :
    Effects found d allowed memory (some (false, d)) := by
  refine ⟨false, d, rfl, h, ⟨fun hfalse => ?_, fun hallowed => ?_⟩, fun _ => rfl, fun hfalse => ?_⟩
  · cases hfalse
  · obtain ⟨info, hfound, hallowed⟩ := hallowed
    exact absurd hallowed (hrefused info hfound)
  · cases hfalse

theorem Effects.answered {info : PartitionInfo} {ok : Bool} {after : Driver} (h : Ready after)
    (hok : ok = true ↔ allowed info)
    (hmemory : after.chip.memory = if ok then memory info else d.chip.memory) :
    Effects (some info) d allowed memory (some (ok, after)) := by
  refine ⟨ok, after, rfl, h, ⟨fun htrue => ⟨info, rfl, hok.1 htrue⟩, fun hallowed => ?_⟩,
    fun hfalse => ?_, fun htrue other hother => ?_⟩
  · obtain ⟨other, hother, hallowed⟩ := hallowed
    cases hother
    exact hok.2 hallowed
  · rw [hmemory, hfalse]
    rfl
  · cases hother
    rw [hmemory, htrue]
    rfl

theorem externalFlashStorageWrite_effects (hpart : InTime part) (h : Ready d)
    {partition offset length : UInt32} {data : List UInt8} (hlength : data.length = length.toNat) :
    Effects (getPartition partition) d
      (fun info => InPartition info offset length ∧
        OnlyClears d.chip.memory (info.address.toNat + offset.toNat) data)
      (fun info => withData d.chip.memory (info.address.toNat + offset.toNat) data)
      (externalFlashStorageWrite part partition offset data length d) := by
  have hsize : extFlashSize.toNat < 2 ^ 24 := by decide
  unfold externalFlashStorageWrite resolveRange
  cases hinfo : getPartition partition with
  | none => exact .refused h fun info hnone => by cases hnone
  | some info =>
      dsimp only
      by_cases hin : InPartition info offset length
      · obtain ⟨-, hinside⟩ := partitions_whole info (getPartition_mem hinfo)
        unfold InPartition at hin
        rw [if_neg (by rw [isRangeValid_iff.2 hin]; exact Bool.true_eq_false.mp)]
        obtain ⟨address, haddress, haddressNat⟩ :=
          add_some (a := info.address) (b := offset) (by omega)
        obtain ⟨ok, after, hafter, hready, hok, hmemory⟩ := write_eq hpart h address
          hlength (by omega)
        rw [haddressNat] at hok hmemory
        simp only [haddress, Option.bind_eq_bind, Option.bind_some, pure, hafter]
        exact .answered hready (hok.trans (and_iff_right hin).symm) hmemory
      · rw [if_pos (Bool.eq_false_iff.2 fun htrue => hin (isRangeValid_iff.1 htrue))]
        refine .refused h fun other hother hallowed => ?_
        cases hother
        exact hin hallowed.1

/-- The checks of the erase. -/
theorem eraseRange_refused {info : PartitionInfo} {offset length : UInt32} :
    (length = 0 ∨ isRangeValid info.size offset length = false ∨
      isSectorAligned offset = false ∨ length &&& (extFlashSectorSize - 1) ≠ 0) ↔
        ¬ WholeSectors info offset length := by
  have hzero : length = 0 ↔ length.toNat = 0 := by
    rw [← UInt32.toNat_inj]
    rfl
  have hrange : isRangeValid info.size offset length = false ↔
      ¬ InPartition info offset length := by
    rw [← Bool.not_eq_true, isRangeValid_iff]
    rfl
  have haligned : isSectorAligned offset = false ↔ ¬ offset.toNat % sectorSize = 0 := by
    rw [← Bool.not_eq_true, isSectorAligned_iff]
  rw [hzero, hrange, haligned, ne_eq, and_sector_eq_zero, WholeSectors]
  tauto

theorem externalFlashStorageEraseRange_effects (hpart : InTime part) (h : Ready d)
    {partition offset length : UInt32} :
    Effects (getPartition partition) d (fun info => WholeSectors info offset length)
      (fun info => withErased d.chip.memory (info.address.toNat + offset.toNat) length.toNat)
      (externalFlashStorageEraseRange part partition offset length d) := by
  have hsize : extFlashSize.toNat < 2 ^ 24 := by decide
  have hzero : (0 : UInt32).toNat = 0 := rfl
  unfold externalFlashStorageEraseRange
  cases hinfo : getPartition partition with
  | none => exact .refused h fun info hnone => by cases hnone
  | some info =>
      dsimp only
      by_cases hwhole : WholeSectors info offset length
      · obtain ⟨haligned, hinside⟩ := partitions_whole info (getPartition_mem hinfo)
        rw [if_neg fun hrefused => eraseRange_refused.1 hrefused hwhole]
        obtain ⟨-, hin, hoffset, hlength⟩ := id hwhole
        unfold InPartition at hin
        obtain ⟨address, haddress, haddressNat⟩ :=
          add_some (a := info.address) (b := offset) (by omega)
        -- a sector of the partition is one of the chip, as the partition starts at a sector
        have hstart : address.toNat % sectorSize = 0 := by
          rw [haddressNat, Nat.add_mod, haligned, hoffset, Nat.zero_mod]
        obtain ⟨after, hafter, hready, hmemory⟩ := eraseLoop_eq hpart hstart hlength (by omega)
          (length.toNat + 1) 0 rfl (by omega) (by omega) h
          (by rw [hzero, withErased_zero])
        simp only [haddress, Option.bind_eq_bind, Option.bind_some, isSectorAligned_iff.2 hstart,
          Bool.true_eq_false, if_false, hafter]
        rw [haddressNat] at hmemory
        exact .answered hready (iff_of_true rfl hwhole) hmemory
      · rw [if_pos (eraseRange_refused.2 hwhole)]
        refine .refused h fun other hother => ?_
        cases hother
        exact hwhole

end Requests

/-- On a chip that works, a write to a partition returns without a wrapped address; it succeeds
exactly when the range lies in the partition and the data only clears bits, and then stores the
data and nothing else.  An erase succeeds exactly on whole sectors of the partition, and then
erases these and nothing else.  A request that fails changes no byte, and no byte of the chip
belongs to two partitions. -/
theorem external_flash_exact (part : Part) (d : Driver) (hpart : InTime part) (hready : Ready d) :
    (∀ (partition offset length : UInt32) (data : List UInt8), data.length = length.toNat →
      Effects (getPartition partition) d
        (fun info => InPartition info offset length ∧
          OnlyClears d.chip.memory (info.address.toNat + offset.toNat) data)
        (fun info => withData d.chip.memory (info.address.toNat + offset.toNat) data)
        (externalFlashStorageWrite part partition offset data length d)) ∧
    (∀ partition offset length : UInt32,
      Effects (getPartition partition) d (fun info => WholeSectors info offset length)
        (fun info => withErased d.chip.memory (info.address.toNat + offset.toNat) length.toNat)
        (externalFlashStorageEraseRange part partition offset length d)) ∧
    (∀ first second one two, getPartition first = some one → getPartition second = some two →
      first ≠ second → Disjoint one two) := by
  refine ⟨?_, ?_, ?_⟩
  · intro partition offset length data hlength
    exact externalFlashStorageWrite_effects hpart hready hlength
  · intro partition offset length
    exact externalFlashStorageEraseRange_effects hpart hready
  · intro first second one two hfirst hsecond hne
    exact getPartition_disjoint hfirst hsecond hne

/-- An erased chip of the size the driver expects. -/
def erasedPart : Part := ⟨extFlashSize.toNat, 5, 100⟩

def erasedDriver : Driver := ⟨⟨fun _ => 0xFF, false, 0⟩, true, .ok⟩

/-- Three bytes that cross the end of a page. -/
theorem external_flash_exact_crossing :
    InTime erasedPart ∧ Ready erasedDriver ∧
    (∃ after, externalFlashStorageWrite erasedPart 2 254 [1, 2, 3] 3 erasedDriver =
      some (true, after) ∧
        after.chip.memory = withData erasedDriver.chip.memory 0x20FE [1, 2, 3]) := by
  have hpart : InTime erasedPart := ⟨by decide, by decide, by decide⟩
  have hready : Ready erasedDriver := ⟨rfl, rfl⟩
  obtain ⟨ok, after, hrun, -, hok, -, hmemory⟩ :=
    (external_flash_exact erasedPart erasedDriver hpart hready).1 2 254 3 [1, 2, 3] rfl
  have hclears : OnlyClears erasedDriver.chip.memory (0x2000 + 254) [1, 2, 3] := by
    unfold OnlyClears
    decide
  have htrue : ok = true := hok.2 ⟨⟨0x2000, 0x20000⟩, rfl, by unfold InPartition; decide, hclears⟩
  rw [htrue] at hrun
  exact ⟨hpart, hready, after, hrun, hmemory htrue ⟨0x2000, 0x20000⟩ rfl⟩

end SecureDeltaOta.SpiDriver
