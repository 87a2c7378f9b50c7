import SecureDeltaOta.Gateway.ArtifactCache

/-!
# What the cache functions do to the partition

One specification for each flash operation and for the functions of the cache
that only read. A read leaves the partition as it is, also when power is lost in
it; without a loss of power nothing is cut. A header that was cut is not valid.
-/

namespace SecureDeltaOta

open Memory Crash

namespace EspPartition

/-- The partition after some bytes of a write. -/
def stored (flash : Nat → UInt8) (offset : Nat) (data : List UInt8) (n : Nat) : Nat → UInt8 :=
  overlay flash offset n fun a => data.getD (a - offset) 0

/-- The partition after some sectors were erased. -/
def cleared (flash : Nat → UInt8) (offset count : Nat) : Nat → UInt8 :=
  overlay flash offset (count * sectorSize) fun _ => 0xFF

/-- A script that is used up stays so. -/
def Quiet (s t : Contents) : Prop := s.script = [] → t.script = []

variable {s : Contents} {α : Type}

/-- A step that is not cut goes on with the rest of the script. -/
theorem nextStep_cases (s : Contents) :
    (∃ t, nextStep s = .done .ok t ∧ t.flash = s.flash ∧ Quiet s t) ∨
    (∃ n t, nextStep s = .done (.cut n) t ∧ t.flash = s.flash ∧ s.script ≠ []) := by
  obtain ⟨flash, script⟩ := s
  match script with
  | [] => exact .inl ⟨_, rfl, rfl, fun h => h⟩
  | .ok :: rest => exact .inl ⟨_, rfl, rfl, fun h => absurd h (by simp)⟩
  | .cut n :: rest => exact .inr ⟨n, _, rfl, rfl, by simp⟩

theorem read_ensures {offset length : Nat} (h : offset + length ≤ size) :
    (EspPartition.read offset length s).Ensures
      (fun r t => r = .ok (window s.flash offset length) ∧ t.flash = s.flash ∧ Quiet s t)
      (fun t => t.flash = s.flash ∧ s.script ≠ []) := by
  rw [EspPartition.read, if_neg (by omega), if_neg (by omega)]
  rcases nextStep_cases s with ⟨t, hstep, hflash, hquiet⟩ | ⟨n, t, hstep, hflash, hscript⟩
  · rw [Prog.bind_apply, hstep]
    exact ⟨congrArg (fun flash => Except.ok (window flash offset length)) hflash, hflash, hquiet⟩
  · rw [Prog.bind_apply, hstep]
    exact ⟨hflash, hscript⟩

theorem write_ensures {offset : Nat} {data : List UInt8} (h : offset + data.length ≤ size) :
    (write offset data s).Ensures
      (fun r t => r = .ok ∧ t.flash = stored s.flash offset data data.length)
      (fun t => ∃ n ≤ data.length, t.flash = stored s.flash offset data n) := by
  rw [write, if_neg (by omega), if_neg (by omega)]
  rcases nextStep_cases s with ⟨t, hstep, hflash, -⟩ | ⟨n, t, hstep, hflash, -⟩
  · rw [Prog.bind_apply, hstep]
    refine ⟨rfl, ?_⟩
    change overlay t.flash _ _ _ = _
    rw [hflash]
    rfl
  · rw [Prog.bind_apply, hstep]
    refine ⟨min n data.length, Nat.min_le_right _ _, ?_⟩
    change overlay t.flash _ _ _ = _
    rw [hflash]
    rfl

theorem cleared_succ (flash : Nat → UInt8) (offset count : Nat) :
    cleared (cleared flash offset 1) (offset + sectorSize) count =
      cleared flash offset (count + 1) := by
  funext a
  have hsize : (count + 1) * sectorSize = count * sectorSize + sectorSize := Nat.succ_mul _ _
  simp only [cleared, overlay, Nat.one_mul, hsize]
  split_ifs <;> first | rfl | omega

theorem eraseSectors_ensures (offset count : Nat) :
    (eraseSectors offset count s).Ensures (fun _ t => t.flash = cleared s.flash offset count)
      (fun t => ∃ k < count, t.flash = cleared s.flash offset k) := by
  induction count generalizing s offset with
  | zero =>
      change s.flash = _
      funext a
      exact (overlay_outside (by omega)).symm
  | succ count ih =>
      rw [eraseSectors]
      rcases nextStep_cases s with ⟨t, hstep, hflash, -⟩ | ⟨n, t, hstep, hflash, -⟩
      · rw [Prog.bind_apply, hstep]
        change (eraseSectors (offset + sectorSize) count
          { t with flash := overlay t.flash offset sectorSize fun _ => 0xFF }).Ensures _ _
        have hfirst : (overlay t.flash offset sectorSize fun _ => 0xFF) =
            cleared s.flash offset 1 := by
          rw [hflash, cleared, Nat.one_mul]
        refine (ih (offset + sectorSize)).mono (fun _ u hu => ?_) (fun u hu => ?_)
        · rw [hu, ← cleared_succ, ← hfirst]
        · obtain ⟨k, hk, hu⟩ := hu
          exact ⟨k + 1, by omega, by rw [hu, ← cleared_succ, ← hfirst]⟩
      · rw [Prog.bind_apply, hstep]
        refine ⟨0, by omega, ?_⟩
        rw [hflash]
        funext a
        exact (overlay_outside (by omega)).symm

theorem eraseRange_ensures {offset count : Nat} (hoffset : offset % sectorSize = 0)
    (h : offset + count * sectorSize ≤ size) :
    (eraseRange offset (count * sectorSize) s).Ensures
      (fun r t => r = .ok ∧ t.flash = cleared s.flash offset count)
      (fun t => ∃ k < count, t.flash = cleared s.flash offset k) := by
  have hdiv : count * sectorSize / sectorSize = count := Nat.mul_div_cancel _ (by decide)
  rw [eraseRange, if_neg (by omega), if_neg (by omega), if_neg (not_not.2 hoffset),
    if_neg (not_not.2 (Nat.mul_mod_left _ _)), hdiv]
  exact Ensures.bind (eraseSectors_ensures offset count) (fun _ _ ht => ⟨rfl, ht⟩) (fun _ ht => ht)

end EspPartition

namespace ArtifactCache

open EspPartition

variable {s : Contents}

theorem crcUpdate_append (running : UInt32) (a b : List UInt8) :
    crcUpdate running (a ++ b) = crcUpdate (crcUpdate running a) b :=
  List.foldl_append

/-- The image is read in chunks, and every byte of it once. -/
theorem calculateStoredImageCrc_ensures {imageSize : Nat}
    (h : imageSize ≤ size - dataOffset.toNat) :
    (calculateStoredImageCrc imageSize s).Ensures
      (fun r t => r = .ok (UartOta.crc32 (window s.flash dataOffset.toNat imageSize)) ∧
        t.flash = s.flash ∧ Quiet s t)
      (fun t => t.flash = s.flash ∧ s.script ≠ []) := by
  have hoffset : dataOffset.toNat ≤ size := by decide
  let I (b : Nat × UInt32) (t : Contents) : Prop :=
    b.1 ≤ imageSize ∧ b.2 = crcUpdate 0xFFFFFFFF (window s.flash dataOffset.toNat b.1) ∧
      t.flash = s.flash ∧ Quiet s t
  refine ensures_loopThen (I := I) (fun b => imageSize - b.1) ?_ ?_ ?_ (Nat.sub_le _ _) ?_
  · intro b t hguard hI
    have hlt : b.1 < imageSize := of_decide_eq_true hguard
    omega
  · rintro ⟨offset, running⟩ t hguard ⟨hle, hrunning, hflash, hquiet⟩
    have hlt : offset < imageSize := of_decide_eq_true hguard
    have hchunk : 0 < min (imageSize - offset) 256 := by omega
    refine Ensures.bind (read_ensures (by omega)) ?_ ?_
    · rintro r u ⟨rfl, huflash, huquiet⟩
      refine ⟨⟨?_, ?_, huflash.trans hflash, fun hs => huquiet (hquiet hs)⟩, ?_⟩
      · change offset + min (imageSize - offset) 256 ≤ imageSize
        omega
      · change crcUpdate running _ = crcUpdate _ (window _ _ (offset + _))
        dsimp only at hrunning
        rw [hrunning, hflash, window_add, crcUpdate_append]
      · change imageSize - (offset + min (imageSize - offset) 256) < imageSize - offset
        omega
    · rintro u ⟨huflash, huscript⟩
      exact ⟨huflash.trans hflash, fun hs => huscript (hquiet hs)⟩
  · rintro ⟨offset, running⟩ t hguard ⟨hle, hrunning, hflash, hquiet⟩
    have hge : ¬ offset < imageSize := of_decide_eq_false hguard
    obtain rfl : offset = imageSize := by
      change offset ≤ imageSize at hle
      omega
    refine ⟨?_, hflash, hquiet⟩
    dsimp only at hrunning
    rw [hrunning]
    rfl
  · exact ⟨Nat.zero_le _, rfl, rfl, fun hs => hs⟩

/-- The header in the partition. -/
def storedHeader (flash : Nat → UInt8) : ArtifactCacheHeader :=
  layout.decode (window flash 0 headerSize)

/-- What `openCache` finds out. -/
def openResult (flash : Nat → UInt8) : Except EspErr ArtifactCacheHeader :=
  if headerValid (storedHeader flash) then
    if UartOta.crc32 (window flash dataOffset.toNat (storedHeader flash).imageSize.toNat) ≠
        (storedHeader flash).imageCrc32 then .error .invalidCrc
    else .ok (storedHeader flash)
  else .error .invalidCrc

theorem headerValid_iff {header : ArtifactCacheHeader} : headerValid header = true ↔
    header.magic = magic ∧ header.formatVersion = formatVersion ∧
    header.headerSize.toNat = headerSize ∧ header.updateId ≠ 0 ∧ header.targetVersion ≠ 0 ∧
    header.imageSize ≠ 0 ∧ header.dataOffset = dataOffset ∧
    header.headerCrc32 = headerCrc header ∧ header.imageSize.toNat ≤ size - dataOffset.toNat :=
  decide_eq_true_iff

theorem openCache_ensures :
    (openCache s).Ensures (fun r t => r = openResult s.flash ∧ t.flash = s.flash ∧ Quiet s t)
      (fun t => t.flash = s.flash ∧ s.script ≠ []) := by
  refine Ensures.bind (read_ensures (by decide)) ?_ (fun t ht => ht)
  rintro r t ⟨rfl, hflash, hquiet⟩
  change ((if headerValid (storedHeader s.flash) then _ else _ : Prog Contents _) t).Ensures _ _
  unfold openResult
  by_cases hvalid : headerValid (storedHeader s.flash) = true
  · obtain ⟨-, -, -, -, -, -, -, -, hsize⟩ := headerValid_iff.1 hvalid
    rw [if_pos hvalid, if_pos hvalid]
    refine Ensures.bind (calculateStoredImageCrc_ensures hsize) ?_ ?_
    · rintro r u ⟨rfl, huflash, huquiet⟩
      rw [hflash]
      change ((if UartOta.crc32 (window s.flash dataOffset.toNat
        (storedHeader s.flash).imageSize.toNat) ≠ (storedHeader s.flash).imageCrc32 then _ else _ :
          Prog Contents _) u).Ensures _ _
      split_ifs
      · exact ⟨rfl, huflash.trans hflash, fun hs => huquiet (hquiet hs)⟩
      · exact ⟨rfl, huflash.trans hflash, fun hs => huquiet (hquiet hs)⟩
    · rintro u ⟨huflash, huscript⟩
      exact ⟨huflash.trans hflash, fun hs => huscript (hquiet hs)⟩
  · rw [if_neg hvalid, if_neg hvalid]
    exact ⟨rfl, hflash, hquiet⟩

/-! ## Headers -/

theorem encode_length (header : ArtifactCacheHeader) :
    (layout.encode header).length = headerSize :=
  layout.encode_length header

theorem headerOf_crc (writer : ArtifactCacheWriter) (crc : UInt32) :
    (headerOf writer crc).headerCrc32 = headerCrc (headerOf writer crc) :=
  rfl

/-- The bytes of a header that is partly written over an erased one. -/
theorem stored_header_getD {flash : Nat → UInt8} (herased : ∀ i < headerSize, flash i = 0xFF)
    (data : List UInt8) (n : Nat) {i : Nat} (hi : i < headerSize) :
    (window (stored flash 0 data n) 0 headerSize).getD i 0 =
      if i < n then data.getD i 0 else 0xFF := by
  rw [window_getD hi, Nat.zero_add, stored]
  split_ifs with hn
  · rw [overlay_inside (by omega), Nat.sub_zero]
  · rw [overlay_outside (by omega), herased i hi]

/-- An erased data offset is not the data offset. -/
theorem headerValid_of_erased {bytes : List UInt8} (hlast : bytes.getD 31 0 = 0xFF) :
    headerValid (layout.decode bytes) = false := by
  rw [Bool.eq_false_iff]
  intro hvalid
  obtain ⟨-, -, -, -, -, -, hoffset, -, -⟩ := headerValid_iff.1 hvalid
  have hbig : 0xFF000000 ≤ (readLe32 bytes 28).toNat := readLe32_of_last_erased hlast
  have hword : readLe32 bytes 28 = dataOffset := hoffset
  rw [hword] at hbig
  exact absurd hbig (by decide)

/-- A header that was cut is not valid, unless it is there as a whole. -/
theorem torn_header {flash : Nat → UInt8} (herased : ∀ i < headerSize, flash i = 0xFF)
    {header : ArtifactCacheHeader} (hcrc : header.headerCrc32 = headerCrc header) {n : Nat}
    (hvalid : headerValid (storedHeader (stored flash 0 (layout.encode header) n)) = true) :
    window (stored flash 0 (layout.encode header) n) 0 headerSize = layout.encode header := by
  have hbytes := @stored_header_getD flash herased (layout.encode header) n
  unfold storedHeader at hvalid
  have hlength : (window (stored flash 0 (layout.encode header) n) 0 headerSize).length =
      4 * layout.count := window_length _ _ _
  generalize window (stored flash 0 (layout.encode header) n) 0 headerSize = bytes at *
  by_cases hn : n < 32
  · have herase : bytes.getD 31 0 = 0xFF := by
      rw [hbytes (by decide), if_neg (by omega)]
    rw [headerValid_of_erased herase] at hvalid
    cases hvalid
  · have hfirst : ∀ i < 4 * 8, bytes.getD i 0 = (layout.encode header).getD i 0 := by
      intro i hi
      rw [hbytes (by unfold headerSize; omega), if_pos (by omega)]
    have htake : bytes.take crcOffset = (layout.encode header).take crcOffset := by
      have hwords : (layout.encode header).length = 36 := encode_length header
      apply List.ext_getElem
      · rw [List.length_take, List.length_take, hlength, hwords]
        rfl
      · intro i hi hi'
        have hi32 : i < 32 := by
          rw [List.length_take] at hi
          exact lt_of_lt_of_le hi (Nat.min_le_left _ _)
        have hget := hfirst i hi32
        rw [List.getElem_take, List.getElem_take]
        rwa [List.getD_eq_getElem, List.getD_eq_getElem] at hget
    obtain ⟨-, -, -, -, -, -, -, hword, -⟩ := headerValid_iff.1 hvalid
    have hdecode : layout.decode bytes = header := by
      refine layout.decode_eq_of_last (k := 8) rfl hfirst ?_
      calc readLe32 bytes (4 * 8) = headerCrc (layout.decode bytes) := hword
        _ = UartOta.crc32 (bytes.take crcOffset) := by rw [headerCrc, layout.encode_decode hlength]
        _ = headerCrc header := by rw [htake, headerCrc]
        _ = (layout.toWords header).getD 8 0 := hcrc.symm
    rw [← hdecode, layout.encode_decode hlength]

end ArtifactCache

end SecureDeltaOta
