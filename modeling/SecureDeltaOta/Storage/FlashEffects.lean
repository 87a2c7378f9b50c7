import SecureDeltaOta.Storage.SpiDriver

/-!
# What writes and erases do to the chip

On a chip that is ready in time no sum of addresses wraps and no page program
reaches the end of its page. A write stores exactly its data if they only clear
bits, and nothing otherwise; an erase clears exactly its sectors.
-/

namespace SecureDeltaOta.SpiDriver

open NorFlash

/-! ## Words -/

theorem add_some {a b : UInt32} (h : a.toNat + b.toNat < 2 ^ 32) :
    ∃ c, add a b = some c ∧ c.toNat = a.toNat + b.toNat :=
  ⟨a + b, if_pos h, by rw [UInt32.toNat_add, Nat.mod_eq_of_lt h]⟩

theorem sub_some {a b : UInt32} (h : b.toNat ≤ a.toNat) :
    ∃ c, sub a b = some c ∧ c.toNat = a.toNat - b.toNat := by
  have hle : b ≤ a := UInt32.le_iff_toNat_le.2 h
  exact ⟨a - b, if_pos hle, UInt32.toNat_sub_of_le _ _ hle⟩

theorem isRangeValid_iff {regionSize offset length : UInt32} :
    isRangeValid regionSize offset length = true ↔
      offset.toNat + length.toNat ≤ regionSize.toNat := by
  unfold isRangeValid
  by_cases hout : offset > regionSize
  · rw [gt_iff_lt, UInt32.lt_iff_toNat_lt] at hout
    rw [if_pos (UInt32.lt_iff_toNat_lt.2 hout)]
    constructor
    · intro h
      cases h
    · intro h
      omega
  · rw [if_neg hout]
    rw [gt_iff_lt, UInt32.lt_iff_toNat_lt, not_lt] at hout
    rw [decide_eq_true_eq, UInt32.le_iff_toNat_le,
      UInt32.toNat_sub_of_le _ _ (UInt32.le_iff_toNat_le.2 hout)]
    omega

theorem toNat_and_sector (a : UInt32) :
    (a &&& (extFlashSectorSize - 1)).toNat = a.toNat % sectorSize := by
  rw [UInt32.toNat_and]
  exact Nat.and_two_pow_sub_one_eq_mod a.toNat 12

theorem and_sector_eq_zero {a : UInt32} :
    a &&& (extFlashSectorSize - 1) = 0 ↔ a.toNat % sectorSize = 0 := by
  rw [← UInt32.toNat_inj, toNat_and_sector]
  rfl

theorem isSectorAligned_iff {a : UInt32} :
    isSectorAligned a = true ↔ a.toNat % sectorSize = 0 := by
  rw [isSectorAligned, decide_eq_true_eq, and_sector_eq_zero]

theorem toNat_pageChunkLength (address remaining : UInt32) :
    (pageChunkLength address remaining).toNat =
      min remaining.toNat (pageSize - address.toNat % pageSize) := by
  have hoffset : (address &&& (extFlashPageSize - 1)).toNat = address.toNat % pageSize := by
    rw [UInt32.toNat_and]
    exact Nat.and_two_pow_sub_one_eq_mod address.toNat 8
  have hlt : address.toNat % pageSize < pageSize := Nat.mod_lt _ (by decide)
  have hsize : extFlashPageSize.toNat = pageSize := rfl
  have hremaining : (extFlashPageSize - (address &&& (extFlashPageSize - 1))).toNat =
      pageSize - address.toNat % pageSize := by
    rw [UInt32.toNat_sub_of_le _ _ (UInt32.le_iff_toNat_le.2 (by omega)), hoffset, hsize]
  unfold pageChunkLength
  dsimp only
  split
  · next hless =>
      rw [UInt32.lt_iff_toNat_lt, hremaining] at hless
      omega
  · next hmore =>
      rw [UInt32.lt_iff_toNat_lt, hremaining] at hmore
      rw [hremaining]
      omega

theorem address24_eq {a : UInt32} (h : a.toNat < 2 ^ 24) :
    NorFlash.address24 (a >>> 16).toUInt8 (a >>> 8).toUInt8 a.toUInt8 = a.toNat := by
  have hhigh : (a >>> 16).toUInt8.toNat = a.toNat / 65536 % 256 := by
    rw [UInt32.toNat_toUInt8, UInt32.toNat_shiftRight]
    exact congrArg (· % 256) (Nat.shiftRight_eq_div_pow _ _)
  have hmiddle : (a >>> 8).toUInt8.toNat = a.toNat / 256 % 256 := by
    rw [UInt32.toNat_toUInt8, UInt32.toNat_shiftRight]
    exact congrArg (· % 256) (Nat.shiftRight_eq_div_pow _ _)
  have hlow : a.toUInt8.toNat = a.toNat % 256 := UInt32.toNat_toUInt8 a
  rw [NorFlash.address24, hhigh, hmiddle, hlow]
  omega

/-! ## Commands -/

/-- The driver is initialised and the chip is idle. -/
structure Ready (d : Driver) : Prop where
  initialized : d.initialized = true
  idle : d.chip.busy = 0

/-- The chip has all addresses the driver uses, and is ready before the driver gives up. -/
structure InTime (part : Part) : Prop where
  capacity : extFlashSize.toNat ≤ part.capacity
  program : part.programTime < programTimeoutLoops
  erase : part.eraseTime < eraseTimeoutLoops

theorem Ready.setStatus {d : Driver} (h : Ready d) (status : SpiFlashStatus) :
    Ready (d.setStatus status) := ⟨h.initialized, h.idle⟩

section Commands

variable {part : Part} {d : Driver}

theorem readStatus1_eq (d : Driver) : readStatus1 part d =
    (statusBits d.chip, { d with chip := { d.chip with busy := d.chip.busy - 1 } }) := rfl

theorem statusBits_busy (chip : Chip) : statusBits chip &&& 0x01 = 0 ↔ chip.busy = 0 := by
  unfold statusBits
  by_cases hbusy : chip.busy = 0 <;> cases chip.writeEnabled <;> simp [hbusy] <;> decide

theorem statusBits_enabled (chip : Chip) :
    statusBits chip &&& 0x02 = 0 ↔ chip.writeEnabled = false := by
  unfold statusBits
  by_cases hbusy : chip.busy = 0 <;> cases chip.writeEnabled <;> simp [hbusy] <;> decide

/-- The wait ends if the chip is busy for less than the time allowed. -/
theorem waitReady_eq {timeout : Nat} (h : d.chip.busy < timeout) :
    waitReady part timeout d = (true, { d with chip := { d.chip with busy := 0 } }) := by
  induction timeout generalizing d with
  | zero => omega
  | succ timeout ih =>
      rw [waitReady, readStatus1_eq]
      dsimp only
      by_cases hbusy : d.chip.busy = 0
      · rw [if_pos ((statusBits_busy _).2 hbusy), hbusy]
      · rw [if_neg (mt (statusBits_busy _).1 hbusy), ih (by dsimp only; omega)]

theorem writeEnable_eq (h : Ready d) :
    writeEnable part d =
      (true, { d with chip := { d.chip with writeEnabled := true } }) := by
  have hsent : (transfer part [0x06] d).2 =
      { d with chip := { d.chip with writeEnabled := true } } := by
    rw [transfer, exchange_enable part _ h.idle]
  unfold writeEnable
  rw [hsent, readStatus1_eq]
  dsimp only
  rw [if_neg (by rw [statusBits_enabled]; exact Bool.true_eq_false.mp)]
  simp [h.idle]

theorem InTime.address_lt (hpart : InTime part) {a : Nat} (h : a < extFlashSize.toNat) :
    a % part.capacity = a :=
  Nat.mod_eq_of_lt (h.trans_le hpart.capacity)

/-- The bytes at an address. -/
def stored (d : Driver) (address length : Nat) : List UInt8 :=
  (List.range length).map fun i => d.chip.memory (address + i)

theorem readData_eq (h : Ready d) (hpart : InTime part) {address length : UInt32}
    (hrange : address.toNat + length.toNat ≤ extFlashSize.toNat) (hpositive : length ≠ 0) :
    readData part address length d = (stored d address.toNat length.toNat, d) := by
  have hlength : length.toNat ≠ 0 := fun hzero => hpositive (UInt32.toNat_inj.1 hzero)
  have hsize : extFlashSize.toNat < 2 ^ 24 := by decide
  unfold readData transfer address24
  rw [List.cons_append, List.cons_append, List.cons_append, List.cons_append, List.nil_append,
    exchange_read part _ _ _ _ h.idle]
  dsimp only
  rw [address24_eq (by omega), List.length_replicate]
  refine Prod.ext ?_ rfl
  simp only [List.cons_append, List.nil_append, List.drop_succ_cons, List.drop_zero, readBytes,
    stored]
  refine List.map_congr_left fun i hi => ?_
  rw [List.mem_range] at hi
  rw [hpart.address_lt (by omega)]

theorem read_eq (h : Ready d) (hpart : InTime part) (address length : UInt32)
    (hrange : address.toNat + length.toNat ≤ extFlashSize.toNat) :
    read part address length d = (some (stored d address.toNat length.toNat), d.setStatus .ok) := by
  have hvalid : isAbsoluteRangeValid address length = true := isRangeValid_iff.2 hrange
  unfold read
  rw [if_neg (by rw [h.initialized]; exact Bool.true_eq_false.mp),
    if_neg (by rw [hvalid]; exact Bool.true_eq_false.mp)]
  by_cases hzero : length = 0
  · rw [if_pos hzero, hzero]
    rfl
  · rw [if_neg hzero, readData_eq h hpart hrange hzero]

theorem verify_eq (h : Ready d) (hpart : InTime part) {address length : UInt32}
    {data : List UInt8} (hrange : address.toNat + length.toNat ≤ extFlashSize.toNat)
    (hdata : stored d address.toNat length.toNat = data.take length.toNat) :
    verify part address data length d = (true, d.setStatus .ok) := by
  have hvalid : isAbsoluteRangeValid address length = true := isRangeValid_iff.2 hrange
  unfold verify
  rw [if_neg (by rw [h.initialized]; exact Bool.true_eq_false.mp),
    if_neg (by rw [hvalid]; exact Bool.true_eq_false.mp)]
  by_cases hzero : length = 0
  · rw [if_pos hzero]
  · rw [if_neg hzero, readData_eq h hpart hrange hzero]
    dsimp only
    rw [if_pos hdata]

/-! ## Writing -/

/-- The memory with some data in it. -/
def withData (memory : Nat → UInt8) (address : Nat) (data : List UInt8) : Nat → UInt8 :=
  fun a => if address ≤ a ∧ a < address + data.length then data.getD (a - address) 0 else memory a

/-- No bit of the data has to be set. -/
def OnlyClears (memory : Nat → UInt8) (address : Nat) (data : List UInt8) : Prop :=
  ∀ i < data.length, memory (address + i) &&& data.getD i 0 = data.getD i 0

theorem withData_nil (memory : Nat → UInt8) (address : Nat) :
    withData memory address [] = memory := by
  funext a
  rw [withData, List.length_nil, if_neg (by omega)]

theorem withData_append (memory : Nat → UInt8) (address : Nat) (xs ys : List UInt8) :
    withData (withData memory address xs) (address + xs.length) ys =
      withData memory address (xs ++ ys) := by
  funext a
  unfold withData
  rw [List.length_append]
  by_cases hsecond : address + xs.length ≤ a ∧ a < address + xs.length + ys.length
  · rw [if_pos hsecond, if_pos (by omega), List.getD_append_right _ _ _ _ (by omega), Nat.sub_sub]
  · rw [if_neg hsecond]
    by_cases hfirst : address ≤ a ∧ a < address + xs.length
    · rw [if_pos hfirst, if_pos (by omega), List.getD_append _ _ _ _ (by omega)]
    · rw [if_neg hfirst, if_neg (by omega)]

theorem stored_withData {memory : Nat → UInt8} {address : Nat} {data : List UInt8}
    (h : d.chip.memory = withData memory address data) :
    stored d address data.length = data := by
  refine List.ext_getElem (by simp [stored]) fun i h₁ h₂ => ?_
  simp only [stored, List.getElem_map, List.getElem_range]
  rw [h, withData, if_pos (by omega), Nat.add_sub_cancel_left, List.getD_eq_getElem _ _ h₂]

/-- One chunk inside a page. -/
theorem programPageChunk_eq (h : Ready d) (hpart : InTime part) (address length : UInt32)
    (data : List UInt8) (hlength : length.toNat ≤ data.length) (hpositive : 0 < length.toNat)
    (hrange : address.toNat + length.toNat ≤ extFlashSize.toNat)
    (hpage : address.toNat % pageSize + length.toNat ≤ pageSize)
    (hclears : OnlyClears d.chip.memory address.toNat (data.take length.toNat)) :
    ∃ after, programPageChunk part address data length d = (true, after) ∧ Ready after ∧
      after.chip.memory = withData d.chip.memory address.toNat (data.take length.toNat) := by
  have hsize : extFlashSize.toNat < 2 ^ 24 := by decide
  have htake : (data.take length.toNat).length = length.toNat := by
    rw [List.length_take]
    omega
  have hmemory : programPage d.chip.memory address.toNat (data.take length.toNat) =
      withData d.chip.memory address.toNat (data.take length.toNat) := by
    funext a
    rw [programPage_eq (by rw [htake]; exact hpage), withData]
    split
    · next hin =>
        have hbyte := hclears (a - address.toNat) (by omega)
        rwa [show address.toNat + (a - address.toNat) = a by omega] at hbyte
    · rfl
  have hguard : ¬ (length = 0 ∨ length > pageChunkLength address length) := by
    rw [not_or, gt_iff_lt, UInt32.lt_iff_toNat_lt, toNat_pageChunkLength, ← UInt32.toNat_inj]
    exact ⟨by change ¬ length.toNat = 0; omega, by omega⟩
  -- after the wait the chip holds the data and is idle again
  let after : Driver := { d with
    chip := ⟨withData d.chip.memory address.toNat (data.take length.toNat), false, 0⟩ }
  have hready : Ready after := ⟨h.initialized, rfl⟩
  have hstored : stored after address.toNat length.toNat = data.take length.toNat := by
    have hall : stored after address.toNat (data.take length.toNat).length =
        data.take length.toNat := stored_withData rfl
    rwa [htake] at hall
  have hsent : (transfer part (0x02 :: address24 address ++ data.take length.toNat)
      { d with chip := { d.chip with writeEnabled := true } }).2 =
      { after with chip := { after.chip with busy := part.programTime } } := by
    unfold transfer address24
    rw [List.cons_append, List.cons_append, List.cons_append, List.cons_append, List.nil_append,
      exchange_program part { d.chip with writeEnabled := true } _ _ _ ⟨h.idle, rfl⟩]
    dsimp only
    rw [address24_eq (by omega), hpart.address_lt (by omega), hmemory]
  refine ⟨after.setStatus .ok, ?_, hready.setStatus _, rfl⟩
  unfold programPageChunk
  rw [if_neg hguard, writeEnable_eq h]
  dsimp only
  rw [if_neg Bool.true_eq_false.mp, hsent, waitReady_eq hpart.program]
  dsimp only
  rw [if_neg Bool.true_eq_false.mp]
  exact verify_eq hready hpart hrange hstored

/-- The loop of the write, from an offset on. -/
theorem writeLoop_eq (hpart : InTime part) {address length : UInt32} {data : List UInt8}
    (hlength : data.length = length.toNat)
    (hrange : address.toNat + length.toNat ≤ extFlashSize.toNat) {memory : Nat → UInt8}
    (hclears : OnlyClears memory address.toNat data) (fuel : Nat) {offset : UInt32}
    (hfuel : length.toNat < offset.toNat + fuel) (hoffset : offset.toNat ≤ length.toNat)
    (h : Ready d)
    (hmemory : d.chip.memory = withData memory address.toNat (data.take offset.toNat)) :
    ∃ after, writeLoop part address data length fuel offset d = some (true, after) ∧
      Ready after ∧ after.chip.memory = withData memory address.toNat data := by
  have hsize : extFlashSize.toNat < 2 ^ 24 := by decide
  induction fuel generalizing offset d with
  | zero => omega
  | succ fuel ih =>
      rw [writeLoop]
      by_cases hless : offset < length
      swap
      · rw [UInt32.lt_iff_toNat_lt] at hless
        rw [if_neg (by rw [UInt32.lt_iff_toNat_lt]; exact hless)]
        refine ⟨_, rfl, h.setStatus _, ?_⟩
        rw [Driver.setStatus, hmemory, List.take_of_length_le (by omega)]
      rw [if_pos hless]
      rw [UInt32.lt_iff_toNat_lt] at hless
      obtain ⟨start, hstart, hstartNat⟩ := add_some (a := address) (b := offset) (by omega)
      obtain ⟨left, hleft, hleftNat⟩ := sub_some hoffset
      have hchunk := toNat_pageChunkLength start left
      have hpage : start.toNat % pageSize < pageSize := Nat.mod_lt _ (by decide)
      generalize hchunkDef : pageChunkLength start left = chunk at hchunk
      have htake : (data.take offset.toNat).length = offset.toNat := by
        rw [List.length_take]
        omega
      have hchunkLength : ((data.drop offset.toNat).take chunk.toNat).length = chunk.toNat := by
        rw [List.length_take, List.length_drop]
        omega
      -- the bytes of this chunk are still those from before the write
      have hchunkClears : OnlyClears d.chip.memory start.toNat
          ((data.drop offset.toNat).take chunk.toNat) := by
        intro i hi
        rw [hchunkLength] at hi
        have hbyte := hclears (offset.toNat + i) (by omega)
        have hget : ((data.drop offset.toNat).take chunk.toNat).getD i 0 =
            data.getD (offset.toNat + i) 0 := by
          simp [List.getElem?_drop, hi]
        rw [hget, hmemory, withData, if_neg (by rw [htake]; omega), hstartNat, Nat.add_assoc]
        exact hbyte
      obtain ⟨middle, hprogrammed, hready, hmiddle⟩ := programPageChunk_eq h hpart start
        chunk (data.drop offset.toNat) (by rw [List.length_drop]; omega) (by omega) (by omega) (by omega) hchunkClears
      obtain ⟨next, hnext, hnextNat⟩ := add_some (a := offset) (b := chunk) (by omega)
      have hbytes : data.take next.toNat =
          data.take offset.toNat ++ (data.drop offset.toNat).take chunk.toNat := by
        rw [hnextNat, List.take_add]
      have hnextMemory : middle.chip.memory =
          withData memory address.toNat (data.take next.toNat) := by
        rw [hmiddle, hmemory, hstartNat, hbytes, ← withData_append, htake]
      obtain ⟨after, hafter, hlast⟩ := ih (by omega) (by omega) hready hnextMemory
      refine ⟨after, ?_, hlast⟩
      simp only [hstart, hleft, hchunkDef, hprogrammed, hnext, hafter, Option.bind_eq_bind,
        Option.bind_some, Bool.true_eq_false, if_false]

theorem stored_getD {address length i : Nat} (h : i < length) :
    (stored d address length).getD i 0 = d.chip.memory (address + i) := by
  simp [stored, h]

/-- The check before the write, from an offset on. -/
theorem preflightLoop_eq (hpart : InTime part) {address length : UInt32} (data : List UInt8)
    (hrange : address.toNat + length.toNat ≤ extFlashSize.toNat) (fuel : Nat) (offset : UInt32)
    (hfuel : length.toNat < offset.toNat + fuel) (hoffset : offset.toNat ≤ length.toNat)
    (h : Ready d) :
    ∃ ok after, preflightLoop part address data length fuel offset d = some (ok, after) ∧
      Ready after ∧ after.chip = d.chip ∧
      (ok = true ↔ ∀ i, offset.toNat ≤ i → i < length.toNat →
        d.chip.memory (address.toNat + i) &&& data.getD i 0 = data.getD i 0) := by
  have hsize : extFlashSize.toNat < 2 ^ 24 := by decide
  induction fuel generalizing offset d with
  | zero => omega
  | succ fuel ih =>
      rw [preflightLoop]
      by_cases hless : offset < length
      swap
      · rw [UInt32.lt_iff_toNat_lt] at hless
        rw [if_neg (by rw [UInt32.lt_iff_toNat_lt]; exact hless)]
        refine ⟨true, d, rfl, h, rfl, fun _ i hfrom hto => ?_, fun _ => rfl⟩
        omega
      rw [if_pos hless]
      rw [UInt32.lt_iff_toNat_lt] at hless
      obtain ⟨left, hleft, hleftNat⟩ := sub_some hoffset
      obtain ⟨start, hstart, hstartNat⟩ := add_some (a := address) (b := offset) (by omega)
      obtain ⟨chunk, hchunk, hchunkPos, hchunkLe⟩ : ∃ chunk,
          (if left > preflightBufferSize then preflightBufferSize else left) = chunk ∧
          0 < chunk.toNat ∧ chunk.toNat ≤ left.toNat := by
        refine ⟨_, rfl, ?_⟩
        have hbuffer : preflightBufferSize.toNat = 32 := rfl
        split
        · next hmore =>
            rw [gt_iff_lt, UInt32.lt_iff_toNat_lt] at hmore
            omega
        · omega
      have hread := read_eq h hpart start chunk (by omega)
      simp only [hleft, hstart, hchunk, Option.bind_eq_bind, Option.bind_some, hread]
      by_cases hclears : ∀ i < chunk.toNat,
          (stored d start.toNat chunk.toNat).getD i 0 &&& data.getD (offset.toNat + i) 0 =
            data.getD (offset.toNat + i) 0
      · rw [if_pos hclears]
        obtain ⟨next, hnext, hnextNat⟩ := add_some (a := offset) (b := chunk) (by omega)
        obtain ⟨ok, after, hafter, hready, hchip, hok⟩ := ih next
          (d := d.setStatus .ok) (by omega) (by omega) (h.setStatus _)
        refine ⟨ok, after, by simp only [hnext, Option.bind_some, hafter], hready, hchip,
          hok.trans ?_⟩
        constructor
        · intro hlater i hfrom hto
          by_cases hi : next.toNat ≤ i
          · exact hlater i hi hto
          · have hbyte := hclears (i - offset.toNat) (by omega)
            rwa [stored_getD (by omega), hstartNat, Nat.add_assoc, Nat.add_sub_cancel' hfrom]
              at hbyte
        · intro hall i hfrom hto
          exact hall i (by omega) hto
      · rw [if_neg hclears]
        refine ⟨false, _, rfl, (h.setStatus _).setStatus _, rfl, fun hfalse => ?_, fun hall => ?_⟩
        · cases hfalse
        · refine absurd (fun i hi => ?_) hclears
          rw [stored_getD hi, hstartNat, Nat.add_assoc]
          exact hall _ (by omega) (by omega)

/-- A write to a range of the chip. -/
theorem write_eq (hpart : InTime part) (h : Ready d) (address : UInt32) {length : UInt32}
    {data : List UInt8}
    (hlength : data.length = length.toNat)
    (hrange : address.toNat + length.toNat ≤ extFlashSize.toNat) :
    ∃ ok after, write part address data length d = some (ok, after) ∧ Ready after ∧
      (ok = true ↔ OnlyClears d.chip.memory address.toNat data) ∧
      after.chip.memory = if ok then withData d.chip.memory address.toNat data
        else d.chip.memory := by
  have hvalid : isAbsoluteRangeValid address length = true := isRangeValid_iff.2 hrange
  have hzeroNat : (0 : UInt32).toNat = 0 := rfl
  unfold write
  rw [if_neg (by rw [h.initialized]; exact Bool.true_eq_false.mp),
    if_neg (by rw [hvalid]; exact Bool.true_eq_false.mp)]
  by_cases hzero : length = 0
  · have hnil : data = [] := by
      rw [hzero, hzeroNat] at hlength
      exact List.length_eq_zero_iff.1 hlength
    rw [if_pos hzero]
    refine ⟨true, _, rfl, h.setStatus _, ⟨fun _ i hi => ?_, fun _ => rfl⟩, ?_⟩
    · rw [hnil, List.length_nil] at hi
      omega
    · rw [if_pos rfl, hnil, withData_nil]
      rfl
  rw [if_neg hzero]
  obtain ⟨ok, middle, hpreflight, hready, hchip, hok⟩ := preflightLoop_eq hpart data
    hrange (length.toNat + 1) 0 (by omega) (by omega) h
  have hclears : ok = true ↔ OnlyClears d.chip.memory address.toNat data := by
    rw [hok]
    constructor
    · intro hall i hi
      exact hall i (by omega) (by omega)
    · intro hall i _ hi
      exact hall i (by omega)
  simp only [preflightProgrammable, hpreflight, Option.bind_eq_bind, Option.bind_some]
  cases hresult : ok with
  | false =>
      rw [hresult] at hclears
      rw [if_pos rfl]
      exact ⟨false, middle, rfl, hready, hclears, by rw [hchip]; rfl⟩
  | true =>
      rw [hresult] at hclears
      rw [if_neg Bool.true_eq_false.mp]
      have hmemory : middle.chip.memory = withData d.chip.memory address.toNat
          (data.take (0 : UInt32).toNat) := by
        rw [hchip, hzeroNat, List.take_zero, withData_nil]
      obtain ⟨after, hafter, hlast, hdata⟩ := writeLoop_eq hpart hlength hrange (hclears.1 rfl)
        (length.toNat + 1) (by omega) (by omega) hready hmemory
      exact ⟨true, after, hafter, hlast, hclears, hdata⟩

/-- The memory with a range erased. -/
def withErased (memory : Nat → UInt8) (address length : Nat) : Nat → UInt8 :=
  fun a => if address ≤ a ∧ a < address + length then 0xFF else memory a

theorem withErased_zero (memory : Nat → UInt8) (address : Nat) :
    withErased memory address 0 = memory := by
  funext a
  rw [withErased, if_neg (by omega)]

/-- A sector that starts where a range ends makes the range longer. -/
theorem eraseSector_withErased (memory : Nat → UInt8) {address length : Nat}
    (h : (address + length) % sectorSize = 0) :
    NorFlash.eraseSector (withErased memory address length) (address + length) =
      withErased memory address (length + sectorSize) := by
  funext a
  have hsector : a / sectorSize = (address + length) / sectorSize ↔
      address + length ≤ a ∧ a < address + length + sectorSize := by
    unfold sectorSize at *
    omega
  unfold NorFlash.eraseSector withErased
  by_cases hlast : address + length ≤ a ∧ a < address + length + sectorSize
  · rw [if_pos (hsector.2 hlast), if_pos (by omega)]
  · rw [if_neg (fun heq => hlast (hsector.1 heq))]
    by_cases hbefore : address ≤ a ∧ a < address + length
    · rw [if_pos hbefore, if_pos (by omega)]
    · rw [if_neg hbefore, if_neg (by omega)]

theorem eraseSector_eq (hpart : InTime part) (h : Ready d) {address : UInt32}
    (haligned : address.toNat % sectorSize = 0)
    (hrange : address.toNat + sectorSize ≤ extFlashSize.toNat) :
    ∃ after, eraseSector part address d = (true, after) ∧ Ready after ∧
      after.chip.memory = NorFlash.eraseSector d.chip.memory address.toNat := by
  have hsize : extFlashSize.toNat < 2 ^ 24 := by decide
  have hsectorPos : 0 < sectorSize := by decide
  have hvalid : isAbsoluteRangeValid address extFlashSectorSize = true :=
    isRangeValid_iff.2 hrange
  let after : Driver := { d with chip :=
    { memory := NorFlash.eraseSector d.chip.memory address.toNat
      writeEnabled := false
      busy := 0 } }
  have hready : Ready after := ⟨h.initialized, rfl⟩
  have hsent : (transfer part (0x20 :: address24 address)
      { d with chip := { d.chip with writeEnabled := true } }).2 =
      { after with chip := { after.chip with busy := part.eraseTime } } := by
    unfold transfer address24
    rw [exchange_erase part { d.chip with writeEnabled := true } _ _ _ ⟨h.idle, rfl⟩]
    dsimp only
    rw [address24_eq (by omega), hpart.address_lt (by omega)]
  refine ⟨after.setStatus .ok, ?_, hready.setStatus _, rfl⟩
  unfold eraseSector
  rw [if_neg (by rw [h.initialized]; exact Bool.true_eq_false.mp),
    if_neg (by rw [isSectorAligned_iff.2 haligned]; exact Bool.true_eq_false.mp),
    if_neg (by rw [hvalid]; exact Bool.true_eq_false.mp), writeEnable_eq h]
  dsimp only
  rw [if_neg Bool.true_eq_false.mp, hsent, waitReady_eq hpart.erase]
  dsimp only
  rw [if_neg Bool.true_eq_false.mp]

theorem sectors_lt {a b : Nat} (ha : a % sectorSize = 0) (hb : b % sectorSize = 0) (h : a < b) :
    a + sectorSize ≤ b := by
  unfold sectorSize at *
  omega

/-- The loop of the erase, with a part of the range erased. -/
theorem eraseLoop_eq (hpart : InTime part) {address length : UInt32}
    (haddress : address.toNat % sectorSize = 0) (hlength : length.toNat % sectorSize = 0)
    (hrange : address.toNat + length.toNat ≤ extFlashSize.toNat) {memory : Nat → UInt8}
    (fuel : Nat) (erased : UInt32) (herased : erased.toNat % sectorSize = 0)
    (hfuel : length.toNat < erased.toNat + fuel) (hle : erased.toNat ≤ length.toNat)
    (h : Ready d) (hmemory : d.chip.memory = withErased memory address.toNat erased.toNat) :
    ∃ after, eraseLoop part address length fuel erased d = some (true, after) ∧ Ready after ∧
      after.chip.memory = withErased memory address.toNat length.toNat := by
  have hsize : extFlashSize.toNat < 2 ^ 24 := by decide
  have hsector : extFlashSectorSize.toNat = sectorSize := rfl
  have hpositive : 0 < sectorSize := by decide
  induction fuel generalizing erased d with
  | zero => omega
  | succ fuel ih =>
      rw [eraseLoop]
      by_cases hless : erased < length
      swap
      · rw [UInt32.lt_iff_toNat_lt] at hless
        rw [if_neg (by rw [UInt32.lt_iff_toNat_lt]; exact hless)]
        refine ⟨d, rfl, h, ?_⟩
        rw [hmemory, show erased.toNat = length.toNat by omega]
      rw [if_pos hless]
      rw [UInt32.lt_iff_toNat_lt] at hless
      have hroom := sectors_lt herased hlength hless
      have hstartAligned : (address.toNat + erased.toNat) % sectorSize = 0 := by
        rw [Nat.add_mod, haddress, herased, Nat.zero_mod]
      have hnextAligned : (erased.toNat + sectorSize) % sectorSize = 0 := by
        rw [Nat.add_mod_right, herased]
      obtain ⟨start, hstart, hstartNat⟩ := add_some (a := address) (b := erased) (by omega)
      obtain ⟨next, hnext, hnextNat⟩ := add_some (a := erased) (b := extFlashSectorSize) (by omega)
      rw [hsector] at hnextNat
      obtain ⟨middle, hmiddle, hready, hchip⟩ := eraseSector_eq hpart h
        (hstartNat ▸ hstartAligned) (by omega)
      obtain ⟨after, hafter, hlast, hdone⟩ := ih next (d := middle)
        (hnextNat ▸ hnextAligned) (by omega) (by omega) hready (by
          rw [hchip, hmemory, hstartNat, eraseSector_withErased _ hstartAligned, hnextNat])
      refine ⟨after, ?_, hlast, hdone⟩
      simp only [hstart, hmiddle, hnext, Option.bind_eq_bind, Option.bind_some,
        Bool.true_eq_false, if_false, hafter]

end Commands

end SecureDeltaOta.SpiDriver
