import SecureDeltaOta.App.Packets

/-!
# Delivering a packet again

What the receiver does with a `DATA` packet that it stores, in every
environment, and what it does when the same packet arrives again. The bytes a
stored packet leaves in the incoming partition do not depend on the
environment; a checkpoint that could not be committed is committed when the
packet is repeated.
-/

namespace SecureDeltaOta

open Memory Crash

/-- A change of one range of the external flash is known by the bytes of the range. -/
theorem Device.eq_withExternal {d d' : Device} {start length : Nat} {bytes : Nat → UInt8}
    (hframe : OutsideFrame start (start + length) d d') (hhistory : SameHistory d d')
    (hbytes : ∀ i < length, d'.external (start + i) = bytes (start + i)) :
    d' = d.withExternal start length bytes := by
  refine Device.ext (funext fun a => hframe.internal a trivial) (funext fun a => ?_) hhistory
  by_cases hin : start ≤ a ∧ a < start + length
  · rw [withExternal_inside hin]
    have hbyte := hbytes (a - start) (by omega)
    rwa [Nat.add_sub_cancel' hin.1] at hbyte
  · rw [withExternal_outside (by omega)]
    exact hframe.external a (by omega)

namespace OtaReceiver

/-! ## The bytes of a packet -/

/-- Erase a sector of the incoming partition, unless it is marked as erased. -/
def eraseUnmarked (marked : UInt32 × Device) (sector : Nat) : UInt32 × Device :=
  if marked.1 &&& sectorMask sector = 0 then
    (marked.1 ||| sectorMask sector,
      marked.2.withExternal (ExternalPartition.incoming.address + sector * extFlashSectorSize)
        extFlashSectorSize fun _ => 0xFF)
  else marked

/-- The marks and the flash after some sectors were erased. -/
def erasedSectors (bitmap : UInt32) (first count : Nat) (d : Device) : UInt32 × Device :=
  (List.range' first count).foldl eraseUnmarked (bitmap, d)

theorem erasedSectors_succ (bitmap : UInt32) (first count : Nat) (d : Device) :
    erasedSectors bitmap first (count + 1) d =
      eraseUnmarked (erasedSectors bitmap first count d) (first + count) := by
  unfold erasedSectors
  rw [List.range'_1_concat, List.foldl_append]
  rfl

/-- The marks and the flash when a packet may be written. -/
def erasedFor (bitmap offset : UInt32) (length : Nat) (d : Device) : UInt32 × Device :=
  erasedSectors bitmap (offset.toNat / extFlashSectorSize)
    ((offset.toNat + length - 1) / extFlashSectorSize + 1 - offset.toNat / extFlashSectorSize) d

section Storing

variable {μ : Mode} {up : Bool} {s : Machine}

theorem eraseIncomingSector_holds (hs : Env μ up s) (hup : μ.Usable up) {sector : Nat}
    (hsector : sector < 32) :
    Holds μ up (ExternalFlashStorage.eraseRange .incoming (sector * extFlashSectorSize)
        extFlashSectorSize s)
      (fun ok d => ok = true ∧ d = s.device.withExternal
          (ExternalPartition.incoming.address + sector * extFlashSectorSize) extFlashSectorSize
            (fun _ => 0xFF) ∨
        ok = false ∧ μ.Faulty)
      (fun _ => True) := by
  have hsize : ExternalPartition.incoming.size = 131072 := rfl
  have hfits : sector * extFlashSectorSize + extFlashSectorSize ≤
      ExternalPartition.incoming.size := by
    unfold extFlashSectorSize
    omega
  refine (((eraseRange_holds (p := .incoming) hs hup (by decide) hfits (Nat.mul_mod_left _ _)
    (Nat.mod_self _)).and_keeps (eraseRange_keeps fun _ => allows_outsideFrame le_rfl le_rfl)).and_keeps
      (eraseRange_keeps fun _ => allows_sameHistory _ _)).mono ?_ (fun _ _ => trivial)
  intro ok d h
  obtain ⟨⟨herased | hfailed, hframe⟩, hhistory⟩ := h
  · refine .inl ⟨herased.1, Device.eq_withExternal ?_ hhistory fun i hi => ?_⟩
    · exact hframe
    · rw [Nat.add_assoc]
      exact herased.2 i hi
  · exact .inr hfailed

/-- Sectors without a mark are erased, whatever they hold. -/
theorem ensureIncomingSectorsErased_effects (hs : Env μ up s) (hup : μ.Usable up)
    {bitmap offset : UInt32} {length : Nat} (hpos : 0 < length)
    (hrange : offset.toNat + length ≤ extIncomingSize) :
    Holds μ up (ensureIncomingSectorsErased bitmap offset length s)
      (fun r d => r.1 = true ∧ (r.2, d) = erasedFor bitmap offset length s.device ∨
        r.1 = false ∧ μ.Faulty)
      (fun _ => True) := by
  have hmax : extIncomingSize = 131072 := rfl
  unfold ensureIncomingSectorsErased erasedFor
  rw [if_neg (by omega)]
  generalize hlast : (offset.toNat + length - 1) / extFlashSectorSize = last
  generalize hfirst : offset.toNat / extFlashSectorSize = first
  have hle : first ≤ last := by
    unfold extFlashSectorSize at *
    omega
  have hbound : last < 32 := by
    unfold extFlashSectorSize at *
    omega
  -- the sectors before the loop variable are done
  refine Holds.loopThen (I := fun st d => first ≤ st.1 ∧ st.1 ≤ last + 1 ∧
      (st.2, d) = erasedSectors bitmap first (st.1 - first) s.device)
    (fun st => last + 1 - st.1) ?_ ?_ ?_ hs (Nat.sub_le _ _) ⟨le_rfl, by dsimp only; omega, ?_⟩
  · intro st d hguard _
    simp only [decide_eq_true_eq] at hguard
    omega
  · intro st t ht hguard hI
    obtain ⟨sector, marks⟩ := st
    obtain ⟨hlow, hhigh, herased⟩ := hI
    simp only [decide_eq_true_eq] at hguard hlow hhigh herased ⊢
    have hnext : ∀ d, (marks, t.device) = erasedSectors bitmap first (sector - first) s.device →
        d = eraseUnmarked (marks, t.device) sector →
        d = erasedSectors bitmap first (sector + 1 - first) s.device := by
      intro d hbefore hd
      rw [show sector + 1 - first = sector - first + 1 by omega, erasedSectors_succ, ← hbefore,
        Nat.add_sub_cancel' hlow]
      exact hd
    split
    · next hfree =>
        refine Holds.bind (eraseIncomingSector_holds ht hup (by omega)) ?_ (fun _ _ => trivial)
        intro ok u hu hok
        obtain ⟨rfl, hd⟩ | ⟨rfl, hfaulty⟩ := hok
        · refine Holds.pure hu ⟨⟨by dsimp only; omega, by dsimp only; omega, ?_⟩, by
            dsimp only
            omega⟩
          refine hnext _ herased ?_
          rw [eraseUnmarked, if_pos hfree, hd]
        · exact Holds.pure hu (.inr ⟨rfl, hfaulty⟩)
    · next hmarked =>
        refine Holds.pure ht ⟨⟨by dsimp only; omega, by dsimp only; omega, ?_⟩, by
          dsimp only
          omega⟩
        refine hnext _ herased ?_
        rw [eraseUnmarked, if_neg hmarked]
  · intro st t ht hguard hI
    obtain ⟨hlow, hhigh, herased⟩ := hI
    simp only [decide_eq_false_iff_not, not_le] at hguard
    refine Holds.pure ht (.inl ⟨rfl, ?_⟩)
    rw [herased, show st.1 = last + 1 by omega]
  · dsimp only
    rw [Nat.sub_self]
    rfl

/-- A write that succeeds found nothing to erase. -/
theorem spiWrite_programmable (hs : Env μ up s) (hup : μ.Usable up) {address : Nat}
    {data : List UInt8} (hrange : address + data.length ≤ extFlashSize) {t : Machine}
    (hrun : SpiFlash.write address data s = .done true t) :
    Programmable s.device address data := by
  obtain ⟨initialized, u, hread, hrest⟩ := bind_done hrun
  cases hread
  split_ifs at hrest with hinit hvalid hempty
  · cases hrest
  · cases hrest
  · intro i hi
    omega
  · obtain ⟨programmable, v, hpreflight, hlast⟩ := bind_done hrest
    have hholds := preflight_holds hs hup hrange
    rw [hpreflight] at hholds
    obtain ⟨-, -, ⟨-, hprogrammable⟩ | ⟨hfalse, -⟩⟩ := hholds
    · exact hprogrammable
    · rw [hfalse] at hlast
      cases hlast

/-- The flash with the bytes of a packet in the incoming partition. -/
def filled (offset : Nat) (payload : List UInt8) (d : Device) : Device :=
  d.withExternal (ExternalPartition.incoming.address + offset) payload.length
    fun a => payload.getD (a - (ExternalPartition.incoming.address + offset)) 0

theorem slice_filled (offset : Nat) (payload : List UInt8) (d : Device) :
    (filled offset payload d).slice .incoming offset payload.length = payload := by
  refine window_eq_list_iff.2 fun i hi => ?_
  rw [filled, Device.withExternal_inside (by omega), Nat.add_sub_cancel_left]

theorem writeIncoming_effects (hs : Env μ up s) (hup : μ.Usable up) {offset : Nat}
    {payload : List UInt8} (hrange : offset + payload.length ≤ extIncomingSize) :
    Holds μ up (ExternalFlashStorage.write .incoming offset payload s)
      (fun ok d => ok = true ∧ d = filled offset payload s.device ∧
          Programmable s.device (ExternalPartition.incoming.address + offset) payload ∨
        ok = false ∧ (μ.Faulty ∨
          ¬ Programmable s.device (ExternalPartition.incoming.address + offset) payload))
      (fun _ => True) := by
  have hsize : ExternalPartition.incoming.size = extIncomingSize := rfl
  have hend := ExternalPartition.incoming.end_le_extFlashSize
  have hwrite := ((storageWrite_holds (p := .incoming) hs hup hrange).and_keeps
    (storageWrite_keeps fun _ => allows_outsideFrame le_rfl le_rfl)).and_keeps
      (storageWrite_keeps fun _ => allows_sameHistory _ _)
  unfold Holds at hwrite ⊢
  cases hrun : ExternalFlashStorage.write .incoming offset payload s with
  | spin t =>
      rw [hrun] at hwrite
      exact hwrite.elim
  | cut t =>
      rw [hrun] at hwrite
      exact ⟨hwrite.1, trivial⟩
  | done ok t =>
      rw [hrun] at hwrite
      obtain ⟨ht, ⟨hwritten | hfailed, hframe⟩, hhistory⟩ := hwrite
      · obtain ⟨rfl, hdata⟩ := hwritten
        refine ⟨ht, .inl ⟨rfl, Device.eq_withExternal hframe hhistory fun i hi => ?_, ?_⟩⟩
        · rw [window_eq_list_iff.1 hdata i hi, Nat.add_sub_cancel_left]
        · rw [ExternalFlashStorage.write, resolveRange_of_le hrange] at hrun
          exact spiWrite_programmable hs hup (by omega) hrun
      · exact ⟨ht, .inr hfailed⟩

end Storing

/-! ## Checkpoints -/

section Checkpoints

variable {μ : Mode} {s : Machine} {g : Session} {request : OtaPacket}

/-- An error is never reported as a success. -/
theorem commit_returns_error (requested : DownloadCheckpointRecord) :
    Returns (DownloadCheckpointStorage.commit requested)
      (fun r => ∀ e, r = .error e → e ≠ .ok) := by
  have herror : ∀ e : RecordStorageStatus, e ≠ .ok → Returns
      (pure (.error e) : Prog Machine (Except RecordStorageStatus DownloadCheckpointRecord))
      (fun r => ∀ e, r = .error e → e ≠ .ok) := by
    intro e he
    refine Returns.pure fun e' he' => ?_
    cases he'
    exact he
  refine Returns.bind (Returns.trivial _) fun a _ => ?_
  cases a with
  | none => exact herror _ (by decide)
  | some a =>
      refine Returns.bind (Returns.trivial _) fun b _ => ?_
      cases b with
      | none => exact herror _ (by decide)
      | some b =>
          refine Returns.ite (fun _ => herror _ (by decide)) fun _ =>
            Returns.bind (Returns.trivial _) fun neighbour _ =>
            Returns.bind (Returns.trivial _) fun erased _ =>
            Returns.ite (fun _ => herror _ (by decide)) fun _ =>
            Returns.bind (Returns.trivial _) fun written _ =>
            Returns.ite (fun _ => herror _ (by decide)) fun _ =>
            Returns.bind (Returns.trivial _) fun kept _ =>
            Returns.ite (fun _ => herror _ (by decide)) fun _ =>
            Returns.bind (Returns.trivial _) fun verify _ => ?_
          cases verify with
          | none => exact herror _ (by decide)
          | some stored =>
              refine Returns.ite (fun _ => herror _ (by decide)) fun _ => Returns.pure ?_
              intro e he
              cases he

/-- A checkpoint of the next offset is due. -/
def Due (g : Session) : Prop :=
  ¬ (g.nextOffset = 0 ∨ g.nextOffset.toNat % extFlashSectorSize ≠ 0 ∨
    g.persistedOffset = g.nextOffset)

/-- The checkpoint of the next offset. -/
def dueRecord (g : Session) (d : Device) : DownloadCheckpointRecord :=
  DownloadCheckpointStorage.store.candidateFor d (sessionRecord g .receiving g.nextOffset)

/-- What the attempt to commit a due checkpoint leads to. -/
structure Attempted (g : Session) (d : Device) (r : RecordStorageStatus × Session)
    (d' : Device) : Prop where
  frame : DownloadCheckpointStorage.CheckpointFrame d d'
  committed : r.1 = .ok →
    r.2 = { g with persistedOffset := g.nextOffset } ∧ d'.checkpoint = some (dueRecord g d)
  failed : r.1 ≠ .ok → r.2 = g

theorem persistReceiveBoundaryIfNeeded_effects (hs : Env μ true s) (hg : Checkpointable g) :
    Holds μ true (persistReceiveBoundaryIfNeeded g s)
      (fun r d => (¬ Due g → r = (.ok, g) ∧ d = s.device) ∧
        (Due g → Attempted g s.device r d ∧ (r.1 = .ok ∨ μ.Faulty)))
      (fun _ => True) := by
  unfold persistReceiveBoundaryIfNeeded
  split
  · next hnot =>
      exact Holds.pure hs ⟨fun _ => ⟨rfl, rfl⟩, fun hdue => absurd hnot hdue⟩
  · next hdue =>
      have haligned : g.nextOffset.toNat % extFlashSectorSize = 0 := by
        by_contra hbad
        exact hdue (.inr (.inl hbad))
      have hvalid := candidateFor_valid hg hg.offset_le (.inl ⟨rfl, haligned⟩) s.device
      refine Holds.bind (((RecordStore.commit_holds DownloadCheckpointStorage.store_sealed hs
        (.inl rfl) hvalid).and_keeps (RecordStore.commit_keeps checkpoint_frame _)).and_returns
          (commit_returns_error _)) ?_ (fun _ _ => trivial)
      intro r t ht hr
      obtain ⟨⟨hcommitted | ⟨⟨e, rfl⟩, hfaulty⟩, hframe⟩, herror⟩ := hr
      · obtain ⟨rfl, hcurrent⟩ := hcommitted
        refine Holds.pure ht ⟨fun hnot => absurd hdue hnot, fun _ => ⟨⟨hframe, fun _ => ?_, ?_⟩,
          .inl rfl⟩⟩
        · exact ⟨rfl, hcurrent⟩
        · intro hbad
          exact absurd rfl hbad
      · refine Holds.pure ht ⟨fun hnot => absurd hdue hnot, fun _ => ⟨⟨hframe, ?_, fun _ => rfl⟩,
          .inr hfaulty⟩⟩
        intro hok
        exact absurd hok (herror e rfl)

end Checkpoints

/-! ## The first delivery -/

/-- The session when the bytes of a packet are stored. -/
def storedSession (g : Session) (request : OtaPacket) (d : Device) : Session :=
  advanced
    { g with
      erasedSectorBitmap :=
        (erasedFor g.erasedSectorBitmap request.offset request.payload.length d).1 } request

/-- The flash when the bytes of a packet are stored. -/
def storedDevice (g : Session) (request : OtaPacket) (d : Device) : Device :=
  filled request.offset.toNat request.payload
    (erasedFor g.erasedSectorBitmap request.offset request.payload.length d).2

/-- The bytes of a packet can be written once the sectors without a mark are erased. -/
def Fits (g : Session) (request : OtaPacket) (d : Device) : Prop :=
  Programmable (erasedFor g.erasedSectorBitmap request.offset request.payload.length d).2
    (ExternalPartition.incoming.address + request.offset.toNat) request.payload

/-- The bytes of a packet are stored, and a checkpoint that is due was attempted. -/
structure Delivers (g : Session) (request : OtaPacket) (d : Device)
    (outcome : RecordStorageStatus × Session) (d' : Device) : Prop where
  settled : ¬ Due (storedSession g request d) →
    outcome = (.ok, storedSession g request d) ∧ d' = storedDevice g request d
  due : Due (storedSession g request d) →
    Attempted (storedSession g request d) (storedDevice g request d) outcome d'

section Delivery

variable {μ : Mode} {s : Machine} {g : Session} {request : OtaPacket} {version : UInt32}

theorem storedSession_checkpointable (hg : Checkpointable g) (hnext : refuseData g request = none)
    (d : Device) : Checkpointable (storedSession g request d) := by
  obtain ⟨-, -, hroom⟩ := refuseData_eq_none.1 hnext
  rw [remaining_toNat hg.offset_le] at hroom
  have hle := hg.offset_le
  have hmax := hg.size_le
  exact (advanced_advances (by omega)).checkpointable hg (by omega)

/-- A packet is stored as far as the flash works and its bytes fit. -/
theorem storeData_effects (hs : Env μ true s) (hg : Checkpointable g)
    (hnext : refuseData g request = none) (hpos : 0 < request.payload.length) :
    Holds μ true (storeData g request s)
      (fun r d => r.1.nextOffset = g.nextOffset ∧ (μ.Faulty ∨ ¬ Fits g request s.device) ∨
        Fits g request s.device ∧ ∃ outcome, r = replyCheckpoint outcome.2 request outcome.1 ∧
          Delivers g request s.device outcome d ∧ (outcome.1 = .ok ∨ μ.Faulty))
      (fun _ => True) := by
  obtain ⟨-, hoffset, hroom⟩ := refuseData_eq_none.1 hnext
  rw [remaining_toNat hg.offset_le, ← hoffset] at hroom
  have hrange : request.offset.toNat + request.payload.length ≤ extIncomingSize := by
    have hle := hg.offset_le
    have hmax := hg.size_le
    rw [← hoffset] at hle
    omega
  have hchecked := storedSession_checkpointable hg hnext s.device
  have hfits : Fits g request s.device ↔ Programmable
      (erasedFor g.erasedSectorBitmap request.offset request.payload.length s.device).2
        (ExternalPartition.incoming.address + request.offset.toNat) request.payload := Iff.rfl
  have hsession : storedSession g request s.device = advanced
      { g with
        erasedSectorBitmap :=
          (erasedFor g.erasedSectorBitmap request.offset request.payload.length s.device).1 }
      request := rfl
  have hdevice : storedDevice g request s.device = filled request.offset.toNat request.payload
      (erasedFor g.erasedSectorBitmap request.offset request.payload.length s.device).2 := rfl
  have hrefused : ∀ (bitmap : UInt32) {u : Machine}, Env μ true u →
      (μ.Faulty ∨ ¬ Fits g request s.device) →
      Holds μ true (nackStorage { g with erasedSectorBitmap := bitmap } request u)
        (fun r d => r.1.nextOffset = g.nextOffset ∧ (μ.Faulty ∨ ¬ Fits g request s.device) ∨
          Fits g request s.device ∧ ∃ outcome, r = replyCheckpoint outcome.2 request outcome.1 ∧
            Delivers g request s.device outcome d ∧ (outcome.1 = .ok ∨ μ.Faulty))
        (fun _ => True) :=
    fun bitmap u hu hbad => Holds.read hu (.inl ⟨rfl, hbad⟩)
  unfold storeData
  refine Holds.bind (ensureIncomingSectorsErased_effects hs (.inl rfl) hpos hrange) ?_
    (fun _ _ => trivial)
  intro r t ht hr
  obtain ⟨erased, bitmap⟩ := r
  dsimp only at hr ⊢
  obtain ⟨rfl, herased⟩ | ⟨rfl, hfaulty⟩ := hr
  swap
  · exact hrefused bitmap ht (.inl hfaulty)
  rw [← herased] at hfits hsession hdevice
  dsimp only at hfits hsession hdevice
  rw [if_neg (by simp)]
  refine Holds.bind (writeIncoming_effects ht (.inl rfl) hrange) ?_ (fun _ _ => trivial)
  intro ok u hu hok
  obtain ⟨rfl, hfilled, hprogrammable⟩ | ⟨rfl, hbad⟩ := hok
  swap
  · refine hrefused bitmap hu (hbad.imp_right fun hnot => ?_)
    rwa [hfits]
  rw [if_neg (by simp)]
  rw [← hdevice] at hfilled
  refine Holds.bind (storageVerify_holds (p := .incoming) hu (.inl rfl) hrange) ?_
    (fun _ _ => trivial)
  intro ok v hv hok
  obtain ⟨hsame, ⟨rfl, -⟩ | ⟨rfl, hbad⟩⟩ := hok
  swap
  · refine hrefused bitmap hv (.inl (hbad.resolve_right (not_not.2 ?_)))
    rw [hfilled]
    exact slice_filled _ _ _
  rw [if_neg (by simp), ← hsession]
  refine Holds.bind (persistReceiveBoundaryIfNeeded_effects hv hchecked) ?_ (fun _ _ => trivial)
  intro outcome w hw houtcome
  rw [hsame, hfilled] at houtcome
  refine Holds.pure hw (.inr ⟨hfits.2 hprogrammable, outcome, rfl, ⟨?_, ?_⟩, ?_⟩)
  · exact houtcome.1
  · intro hdue
    exact (houtcome.2 hdue).1
  · by_cases hdue : Due (storedSession g request s.device)
    · exact (houtcome.2 hdue).2
    · exact .inl (by rw [(houtcome.1 hdue).1])

theorem processPacket_data (h : request.command = OtaCommand.data.code) :
    processPacket version g request = processData g request := by
  unfold processPacket
  rw [h, OtaCommand.ofCode_code]

theorem persistReceiveBoundaryIfNeeded_nextOffset (g : Session) :
    Returns (persistReceiveBoundaryIfNeeded g) (fun r => r.2.nextOffset = g.nextOffset) := by
  refine Returns.ite (fun _ => Returns.pure rfl) fun _ =>
    Returns.bind (Returns.trivial _) fun r _ => ?_
  cases r with
  | error status => exact Returns.pure rfl
  | ok committed => exact Returns.pure rfl

theorem replyCheckpoint_nextOffset (g : Session) (request : OtaPacket)
    (status : RecordStorageStatus) : (replyCheckpoint g request status).1.nextOffset =
      g.nextOffset := by
  unfold replyCheckpoint
  split <;> rfl

theorem processRepeatedData_nextOffset (g : Session) (request : OtaPacket) :
    Returns (processRepeatedData g request) (fun r => r.1.nextOffset = g.nextOffset) := by
  refine Returns.bind (Returns.trivial _) fun stored _ =>
    Returns.ite (fun _ => ?_) fun _ => Returns.pure rfl
  refine Returns.bind (persistReceiveBoundaryIfNeeded_nextOffset g) fun r hr => Returns.pure ?_
  rw [replyCheckpoint_nextOffset, hr]

/-- Only a packet that is stored moves the session on. -/
theorem takes_of_progress {r : Reply} {t : Machine} (hcommand : request.command = OtaCommand.data.code)
    (hrun : processData g request s = .done r t) (hprogress : r.1.nextOffset ≠ g.nextOffset) :
    Takes g request ∧ storeData g request s = .done r t := by
  have hnack : ∀ status detail, (pure (nack g request status detail) : Prog Machine Reply) s ≠
      .done r t := by
    intro status detail heq
    cases heq
    exact hprogress rfl
  unfold processData at hrun
  split at hrun
  · exact absurd hrun (hnack _ _)
  next hstate =>
  split at hrun
  · exact absurd hrun (hnack _ _)
  next hid =>
  split at hrun
  · exact absurd hrun (hnack _ _)
  next hlength =>
  split at hrun
  · exact absurd (processRepeatedData_nextOffset g request _ _ _ hrun) hprogress
  next hrepeats =>
  cases hnext : refuseData g request with
  | some refusal =>
      rw [hnext] at hrun
      exact absurd hrun (hnack _ _)
  | none =>
      rw [hnext] at hrun
      exact ⟨⟨hcommand, not_not.1 hstate, not_not.1 hid, by omega, by omega,
        Bool.eq_false_iff.2 hrepeats, hnext⟩, hrun⟩

/-! The driver stays as it was initialised. -/

/-- The driver is initialised or not, as before. -/
def SameDriver (s t : Machine) : Prop := t.spi.initialized = s.spi.initialized

instance : IsPreorder Machine SameDriver where
  refl _ := rfl
  trans _ _ _ h₁ h₂ := Eq.trans h₂ h₁

theorem setStatus_sameDriver (status : SpiFlashStatus) :
    Respects SameDriver (SpiFlash.setStatus status) :=
  fun _ => rfl

theorem report_sameDriver {α : Type} (status : SpiFlashStatus) (a : α) :
    Respects SameDriver (SpiFlash.report status a) :=
  Respects.bind (setStatus_sameDriver status) fun _ => Respects.pure _

theorem sectorErase_sameDriver (address : Nat) :
    Respects SameDriver (SpiFlash.sectorErase address) := by
  have hnext : Respects SameDriver Flash.nextOutcome := by
    intro s
    unfold Flash.nextOutcome
    split <;> rfl
  have hupdate : ∀ f, Respects SameDriver (Flash.update f) := fun f s => rfl
  refine Respects.bind hnext fun o => ?_
  cases o with
  | cut written => exact Respects.halt
  | externalFault status junk =>
      exact Respects.bind (hupdate _) fun _ =>
        Respects.bind (setStatus_sameDriver _) fun _ => Respects.pure _
  | ok => exact Respects.bind (hupdate _) fun _ => Respects.pure _
  | internalFault junk => exact Respects.bind (hupdate _) fun _ => Respects.pure _

theorem eraseRange_sameDriver (partition : ExternalPartition) (offset length : Nat) :
    Respects SameDriver (ExternalFlashStorage.eraseRange partition offset length) := by
  have hsector : ∀ address, Respects SameDriver (SpiFlash.eraseSector address) := fun address =>
    Respects.bind (Respects.read _) fun _ => Respects.ite (report_sameDriver _ _)
      (Respects.ite (report_sameDriver _ _) (Respects.ite (report_sameDriver _ _)
        (Respects.bind (sectorErase_sameDriver address) fun _ =>
          Respects.ite (Respects.pure _) (report_sameDriver _ _))))
  refine Respects.ite (Respects.pure _) (Respects.ite (Respects.pure _)
    (Respects.loopThen (fun erased _ => ?_) (fun _ => Respects.pure _) _ _))
  exact Respects.bind (hsector _) fun _ => Respects.ite (Respects.pure _) (Respects.pure _)

theorem ensureIncomingSectorsErased_sameDriver (bitmap offset : UInt32) (length : Nat) :
    Respects SameDriver (ensureIncomingSectorsErased bitmap offset length) := by
  refine Respects.ite (Respects.pure _)
    (Respects.loopThen (fun st _ => ?_) (fun _ => Respects.pure _) _ _)
  refine Respects.ite (Respects.bind (eraseRange_sameDriver _ _ _) fun _ => ?_) (Respects.pure _)
  exact Respects.ite (Respects.pure _) (Respects.pure _)

theorem write_uninitialized {partition : ExternalPartition} {offset : Nat} {data : List UInt8}
    {t : Machine} {ok : Bool} (h : s.spi.initialized = false)
    (hrun : ExternalFlashStorage.write partition offset data s = .done ok t) : ok = false := by
  unfold ExternalFlashStorage.write at hrun
  cases hresolved : ExternalFlashStorage.resolveRange partition offset data.length with
  | none =>
      rw [hresolved] at hrun
      cases hrun
      rfl
  | some address =>
      rw [hresolved] at hrun
      obtain ⟨initialized, u, hread, hrest⟩ := bind_done hrun
      cases hread
      rw [if_pos (by simp [h])] at hrest
      cases hrest
      rfl

/-- A packet is only stored if the driver was initialised. -/
theorem initialized_of_progress {r : Reply} {t : Machine}
    (hrun : storeData g request s = .done r t) (hprogress : r.1.nextOffset ≠ g.nextOffset) :
    s.spi.initialized = true := by
  by_contra hnot
  rw [Bool.not_eq_true] at hnot
  obtain ⟨erased, u, herased, hrest⟩ := bind_done hrun
  have hdriver := ensureIncomingSectorsErased_sameDriver g.erasedSectorBitmap request.offset
    request.payload.length s
  rw [herased] at hdriver
  have hoff : u.spi.initialized = false := Eq.trans hdriver hnot
  have hnack : ∀ (bitmap : UInt32) (v : Machine),
      nackStorage { g with erasedSectorBitmap := bitmap } request v ≠ .done r t := by
    intro bitmap v heq
    cases heq
    exact hprogress rfl
  dsimp only at hrest
  split at hrest
  · exact hnack _ _ hrest
  · obtain ⟨written, v, hwritten, hlast⟩ := bind_done hrest
    rw [write_uninitialized hoff hwritten] at hlast
    exact hnack _ _ hlast

/-- What is known of a packet that moved the session on. -/
theorem delivers_of_progress {r : Reply} {t : Machine} (hg : g.state = .receiving → Checkpointable g)
    (hcommand : request.command = OtaCommand.data.code)
    (hrun : processPacket version g request s = .done r t)
    (hprogress : r.1.nextOffset ≠ g.nextOffset) :
    Takes g request ∧ s.spi.initialized = true ∧ t.spi.initialized = true ∧
      Fits g request s.device ∧ ∃ outcome, r = replyCheckpoint outcome.2 request outcome.1 ∧
        Delivers g request s.device outcome t.device := by
  rw [processPacket_data hcommand] at hrun
  obtain ⟨htakes, hstore⟩ := takes_of_progress hcommand hrun hprogress
  have hinit := initialized_of_progress hstore hprogress
  obtain ⟨-, hstate, -, hpos, -, -, hnext⟩ := id htakes
  have heffects := storeData_effects ((env_hostile s).initialized_of hinit) (hg hstate) hnext hpos
  rw [hstore] at heffects
  obtain ⟨ht, ⟨hsame, -⟩ | ⟨hfits, outcome, hr, hdelivers, -⟩⟩ := heffects
  · exact absurd hsame hprogress
  · exact ⟨htakes, hinit, ht.initialized rfl, hfits, outcome, hr, hdelivers⟩

end Delivery

/-! ## Further deliveries -/

section Repetition

variable {μ : Mode} {s : Machine} {g : Session} {request : OtaPacket}

/-- The session has just taken the packet, and its bytes are there. -/
structure JustTook (g : Session) (request : OtaPacket) (d : Device) : Prop where
  checkpointable : Checkpointable g
  receiving : g.state = .receiving
  updateId : request.updateId = g.updateId
  length : 0 < request.payload.length ∧ request.payload.length ≤ otaMaxPayloadSize
  repeats : repeatsLastData g request = true
  inside : request.offset.toNat + request.payload.length ≤ extIncomingSize
  bytes : d.slice .incoming request.offset.toNat request.payload.length = request.payload

/-- A repeated packet is acknowledged, and a checkpoint that is due is committed. -/
theorem processPacket_repeated (version : UInt32) (hs : Env μ true s) (hcuts : μ.cuts = false)
    (hfault : ¬ μ.Faulty) (hcommand : request.command = OtaCommand.data.code)
    (h : JustTook g request s.device) :
    ∃ outcome t, processPacket version g request s =
        .done (replyCheckpoint outcome.2 request outcome.1) t ∧ Env μ true t ∧ outcome.1 = .ok ∧
      (¬ Due g → outcome = (.ok, g) ∧ t.device = s.device) ∧
      (Due g → Attempted g s.device outcome t.device) := by
  have hsize : ExternalPartition.incoming.size = extIncomingSize := rfl
  have hlength := h.length
  have hprocess : processData g request = processRepeatedData g request := by
    unfold processData
    rw [if_neg (not_not.2 h.receiving), if_neg (not_not.2 h.updateId), if_neg (by omega),
      if_pos h.repeats]
  have hmatches : Holds μ true (storedDataMatches request s)
      (fun stored d => stored = true ∧ d = s.device) (fun _ => True) := by
    refine Holds.bind (storageRead_holds hs (.inl rfl) _ _ _) ?_ (fun _ _ => trivial)
    intro r t ht hr
    obtain ⟨hd, ⟨rfl, -⟩ | ⟨rfl, hbad⟩⟩ := hr
    · refine Holds.pure ht ⟨decide_eq_true h.bytes, hd⟩
    · refine absurd (hbad.resolve_left hfault) ?_
      have hinside := h.inside
      omega
  have hrepeated : Holds μ true (processRepeatedData g request s)
      (fun r d => ∃ outcome, r = replyCheckpoint outcome.2 request outcome.1 ∧ outcome.1 = .ok ∧
        (¬ Due g → outcome = (.ok, g) ∧ d = s.device) ∧
        (Due g → Attempted g s.device outcome d))
      (fun _ => True) := by
    refine Holds.bind hmatches ?_ (fun _ _ => trivial)
    intro stored t ht hstored
    obtain ⟨rfl, hd⟩ := hstored
    rw [if_pos rfl]
    refine Holds.bind (persistReceiveBoundaryIfNeeded_effects ht h.checkpointable) ?_
      (fun _ _ => trivial)
    intro outcome u hu houtcome
    rw [hd] at houtcome
    refine Holds.pure hu ⟨outcome, rfl, ?_, houtcome.1, fun hdue => (houtcome.2 hdue).1⟩
    by_cases hdue : Due g
    · exact (houtcome.2 hdue).2.resolve_right hfault
    · rw [(houtcome.1 hdue).1]
  rw [processPacket_data hcommand, hprocess]
  obtain ⟨r, t, hdone, ht, outcome, hr, hok, hsettled, hdue⟩ := hrepeated.exists_done hcuts
  exact ⟨outcome, t, hdone.trans (by rw [hr]), ht, hok, hsettled, hdue⟩

/-- What a session reports of itself does not matter. -/
theorem JustTook.setStatus {d : Device} (h : JustTook g request d) (status : OtaStatus)
    (detail : UInt32) : JustTook (setStatus g status detail) request d := by
  obtain ⟨⟨hid, hpos, hsize, hoffset⟩, hstate, hupdate, hlength, hrepeats, hinside, hbytes⟩ := h
  exact ⟨⟨hid, hpos, hsize, hoffset⟩, hstate, hupdate, hlength, hrepeats, hinside, hbytes⟩

theorem JustTook.persisted {d d' : Device} (h : JustTook g request d) (offset : UInt32)
    (hframe : DownloadCheckpointStorage.CheckpointFrame d d') :
    JustTook { g with persistedOffset := offset } request d' := by
  obtain ⟨⟨hid, hpos, hsize, hoffset⟩, hstate, hupdate, hlength, hrepeats, hinside, hbytes⟩ := h
  refine ⟨⟨hid, hpos, hsize, hoffset⟩, hstate, hupdate, hlength, hrepeats, hinside, ?_⟩
  rw [Frame.slice hframe (p := .incoming) (by decide) hinside]
  exact hbytes

theorem storedSession_justTook (hg : Checkpointable g) (htakes : Takes g request) (d : Device) :
    JustTook (storedSession g request d) request (storedDevice g request d) := by
  obtain ⟨-, hstate, hid, hpos, hmax, -, hnext⟩ := htakes
  have hchecked := storedSession_checkpointable hg hnext d
  obtain ⟨-, hoffset, hroom⟩ := refuseData_eq_none.1 hnext
  rw [remaining_toNat hg.offset_le, ← hoffset] at hroom
  have hle := hg.offset_le
  have hsize := hg.size_le
  rw [← hoffset] at hle
  refine ⟨hchecked, hstate, hid, ⟨hpos, hmax⟩, ?_, by omega, slice_filled _ _ _⟩
  simp [repeatsLastData, storedSession, advanced]

/-- The packet has been taken, whether or not its checkpoint was committed. -/
theorem Delivers.justTook {d d' : Device} {outcome : RecordStorageStatus × Session}
    (h : Delivers g request d outcome d') (hg : Checkpointable g) (htakes : Takes g request) :
    JustTook outcome.2 request d' := by
  have hstored := storedSession_justTook hg htakes d
  by_cases hdue : Due (storedSession g request d)
  · have hattempted := h.due hdue
    by_cases hok : outcome.1 = .ok
    · rw [(hattempted.committed hok).1]
      exact hstored.persisted _ hattempted.frame
    · rw [hattempted.failed hok]
      exact hstored.persisted (storedSession g request d).persistedOffset hattempted.frame
  · obtain ⟨houtcome, hd⟩ := h.settled hdue
    rw [houtcome, hd]
    exact hstored

theorem not_due_persisted (g : Session) :
    ¬ Due { g with persistedOffset := g.nextOffset } := by
  unfold Due
  simp

theorem Delivers.not_due {d d' : Device} {outcome : RecordStorageStatus × Session}
    (h : Delivers g request d outcome d') (hok : outcome.1 = .ok) : ¬ Due outcome.2 := by
  by_cases hdue : Due (storedSession g request d)
  · rw [((h.due hdue).committed hok).1]
    exact not_due_persisted _
  · rw [(h.settled hdue).1]
    exact hdue

/-- Only a checkpoint that was not committed keeps a stored packet from being acknowledged. -/
theorem Delivers.due_of_failed {d d' : Device} {outcome : RecordStorageStatus × Session}
    (h : Delivers g request d outcome d') (hfailed : outcome.1 ≠ .ok) :
    Due (storedSession g request d) := by
  by_contra hdue
  exact hfailed (by rw [(h.settled hdue).1])

theorem replyCheckpoint_isAck (g : Session) (request : OtaPacket) (status : RecordStorageStatus) :
    (replyCheckpoint g request status).2.command = OtaCommand.ack.code ↔ status = .ok := by
  unfold replyCheckpoint
  split
  · next hok => exact iff_of_true (ack_command g request) hok
  · next hfailed => exact iff_of_false (nack_command (by decide) _ _ _) hfailed

end Repetition

end OtaReceiver

end SecureDeltaOta
