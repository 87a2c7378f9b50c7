import SecureDeltaOta.Boot.JanpatchData
import SecureDeltaOta.Boot.JanpatchWords

/-!
# The accesses of the patcher

Below an operation: reading, writing, copying and the literal buffer. Whatever
the contents of the flash and its failures are, the patcher in machine words runs
in step with the one over the natural numbers, and its record stays sound.
-/

namespace SecureDeltaOta

open Memory Crash

namespace JanpatchPort.Words

open JojoDiff (jdiffEsc jdiffMod jdiffIns jdiffDel jdiffEql jdiffBkt isOpcode)
open Coded (note observe whileLoop Steps)

def Stream.toNat (stream : Stream) : JanpatchPort.Stream where
  baseImageSize := stream.baseImageSize.toNat
  patchOffset := stream.patchOffset.toNat
  patchSize := stream.patchSize.toNat
  targetImageSize := stream.targetImageSize.toNat

def Context.toNat (c : Context) : JanpatchPort.Context where
  sourcePosition := c.sourcePosition.toNat
  patchPosition := c.patchPosition.toNat
  targetPosition := c.targetPosition.toNat
  operationCount := c.operationCount.toNat
  equalBytes := c.equalBytes.toNat
  modifiedBytes := c.modifiedBytes.toNat
  insertedBytes := c.insertedBytes.toNat
  deletedBytes := c.deletedBytes.toNat
  backwardBytes := c.backwardBytes.toNat

/-- The images and the patch fit into the memories they lie in. -/
structure Stream.Bounded (stream : Stream) : Prop where
  base : stream.baseImageSize.toNat ≤ 38912
  patch : stream.patchOffset.toNat + stream.patchSize.toNat ≤ 0x20000
  target : stream.targetImageSize.toNat ≤ 38912

/-! ## The record -/

variable {stream : Stream} {f : Nat → UInt8} {n m : Nat} {u : Machine} {s : Traced Machine Access}

/-- The record is sound, the target is written up to `n`, and the patch is what it was. -/
structure Tracked (stream : Stream) (f : Nat → UInt8) (n : Nat) (u : Machine)
    (s : Traced Machine Access) : Prop where
  state : s.state = u
  sound : Sound stream s.trace
  covers : covered (writes s.trace) = n
  incoming : ∀ i < 0x20000, u.device.part .incoming i = f i

def Access.isWrite : Access → Bool
  | .write _ _ => true
  | _ => false

theorem writes_concat_of_not_write {trace : List Access} {access : Access}
    (h : access.isWrite = false) : writes (trace ++ [access]) = writes trace := by
  cases access with
  | write offset data => cases h
  | _ => simp [writes]

theorem writes_concat_write (trace : List Access) (offset : UInt32) (data : List UInt8) :
    writes (trace ++ [.write offset data]) = writes trace ++ [(offset.toNat, data.length)] := by
  simp [writes]

theorem Tracked.note (h : Tracked stream f n u s) (access : Access) (hsafe : access.Safe stream)
    (hwrite : access.isWrite = false) : Tracked stream f n u (s.note access) where
  state := h.state
  sound :=
    { safe := by
        intro e he
        rcases List.mem_append.1 he with he | he
        · exact h.sound.safe e he
        · cases List.mem_singleton.1 he
          exact hsafe
      consecutive := by
        rw [Traced.note_trace, writes_concat_of_not_write hwrite]
        exact h.sound.consecutive }
  covers := by
    rw [Traced.note_trace, writes_concat_of_not_write hwrite]
    exact h.covers
  incoming := h.incoming

section Notes

variable {α β : Type} {k : UInt32 → Code α} {q : Result Machine (Except Status β)}
  {R : α → β → Traced Machine Access → Prop} {a b : UInt32}

theorem steps_add (h : Tracked stream f n u s) (hsum : a.toNat + b.toNat < 2 ^ 32)
    (hk : ∀ t, Tracked stream f n u t → Steps (Sound stream) ((k (a + b)).run t) q R) :
    Steps (Sound stream) ((add a b >>= k).run s) q R :=
  hk _ (h.note (.add a b) hsum rfl)

theorem steps_sub (h : Tracked stream f n u s) (hle : b.toNat ≤ a.toNat)
    (hk : ∀ t, Tracked stream f n u t → Steps (Sound stream) ((k (a - b)).run t) q R) :
    Steps (Sound stream) ((sub a b >>= k).run s) q R :=
  hk _ (h.note (.sub a b) hle rfl)

theorem steps_note {access : Access} {k : Unit → Code α} (h : Tracked stream f n u s)
    (hsafe : access.Safe stream) (hwrite : access.isWrite = false)
    (hk : ∀ t, Tracked stream f n u t → Steps (Sound stream) ((k ()).run t) q R) :
    Steps (Sound stream) ((note access >>= k).run s) q R :=
  hk _ (h.note _ hsafe hwrite)

/-- The program returns here; what follows is stated for the machine it returns in. -/
theorem steps_pure {a : α} {b : β} (h : Tracked stream f n u s)
    (hR : Tracked stream f n s.state s → R a b s) :
    Steps (Sound stream) ((pure a : Code α).run s)
      ((pure (.ok b) : Prog Machine (Except Status β)) u) R := by
  obtain rfl := h.state
  exact Steps.pure (hR h)

theorem steps_throw {status : Status} (h : Tracked stream f n u s) :
    Steps (Sound stream) ((throw status : Code α).run s)
      ((pure (.error status) : Prog Machine (Except Status β)) u) R := by
  obtain rfl := h.state
  exact Steps.throw h.sound

end Notes

theorem toNat_add {a b : UInt32} (h : a.toNat + b.toNat < 2 ^ 32) :
    (a + b).toNat = a.toNat + b.toNat := by
  rw [UInt32.toNat_add, Nat.mod_eq_of_lt h]

theorem toNat_sub {a b : UInt32} (h : b.toNat ≤ a.toNat) : (a - b).toNat = a.toNat - b.toNat :=
  UInt32.toNat_sub_of_le a b (UInt32.le_iff_toNat_le.2 h)

/-! ## Reading -/

/-- A flash read returns the contents or nothing, and changes nothing. -/
theorem incomingRead_ensures (u : Machine) (offset : Nat) :
    (ExternalFlashStorage.read .incoming offset 1 u).Ensures
      (fun r t => t.device = u.device ∧
        ∀ bytes, r = some bytes → bytes = u.device.slice .incoming offset 1) (fun _ => True) := by
  refine Result.Ensures.mono
    (storageRead_holds (env_hostile u) (.inr rfl) .incoming offset 1) ?_ (fun _ _ => trivial)
  rintro r t ⟨-, hdevice, ⟨rfl, -⟩ | ⟨rfl, -⟩⟩
  · exact ⟨hdevice, fun bytes h => (Option.some.inj h).symm⟩
  · exact ⟨hdevice, nofun⟩

theorem flashByte_steps (h : Tracked stream f n u s) (offset : UInt32) (position : Nat)
    (hoffset : offset.toNat = stream.toNat.patchOffset + position) (hin : offset.toNat < 0x20000) :
    Steps (Sound stream) ((flashByte offset).run s) (patchByteAt stream.toNat position u)
      (fun a b t => a = b ∧ a = f offset.toNat ∧ Tracked stream f n t.state t) := by
  obtain ⟨rfl, hsound, hcovers, hincoming⟩ := h
  unfold flashByte patchByteAt
  rw [← hoffset]
  refine Steps.observe (incomingRead_ensures _ _) hsound ?_
  rintro r t htrace ⟨hdevice, hbytes⟩
  have htracked : Tracked stream f n t.state t :=
    ⟨rfl, htrace ▸ hsound, htrace ▸ hcovers, hdevice ▸ hincoming⟩
  cases r with
  | none => exact Steps.throw htracked.sound
  | some bytes =>
      refine Steps.pure ⟨rfl, ?_, htracked⟩
      rw [hbytes bytes rfl, Device.slice_eq_window, window_getD Nat.one_pos]
      exact hincoming _ hin

/-- The context stays within the stream, and its statistics within their words. -/
structure Within (stream : Stream) (m : Nat) (c : Context) : Prop where
  source : c.sourcePosition.toNat ≤ stream.baseImageSize.toNat
  patch : c.patchPosition.toNat ≤ stream.patchSize.toNat
  target : c.targetPosition.toNat ≤ stream.targetImageSize.toNat
  written : c.equalBytes.toNat + c.modifiedBytes.toNat + c.insertedBytes.toNat ≤
    c.targetPosition.toNat
  -- an operation with a length takes at least two bytes of the patch
  deleted : 2 * c.deletedBytes.toNat ≤ 38912 * c.patchPosition.toNat
  backward : 2 * c.backwardBytes.toNat ≤ 38912 * c.patchPosition.toNat
  count : c.operationCount.toNat ≤ m

/-- Moving the patch cursor forward inside the patch keeps the bounds. -/
theorem Within.advance {c : Context} (h : Within stream m c) {p : UInt32}
    (hle : c.patchPosition.toNat ≤ p.toNat) (hp : p.toNat ≤ stream.patchSize.toNat) :
    Within stream m { c with patchPosition := p } where
  source := h.source
  patch := hp
  target := h.target
  written := h.written
  deleted := h.deleted.trans (Nat.mul_le_mul_left _ hle)
  backward := h.backward.trans (Nat.mul_le_mul_left _ hle)
  count := h.count

section Reading

variable (hstream : stream.Bounded) {c : Context}

include hstream

theorem patchPeekByte_steps (hpatch : c.patchPosition.toNat ≤ stream.patchSize.toNat)
    (h : Tracked stream f n u s) (ahead : UInt32)
    (hin : c.patchPosition.toNat + ahead.toNat < stream.patchSize.toNat) :
    Steps (Sound stream) ((patchPeekByte stream c ahead).run s)
      (JanpatchPort.patchPeekByte stream.toNat c.toNat.patchPosition ahead.toNat u)
      (fun a b t => a = b ∧
        a = f (stream.patchOffset.toNat + (c.patchPosition.toNat + ahead.toNat)) ∧
        Tracked stream f n t.state t) := by
  have hbound := hstream.patch
  have hsum : c.patchPosition.toNat + ahead.toNat < 2 ^ 32 := by omega
  have hroom := toNat_sub hpatch
  have hposition := toNat_add hsum
  have hoffset : stream.patchOffset.toNat + (c.patchPosition + ahead).toNat < 2 ^ 32 := by omega
  unfold patchPeekByte JanpatchPort.patchPeekByte
  rw [if_neg (by simp only [Stream.toNat, Context.toNat]; omega),
    if_neg (by simp only [Stream.toNat, Context.toNat]; omega)]
  refine steps_sub h hpatch fun t ht => ?_
  rw [if_neg (by rw [UInt32.not_lt, UInt32.le_iff_toNat_le]; omega)]
  refine steps_add ht hsum fun t ht => ?_
  rw [if_neg (by rw [ge_iff_le, UInt32.le_iff_toNat_le]; omega)]
  refine steps_add ht hoffset fun t ht => ?_
  have hflash := flashByte_steps ht (stream.patchOffset + (c.patchPosition + ahead))
    (c.toNat.patchPosition + ahead.toNat)
    (by simp only [Stream.toNat, Context.toNat]; rw [toNat_add hoffset, hposition])
    (by rw [toNat_add hoffset]; omega)
  rwa [toNat_add hoffset, hposition] at hflash

/-- The patch cursor has moved on by `count` bytes and is still inside the patch. -/
def Moved (stream : Stream) (c c' : Context) (position : Nat) : Prop :=
  ∃ p : UInt32, c' = { c with patchPosition := p } ∧ p.toNat = position ∧
    p.toNat ≤ stream.patchSize.toNat

theorem patchReadByte_steps (h : Tracked stream f n u s) :
    Steps (Sound stream) ((patchReadByte stream c).run s)
      (JanpatchPort.patchReadByte stream.toNat c.toNat.patchPosition u)
      (fun a b t => a.1 = b ∧ Moved stream c a.2 (c.patchPosition.toNat + 1) ∧
        Tracked stream f n t.state t) := by
  have hbound := hstream.patch
  unfold patchReadByte JanpatchPort.patchReadByte
  refine Steps.ite UInt32.le_iff_toNat_le (fun _ _ => steps_throw h) (fun _ hin => ?_)
  have hin' : c.patchPosition.toNat < stream.patchSize.toNat := Nat.not_le.1 hin
  have hoffset : stream.patchOffset.toNat + c.patchPosition.toNat < 2 ^ 32 := by omega
  have hnext : c.patchPosition.toNat + (1 : UInt32).toNat < 2 ^ 32 := by
    rw [UInt32.toNat_one]
    omega
  have hmoved := toNat_add hnext
  rw [UInt32.toNat_one] at hmoved
  refine steps_add h hoffset fun t ht => ?_
  refine Steps.after (flashByte_steps ht _ c.toNat.patchPosition (toNat_add hoffset)
    (by rw [toNat_add hoffset]; omega)) ?_
  rintro value value' t ⟨rfl, -, ht⟩
  refine steps_add ht hnext fun t ht => ?_
  exact steps_pure ht fun ht => ⟨rfl, ⟨_, rfl, hmoved, by omega⟩, ht⟩

theorem readBytes_steps (h : Tracked stream f n u s) (count : Nat)
    (hpatch : c.patchPosition.toNat ≤ stream.patchSize.toNat) (value : Nat) :
    Steps (Sound stream) ((readBytes stream count c).run s)
      (JanpatchPort.readBigEndian stream.toNat count c.toNat.patchPosition value u)
      (fun a b t => a.1.length = count ∧
        b.1 = a.1.foldl (fun value byte => value * 256 + byte.toNat) value ∧
        b.2 = c.patchPosition.toNat + count ∧ Moved stream c a.2 b.2 ∧
        Tracked stream f n t.state t) := by
  induction count generalizing c s u value with
  | zero => exact steps_pure h fun h => ⟨rfl, rfl, rfl, ⟨_, rfl, rfl, hpatch⟩, h⟩
  | succ count ih =>
      unfold readBytes JanpatchPort.readBigEndian
      refine Steps.bind (patchReadByte_steps hstream h) ?_ (fun _ => rfl)
      rintro ⟨first, c'⟩ _ t ⟨rfl, ⟨p, rfl, hp, hple⟩, ht⟩
      have hrest := ih (c := { c with patchPosition := p }) ht hple (value * 256 + first.toNat)
      simp only [Context.toNat, hp] at hrest
      refine Steps.after hrest ?_
      rintro ⟨bytes, c'⟩ b t ⟨hlength, hvalue, hposition, ⟨p', rfl, hp', hple'⟩, ht⟩
      refine steps_pure ht fun ht => ⟨?_, hvalue, ?_, ⟨p', rfl, hp', hple'⟩, ht⟩
      · exact congrArg (· + 1) hlength
      · rw [hposition]
        omega

omit hstream in
theorem joinBytes_toNat {bytes : List UInt8} (h : bytes.length = 2 ∨ bytes.length = 4) :
    (joinBytes bytes).toNat = bytes.foldl (fun value byte => value * 256 + byte.toNat) 0 := by
  match bytes, h with
  | [b₀, b₁], _ =>
      have hjoin : joinBytes [b₀, b₁] = ofLe32 b₁ b₀ 0 0 := by
        have h16 : (0 : UInt8).toUInt32 <<< 16 = 0 := by decide
        have h24 : (0 : UInt8).toUInt32 <<< 24 = 0 := by decide
        rw [ofLe32, h16, h24, UInt32.or_zero, UInt32.or_zero]
        exact UInt32.or_comm _ _
      rw [hjoin, toNat_ofLe32]
      simp only [List.foldl_cons, List.foldl_nil, UInt8.toNat_zero]
      omega
  | [b₀, b₁, b₂, b₃], _ =>
      have hjoin : joinBytes [b₀, b₁, b₂, b₃] = ofLe32 b₃ b₂ b₁ b₀ := by
        change b₀.toUInt32 <<< 24 ||| b₁.toUInt32 <<< 16 ||| b₂.toUInt32 <<< 8 ||| b₃.toUInt32 = _
        rw [ofLe32, UInt32.or_comm, UInt32.or_comm (b₀.toUInt32 <<< 24 ||| _),
          UInt32.or_comm (b₀.toUInt32 <<< 24), UInt32.or_assoc, UInt32.or_assoc]
      rw [hjoin, toNat_ofLe32]
      simp only [List.foldl_cons, List.foldl_nil]
      omega

theorem readLength_steps (h : Tracked stream f n u s) :
    Steps (Sound stream) ((readLength stream c).run s)
      (JanpatchPort.readLength stream.toNat c.toNat.patchPosition u)
      (fun a b t => a.1.toNat = b.1 ∧ c.patchPosition.toNat < b.2 ∧ Moved stream c a.2 b.2 ∧
        Tracked stream f n t.state t) := by
  unfold readLength JanpatchPort.readLength
  refine Steps.bind (patchReadByte_steps hstream h) ?_ (fun _ => rfl)
  rintro ⟨first, c'⟩ _ t ⟨rfl, ⟨p, rfl, hp, hple⟩, ht⟩
  have hfirst : first.toUInt32.toNat = first.toNat := UInt8.toNat_toUInt32 first
  have hbyte := first.toNat_lt
  dsimp only
  refine Steps.ite Iff.rfl (fun _ _ => ?_) (fun _ _ => ?_)
  · have hsum : first.toUInt32.toNat + (1 : UInt32).toNat < 2 ^ 32 := by
      rw [hfirst, UInt32.toNat_one]
      omega
    refine steps_add ht hsum fun t ht => steps_pure ht fun ht => ⟨?_, ?_, ⟨p, rfl, hp, hple⟩, ht⟩
    · rw [toNat_add hsum, hfirst]
      rfl
    · exact Nat.lt_succ_self _
  refine Steps.ite Iff.rfl (fun _ _ => ?_) (fun _ _ => ?_)
  · have hread := patchReadByte_steps hstream (c := { c with patchPosition := p }) ht
    simp only [Context.toNat, hp] at hread
    refine Steps.bind hread ?_ (fun _ => rfl)
    rintro ⟨low, c'⟩ _ t ⟨rfl, ⟨p', rfl, hp', hple'⟩, ht⟩
    have hlow : low.toUInt32.toNat = low.toNat := UInt8.toNat_toUInt32 low
    have hbyte' := low.toNat_lt
    have hsum : (253 : UInt32).toNat + low.toUInt32.toNat < 2 ^ 32 := by
      rw [hlow]
      change 253 + low.toNat < 2 ^ 32
      omega
    refine steps_add ht hsum fun t ht => steps_pure ht fun ht => ⟨?_, ?_, ⟨p', rfl, hp', hple'⟩, ht⟩
    · rw [toNat_add hsum, hlow]
      rfl
    · change c.patchPosition.toNat < c.patchPosition.toNat + 2
      omega
  refine Steps.ite Iff.rfl (fun _ _ => ?_) (fun _ _ => steps_throw ht)
  have hread := readBytes_steps hstream (c := { c with patchPosition := p }) ht
    (if first = 253 then 2 else 4) hple 0
  simp only [Context.toNat, hp] at hread
  refine Steps.bind hread ?_ (fun _ => rfl)
  rintro ⟨bytes, c'⟩ ⟨length, position⟩ t ⟨hlength, hvalue, hposition, ⟨p', rfl, hp', hple'⟩, ht⟩
  have hjoin : (joinBytes bytes).toNat = length :=
    (joinBytes_toNat (by rw [hlength]; split <;> simp)).trans hvalue.symm
  refine Steps.ite ?_ (fun _ _ => ?_) (fun _ _ => steps_throw ht)
  · rw [← hjoin, Ne, Ne, ← UInt32.toNat_inj]
    exact Iff.rfl
  · refine steps_pure ht fun ht => ⟨hjoin, ?_, ⟨p', rfl, hp', hple'⟩, ht⟩
    dsimp only at hposition ⊢
    omega

end Reading

/-! ## Writing -/

/-- A flash write to the target leaves the incoming partition as it was. -/
theorem targetFlash_ensures (u : Machine) {offset : Nat} {data : List UInt8}
    (h : offset + data.length ≤ 38912) :
    (ExternalFlashStorage.write .reconstructed offset data u).Ensures
      (fun _ t => ∀ i < 0x20000, t.device.part .incoming i = u.device.part .incoming i)
      (fun _ => True) := by
  have hrange : offset + data.length ≤ ExternalPartition.reconstructed.size :=
    h.trans (by decide)
  have hkeeps : Keeps (OutsideFrame (ExternalPartition.reconstructed.address + offset)
      (ExternalPartition.reconstructed.address + offset + data.length))
      (ExternalFlashStorage.write .reconstructed offset data) :=
    storageWrite_keeps fun _ => allows_outsideFrame le_rfl le_rfl
  have hwrite := storageWrite_holds (env_hostile u) (.inr rfl) hrange
  refine Result.Ensures.mono (hwrite.and_keeps hkeeps) ?_ (fun _ _ => trivial)
  rintro r t ⟨-, -, hframe⟩ i hi
  refine hframe.external _ (.inl ?_)
  have haddress : ExternalPartition.incoming.address + 0x20000 ≤
    ExternalPartition.reconstructed.address := by decide
  omega

/-- What is known after a write of `length` bytes. -/
def Written (stream : Stream) (f : Nat → UInt8) (c : Context) (length : Nat) (c' : Context)
    (ctx : JanpatchPort.Context) (t : Traced Machine Access) : Prop :=
  ctx = c'.toNat ∧ (∃ p : UInt32, c' = { c with targetPosition := p } ∧
    p.toNat = c.targetPosition.toNat + length ∧ p.toNat ≤ stream.targetImageSize.toNat) ∧
    Tracked stream f c'.targetPosition.toNat t.state t

section Writing

variable (hstream : stream.Bounded) {c : Context}

include hstream

theorem moveTarget_steps {length : UInt32}
    (hroom : c.targetPosition.toNat + length.toNat ≤ stream.targetImageSize.toNat)
    (h : Tracked stream f (c.targetPosition.toNat + length.toNat) u s) :
    Steps (Sound stream) ((moveTarget c length).run s)
      ((pure (.ok { c.toNat with
        targetPosition := c.targetPosition.toNat + length.toNat }) :
          Prog Machine (Except Status JanpatchPort.Context)) u)
      (Written stream f c length.toNat) := by
  have hbound := hstream.target
  have hsum : c.targetPosition.toNat + length.toNat < 2 ^ 32 := by omega
  have hmoved := toNat_add hsum
  refine steps_add h hsum fun t ht => steps_pure ht fun ht => ⟨?_, ⟨_, rfl, hmoved, by omega⟩, ?_⟩
  · simp only [Context.toNat, hmoved]
  · rw [← hmoved] at ht
    exact ht

theorem targetWrite_steps (htarget : c.targetPosition.toNat ≤ stream.targetImageSize.toNat)
    (data : List UInt8) (length : UInt32) (hdata : length.toNat ≤ data.length)
    (h : Tracked stream f c.targetPosition.toNat u s) :
    Steps (Sound stream) ((targetWrite stream c data length).run s)
      (JanpatchPort.targetWrite stream.toNat c.toNat (data.take length.toNat) u)
      (Written stream f c length.toNat) := by
  have hbound := hstream.target
  have hlength : (data.take length.toNat).length = length.toNat := by
    rw [List.length_take]
    omega
  have hroom := toNat_sub htarget
  unfold targetWrite JanpatchPort.targetWrite
  rw [if_neg (by rw [UInt32.not_lt, UInt32.le_iff_toNat_le]; exact htarget), hlength]
  refine steps_sub h htarget fun t ht => ?_
  refine Steps.ite ?_ (fun _ _ => steps_throw ht) (fun _ hfits => ?_)
  · rw [gt_iff_lt, UInt32.lt_iff_toNat_lt, hroom]
    simp only [Stream.toNat, Context.toNat]
    omega
  have hfits' : c.targetPosition.toNat + length.toNat ≤ stream.targetImageSize.toNat := by
    simp only [Stream.toNat, Context.toNat] at hfits
    omega
  refine Steps.ite ?_ (fun _ hzero => ?_) (fun _ hne => ?_)
  · rw [← UInt32.toNat_inj]
    rfl
  · have hmove := moveTarget_steps hstream hfits' (by rw [hzero, Nat.add_zero]; exact ht)
    simp only [hzero, Nat.add_zero] at hmove ⊢
    exact hmove
  · obtain ⟨rfl, hsound, hcovers, hincoming⟩ := ht
    have hwrite : (ExternalFlashStorage.write .reconstructed c.targetPosition.toNat
        (data.take length.toNat) t.state).Ensures _ _ :=
      targetFlash_ensures t.state (by rw [hlength]; omega)
    have hsound' : Sound stream (t.note (.write c.targetPosition (data.take length.toNat))).trace :=
      { safe := by
          intro e he
          rcases List.mem_append.1 he with he | he
          · exact hsound.safe e he
          · cases List.mem_singleton.1 he
            change c.targetPosition.toNat + (data.take length.toNat).length ≤ _
            omega
        consecutive := by
          rw [Traced.note_trace, writes_concat_write, consecutive_concat]
          exact ⟨hsound.consecutive, by rw [hcovers, Nat.zero_add]⟩ }
    refine Steps.note (Steps.observe hwrite hsound' ?_)
    intro written v htrace hpart
    have hv : Tracked stream f (c.targetPosition.toNat + length.toNat) v.state v := by
      refine ⟨rfl, htrace ▸ hsound', ?_, fun i hi => (hpart i hi).trans (hincoming i hi)⟩
      rw [htrace, Traced.note_trace, writes_concat_write, covered_concat, hcovers, hlength]
    refine Steps.ite Iff.rfl (fun _ _ => steps_throw hv) (fun _ _ => ?_)
    exact moveTarget_steps hstream hfits' hv

end Writing

/-! ## The source -/

section Source

variable {α β : Type} {R : α → β → Traced Machine Access → Prop} {c : Context} {length : UInt32}

/-- The check of the source range, and what follows it. -/
theorem requireSource_steps {k : Unit → Code α} {q : Prog Machine (Except Status β)}
    (hsource : c.sourcePosition.toNat ≤ stream.baseImageSize.toNat)
    (h : Tracked stream f n u s)
    (hk : ∀ t, Tracked stream f n u t →
      c.sourcePosition.toNat + length.toNat ≤ stream.baseImageSize.toNat →
      Steps (Sound stream) ((k ()).run t) (q u) R) :
    Steps (Sound stream) ((requireSource stream c length >>= k).run s)
      ((if !sourceHas stream.toNat c.toNat length.toNat then pure (.error .sourceRange) else q) u)
      R := by
  have hroom := toNat_sub hsource
  have hnoted := h.note (.sub stream.baseImageSize c.sourcePosition) hsource rfl
  have hwithin : ¬ c.sourcePosition > stream.baseImageSize := by
    rw [gt_iff_lt, UInt32.not_lt, UInt32.le_iff_toNat_le]
    exact hsource
  unfold requireSource
  rw [if_neg hwithin]
  change Steps _ (((if length > stream.baseImageSize - c.sourcePosition then throw .sourceRange
    else pure () : Code Unit) >>= k).run (s.note _)) _ _
  by_cases hfits : c.sourcePosition.toNat + length.toNat ≤ stream.baseImageSize.toNat
  · have hlength : ¬ length > stream.baseImageSize - c.sourcePosition := by
      rw [gt_iff_lt, UInt32.not_lt, UInt32.le_iff_toNat_le]
      omega
    have hhas : sourceHas stream.toNat c.toNat length.toNat = true := sourceHas_iff.2 hfits
    rw [if_neg hlength, hhas, Bool.not_true, if_neg Bool.false_ne_true]
    exact hk _ hnoted hfits
  · have hlength : length > stream.baseImageSize - c.sourcePosition := by
      rw [gt_iff_lt, UInt32.lt_iff_toNat_lt]
      omega
    have hhas : sourceHas stream.toNat c.toNat length.toNat = false :=
      Bool.eq_false_iff.2 fun hhas => hfits (sourceHas_iff.1 hhas)
    rw [if_pos hlength, hhas, Bool.not_false, if_pos rfl]
    exact steps_throw hnoted

theorem advanceSource_steps (hstream : stream.Bounded) {k : Context → Code α}
    {q : Result Machine (Except Status β)}
    (hfits : c.sourcePosition.toNat + length.toNat ≤ stream.baseImageSize.toNat)
    (h : Tracked stream f n u s)
    (hk : ∀ t p, p.toNat = c.sourcePosition.toNat + length.toNat → Tracked stream f n u t →
      Steps (Sound stream) ((k { c with sourcePosition := p }).run t) q R) :
    Steps (Sound stream) ((advanceSource c length >>= k).run s) q R := by
  have hbound := hstream.base
  have hsum : c.sourcePosition.toNat + length.toNat < 2 ^ 32 := by omega
  have hmoved := toNat_add hsum
  have hadded := h.note (.add c.sourcePosition length) hsum rfl
  have hseek : (Access.seek (c.sourcePosition + length)).Safe stream := by
    change (c.sourcePosition + length).toNat ≤ _
    omega
  exact hk _ _ hmoved (hadded.note _ hseek rfl)

/-- Reading source bytes inside the base. -/
theorem readSource_steps (hstream : stream.Bounded) {offset : UInt32} {k : List UInt8 → Code α}
    {l : Except Status (List UInt8) → Prog Machine (Except Status β)}
    (hfits : offset.toNat + length.toNat ≤ stream.baseImageSize.toNat) (hbuffer : length.toNat ≤ 128)
    (h : Tracked stream f n u s)
    (hk : ∀ t data, data.length = length.toNat → Tracked stream f n u t →
      Steps (Sound stream) ((k data).run t) (l (.ok data) u) R) :
    Steps (Sound stream) ((readSource offset length >>= k).run s)
      ((JanpatchPort.readSource offset.toNat length.toNat >>= l) u) R := by
  have hbound := hstream.base
  have hmax : maxSize.toNat = 38912 := rfl
  have hmax' : applicationMaxSize = 38912 := rfl
  have hroom : (maxSize - offset).toNat = maxSize.toNat - offset.toNat := toNat_sub (by omega)
  have hoffset : ¬ offset > maxSize := by
    rw [gt_iff_lt, UInt32.not_lt, UInt32.le_iff_toNat_le]
    omega
  have hlength : ¬ length > maxSize - offset := by
    rw [gt_iff_lt, UInt32.not_lt, UInt32.le_iff_toNat_le]
    omega
  have hsub := h.note (.sub maxSize offset) (by change offset.toNat ≤ _; omega) rfl
  have hread := hsub.note (.source offset length) ⟨hfits, hbuffer⟩ rfl
  unfold readSource JanpatchPort.readSource
  rw [if_neg hoffset, if_neg (by omega)]
  change Steps _ (((if length > maxSize - offset then throw .sourceRange else _ :
    Code (List UInt8)) >>= k).run (s.note _)) _ _
  rw [if_neg hlength]
  have hdone := hk _ (window u.device.app offset.toNat length.toNat) (window_length _ _ _) hread
  obtain rfl := h.state
  exact hdone

end Source

/-! ## Copying -/

/-- The two contexts are the same, inside the stream, and the record goes up to the target. -/
structure Stands (stream : Stream) (f : Nat → UInt8) (m : Nat) (c : Context) (ctx : JanpatchPort.Context)
    (t : Traced Machine Access) : Prop where
  same : ctx = c.toNat
  within : Within stream m c
  tracked : Tracked stream f c.targetPosition.toNat t.state t

/-- One round of copying, as a program that leaves with a status. -/
def copyRound (stream : JanpatchPort.Stream) (st : JanpatchPort.Context × Nat) :
    Prog Machine (Except Status (JanpatchPort.Context × Nat)) := do
  match ← JanpatchPort.readSource st.1.sourcePosition (min st.2 ioBufferSize) with
  | .error status => pure (.error status)
  | .ok buffer => do
      match ← JanpatchPort.targetWrite stream st.1 buffer with
      | .error status => pure (.error status)
      | .ok ctx =>
          pure (.ok
            ({ ctx with
                sourcePosition := ctx.sourcePosition + min st.2 ioBufferSize
                equalBytes := ctx.equalBytes + min st.2 ioBufferSize },
              st.2 - min st.2 ioBufferSize))

theorem chunk_toNat (length : UInt32) :
    (if length > janpatchIoBufferSize then janpatchIoBufferSize else length).toNat =
      min length.toNat ioBufferSize := by
  have hsize : janpatchIoBufferSize.toNat = ioBufferSize := rfl
  split
  · next hlong =>
      rw [gt_iff_lt, UInt32.lt_iff_toNat_lt] at hlong
      omega
  · next hshort =>
      rw [gt_iff_lt, UInt32.lt_iff_toNat_lt] at hshort
      omega

theorem copyChunk_steps (hstream : stream.Bounded) {c : Context} {length : UInt32}
    (hw : Within stream m c) (hne : length.toNat ≠ 0)
    (hfits : c.sourcePosition.toNat + length.toNat ≤ stream.baseImageSize.toNat)
    (h : Tracked stream f c.targetPosition.toNat u s) :
    Steps (Sound stream) ((copyChunk stream (c, length)).run s)
      (copyRound stream.toNat (c.toNat, length.toNat) u)
      (fun a b t => Stands stream f m a.1 b.1 t ∧ b.2 = a.2.toNat ∧ a.2.toNat < length.toNat ∧
        a.1.sourcePosition.toNat + a.2.toNat ≤ stream.baseImageSize.toNat ∧
        a.1.patchPosition = c.patchPosition) := by
  have hchunk := chunk_toNat length
  have hbuffer : ioBufferSize = 128 := rfl
  have hbound := hstream.target
  unfold copyChunk copyRound
  dsimp only
  generalize (if length > janpatchIoBufferSize then janpatchIoBufferSize else length) = chunk
    at hchunk
  rw [← hchunk]
  refine readSource_steps hstream (by omega) (by omega) h fun t data hdata ht => ?_
  have hwrite := targetWrite_steps hstream hw.target data chunk (by omega) ht
  rw [← hdata, List.take_length] at hwrite
  refine Steps.bind hwrite ?_ (fun _ => rfl)
  rintro c' ctx t ⟨rfl, ⟨p, rfl, hp, hple⟩, ht⟩
  refine advanceSource_steps hstream (by dsimp only; omega) ht fun t p' hp' ht => ?_
  have hwritten := hw.written
  have hsum : c.equalBytes.toNat + chunk.toNat < 2 ^ 32 := by omega
  have hequal := toNat_add hsum
  have hleft : (length - chunk).toNat = length.toNat - chunk.toNat := toNat_sub (by omega)
  refine steps_add ht hsum fun t ht => steps_sub ht (by omega) fun t ht => steps_pure ht fun ht =>
    ⟨⟨?_, ?_, ht⟩, hleft.symm, ?_, ?_, rfl⟩
  · simp only [Context.toNat, hequal, hp']
  · exact
      { source := by dsimp only at hp' ⊢; omega
        patch := hw.patch
        target := hple
        written := by dsimp only; omega
        deleted := hw.deleted
        backward := hw.backward
        count := hw.count }
  · dsimp only
    omega
  · dsimp only at hp' ⊢
    omega

theorem copyEqual_steps (hstream : stream.Bounded) {c : Context} {length : UInt32}
    (hw : Within stream m c) (h : Tracked stream f c.targetPosition.toNat u s) :
    Steps (Sound stream) ((copyEqual stream c length).run s)
      (JanpatchPort.copyEqual stream.toNat c.toNat length.toNat u)
      (fun c' ctx t => Stands stream f m c' ctx t ∧ c'.patchPosition = c.patchPosition) := by
  unfold copyEqual JanpatchPort.copyEqual
  refine requireSource_steps hw.source h fun t ht hfits => ?_
  refine Steps.loopThen
    (I := fun st st' t => Stands stream f m st.1 st'.1 t ∧ st'.2 = st.2.toNat ∧
      st.1.sourcePosition.toNat + st.2.toNat ≤ stream.baseImageSize.toNat ∧
      st.1.patchPosition = c.patchPosition)
    (fun st' => st'.2) ?_ ?_ ?_ ?_ ht.state le_rfl le_rfl
    ⟨⟨rfl, hw, by rw [ht.state]; exact ht⟩, rfl, hfits, rfl⟩
  · rintro ⟨c', left⟩ ⟨ctx, left'⟩ t ⟨-, rfl, -⟩
    simp only [Ne, decide_not, Bool.not_eq_eq_eq_not, Bool.not_not, ← UInt32.toNat_inj]
    rfl
  · rintro ⟨c', left⟩ ⟨ctx, left'⟩ t hgo -
    simpa [Nat.pos_iff_ne_zero] using hgo
  · rintro ⟨c', left⟩ ⟨ctx, left'⟩ t hgo ⟨⟨rfl, hw', ht⟩, rfl, hfits', hpatch⟩
    refine ⟨copyRound stream.toNat (c'.toNat, left.toNat), ?_, ?_⟩
    · funext v
      simp only [copyRound, Prog.bind_apply]
      cases JanpatchPort.readSource c'.toNat.sourcePosition (min left.toNat ioBufferSize) v with
      | done r v =>
          cases r with
          | error status => rfl
          | ok buffer =>
              simp only [Prog.andThen, Prog.bind_apply]
              cases JanpatchPort.targetWrite stream.toNat c'.toNat buffer v with
              | done r v => cases r <;> rfl
              | cut v => rfl
              | spin v => rfl
      | cut v => rfl
      | spin v => rfl
    · refine (copyChunk_steps hstream hw' (by simpa using hgo) hfits' ht).mono ?_
      rintro a b t ⟨hstands, hleft, hless, hfits'', hpatch'⟩
      exact ⟨⟨hstands, hleft, hfits'', hpatch'.trans hpatch⟩, hleft ▸ hless⟩
  · rintro ⟨c', left⟩ ⟨ctx, left'⟩ t - ⟨hstands, -, -, hpatch⟩
    exact Steps.pure ⟨hstands, hpatch⟩

/-! ## Literal data -/

/-- The two literal runs are the same; the first one keeps its bytes in an array. -/
structure LiteralStands (stream : Stream) (f : Nat → UInt8) (m : Nat) (w : Literal)
    (run : JanpatchPort.Literal) (t : Traced Machine Access) : Prop where
  ctx : run.ctx = w.ctx.toNat
  buffer : run.buffer = w.buffer.take w.used.toNat
  size : w.buffer.length = 128
  total : run.total = w.total.toNat
  finished : run.finished = w.finished
  within : Within stream m w.ctx
  counted : w.ctx.equalBytes.toNat + w.ctx.modifiedBytes.toNat + w.ctx.insertedBytes.toNat +
    w.total.toNat ≤ w.ctx.targetPosition.toNat
  tracked : Tracked stream f w.ctx.targetPosition.toNat t.state t

section Literals

variable {w : Literal} {run : JanpatchPort.Literal}

theorem LiteralStands.buffer_length (h : LiteralStands stream f m w run s)
    (hused : w.used.toNat ≤ 128) : run.buffer.length = w.used.toNat := by
  rw [h.buffer, List.length_take, h.size]
  omega

variable (hstream : stream.Bounded)

include hstream

theorem flushLiteral_steps (h : LiteralStands stream f m w run s) (hused : w.used.toNat ≤ 128)
    (advance : Bool) :
    Steps (Sound stream) ((flushLiteral stream advance w).run s)
      (JanpatchPort.flushLiteral stream.toNat advance run s.state)
      (fun w' run' t => LiteralStands stream f m w' run' t ∧ w'.used = 0 ∧
        w'.ctx.patchPosition = w.ctx.patchPosition ∧ w'.finished = w.finished) := by
  have hlength := h.buffer_length hused
  have hbound := hstream.target
  obtain ⟨hctx, hbuffer, hsize, htotal, hfinished, hw, hcounted, htracked⟩ := h
  unfold flushLiteral JanpatchPort.flushLiteral
  have hwrite := targetWrite_steps hstream hw.target w.buffer w.used
    (by omega) htracked
  rw [← hbuffer, ← hctx] at hwrite
  refine Steps.bind hwrite ?_ (fun _ => rfl)
  rintro c' ctx t ⟨rfl, ⟨p, rfl, hp, hple⟩, ht⟩
  have hsum : w.total.toNat + w.used.toNat < 2 ^ 32 := by omega
  have htotal' := toNat_add hsum
  have hwritten := hw.written
  dsimp only
  refine Steps.ite Iff.rfl (fun _ _ => ?_) (fun _ _ => ?_)
  · rw [hlength]
    refine requireSource_steps (c := { w.ctx with targetPosition := p }) hw.source ht
      fun t ht hfits => ?_
    refine advanceSource_steps hstream hfits ht fun t p' hp' ht => ?_
    refine steps_add ht hsum fun t ht => steps_pure ht fun ht => ⟨?_, rfl, rfl, rfl⟩
    dsimp only at hfits hp'
    exact
      { ctx := by simp only [Context.toNat, hp']
        buffer := rfl
        size := hsize
        total := by rw [htotal, htotal']
        finished := hfinished
        within :=
          { source := by dsimp only; omega
            patch := hw.patch
            target := hple
            written := by dsimp only; omega
            deleted := hw.deleted
            backward := hw.backward
            count := hw.count }
        counted := by dsimp only; omega
        tracked := ht }
  · refine steps_add ht hsum fun t ht => steps_pure ht fun ht => ⟨?_, rfl, rfl, rfl⟩
    exact
      { ctx := rfl
        buffer := rfl
        size := hsize
        total := by rw [htotal, hlength, htotal']
        finished := hfinished
        within :=
          { source := hw.source
            patch := hw.patch
            target := hple
            written := by dsimp only; omega
            deleted := hw.deleted
            backward := hw.backward
            count := hw.count }
        counted := by dsimp only; omega
        tracked := ht }

omit hstream in
theorem take_set_succ {l : List UInt8} {i : Nat} (h : i < l.length) (value : UInt8) :
    (l.set i value).take (i + 1) = l.take i ++ [value] := by
  rw [List.take_add_one, List.take_set_of_le le_rfl, List.getElem?_set_self h]
  rfl

theorem pushLiteral_steps (h : LiteralStands stream f m w run s) (hused : w.used.toNat < 128)
    (advance : Bool) (value : UInt8) :
    Steps (Sound stream) ((pushLiteral stream advance w value).run s)
      (JanpatchPort.pushLiteral stream.toNat advance run value s.state)
      (fun w' run' t => LiteralStands stream f m w' run' t ∧ w'.used.toNat < 128 ∧
        w'.ctx.patchPosition = w.ctx.patchPosition ∧ w'.finished = w.finished) := by
  have hlength := h.buffer_length hused.le
  have hsum : w.used.toNat + (1 : UInt32).toNat < 2 ^ 32 := by
    rw [UInt32.toNat_one]
    omega
  have hnext := toNat_add hsum
  rw [UInt32.toNat_one] at hnext
  have hstored := (h.tracked.note (.store w.used) hused rfl).note
    (.add w.used 1) hsum rfl
  have hpushed : LiteralStands stream f m
      { w with buffer := w.buffer.set w.used.toNat value, used := w.used + 1 }
      { run with buffer := run.buffer ++ [value] } ((s.note (.store w.used)).note (.add w.used 1)) :=
    { ctx := h.ctx
      buffer := by
        dsimp only
        rw [hnext, take_set_succ (by rw [h.size]; exact hused), h.buffer]
      size := by
        rw [List.length_set]
        exact h.size
      total := h.total
      finished := h.finished
      within := h.within
      counted := h.counted
      tracked := hstored }
  unfold pushLiteral JanpatchPort.pushLiteral
  change Steps _ ((if w.used + 1 = janpatchIoBufferSize then _ else pure _ : Code Literal).run
    ((s.note (.store w.used)).note (.add w.used 1))) _ _
  refine Steps.ite ?_ (fun _ _ => ?_) (fun hroom _ => ?_)
  · rw [← UInt32.toNat_inj, hnext, List.length_append, hlength]
    rfl
  · refine (flushLiteral_steps hstream hpushed (by dsimp only; omega) advance).mono ?_
    rintro w' run' t ⟨hstands, hzero, hpatch, hfinished⟩
    exact ⟨hstands, by rw [hzero]; decide, hpatch, hfinished⟩
  · refine Steps.pure ⟨hpushed, ?_, rfl, rfl⟩
    rw [← UInt32.toNat_inj, hnext] at hroom
    have hsize : janpatchIoBufferSize.toNat = 128 := rfl
    dsimp only
    omega

end Literals

end JanpatchPort.Words

end SecureDeltaOta
