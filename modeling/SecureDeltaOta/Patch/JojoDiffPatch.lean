import SecureDeltaOta.Patch.JojoDiff
import SecureDeltaOta.Standard.Python

/-!
# The patch tool

`jojodiff_patch.py`: the generator writes a stream from the matching blocks of
two images, and the applicator reads it at an index that it moves forward and,
at the end of literal data, back again.
-/

namespace SecureDeltaOta.JojoDiffPatch

open JojoDiff

/-- What the tool raises. -/
inductive Error where
  /-- `PatchFormatError`. -/
  | format (message : String)
  | value (message : String)
  | assertion (message : String)
  deriving DecidableEq, Repr

structure PatchStats where
  equalBytes : Nat := 0
  modifiedBytes : Nat := 0
  insertedBytes : Nat := 0
  deletedBytes : Nat := 0
  operations : Nat := 0
  deriving DecidableEq, Repr

/-! ## Writing -/

def encodeLength (length : Nat) : Except Error (List UInt8) :=
  if length ≤ 0 then .error (.value "length must be positive")
  else if length ≤ 252 then .ok [(length - 1).toUInt8]
  else if length ≤ 508 then .ok [252, (length - 253).toUInt8]
  else if length ≤ 0xFFFF then .ok [253, (length >>> 8 &&& 0xFF).toUInt8, (length &&& 0xFF).toUInt8]
  else if length ≤ 0xFFFFFFFF then .ok (254 :: (Python.leBytes 4 length).reverse)
  else .error (.value "length exceeds JojoDiff 32-bit range")

/-- An escape byte is doubled. -/
def escapeData (data : List UInt8) : List UInt8 :=
  data.flatMap fun byte => if byte = jdiffEsc then [jdiffEsc, jdiffEsc] else [byte]

def emitOp (opcode : UInt8) (payload : List UInt8) : Except Error (List UInt8) :=
  if !isOpcode opcode then
    .error (.value ("invalid opcode 0x" ++ Python.hexUpper 2 opcode.toNat))
  else .ok ([jdiffEsc, opcode] ++ payload)

def emitLengthOp (opcode : UInt8) (length : Nat) : Except Error (List UInt8) :=
  if ¬ (opcode = jdiffEql ∨ opcode = jdiffDel ∨ opcode = jdiffBkt) then
    .error (.value "length operation must be EQL, DEL or BKT")
  else
    match encodeLength length with
    | .error error => .error error
    | .ok payload => emitOp opcode payload

def emitDataOp (opcode : UInt8) (data : List UInt8) : Except Error (List UInt8) :=
  if ¬ (opcode = jdiffMod ∨ opcode = jdiffIns) then
    .error (.value "data operation must be MOD or INS")
  else if data = [] then .ok []
  else emitOp opcode (escapeData data)

/-- What a part of the generator has written so far. -/
structure Emitted where
  output : List UInt8 := []
  stats : PatchStats := {}
  deriving DecidableEq, Repr

/-- Append an operation to the output and count it. -/
def Emitted.append (e : Emitted) (op : Except Error (List UInt8)) (count : PatchStats → PatchStats) :
    Except Error Emitted :=
  match op with
  | .error error => .error error
  | .ok bytes =>
      .ok { output := e.output ++ bytes
            stats := count { e.stats with operations := e.stats.operations + 1 } }

/-- `_emit_gap`: the bytes of the target that replace a range of the source. -/
def emitGap (source target : List UInt8) (sourceStart sourceEnd targetStart targetEnd : Nat) :
    Except Error Emitted := do
  let old := (source.take sourceEnd).drop sourceStart
  let new := (target.take targetEnd).drop targetStart
  let common := min old.length new.length
  let e : Emitted := {}
  let e ←
    (if common ≠ 0 then
      e.append (emitDataOp jdiffMod (new.take common)) fun s =>
        { s with modifiedBytes := s.modifiedBytes + common }
    else .ok e)
  let e ←
    (if new.length > common then
      e.append (emitDataOp jdiffIns (new.drop common)) fun s =>
        { s with insertedBytes := s.insertedBytes + (new.drop common).length }
    else .ok e)
  if old.length > common then
    e.append (emitLengthOp jdiffDel (old.length - common)) fun s =>
      { s with deletedBytes := s.deletedBytes + (old.length - common) }
  else .ok e

/-- A block that the two images have in common. -/
structure Block where
  a : Nat
  b : Nat
  size : Nat
  deriving DecidableEq, Repr

/-- The variables of `generate_patch`. -/
structure Generator where
  emitted : Emitted := {}
  sourcePos : Nat := 0
  targetPos : Nat := 0
  deriving DecidableEq, Repr

def PatchStats.add (x y : PatchStats) : PatchStats where
  equalBytes := x.equalBytes
  modifiedBytes := x.modifiedBytes + y.modifiedBytes
  insertedBytes := x.insertedBytes + y.insertedBytes
  deletedBytes := x.deletedBytes + y.deletedBytes
  operations := x.operations + y.operations

/-- One round of the loop over the matching blocks. -/
def generateBlock (source target : List UInt8) (g : Generator) (block : Block) :
    Except Error Generator := do
  if block.a < g.sourcePos ∨ block.b < g.targetPos then
    throw (.assertion "SequenceMatcher produced non-monotonic block")
  let e ←
    (if block.a ≠ g.sourcePos ∨ block.b ≠ g.targetPos then do
      let gap ← emitGap source target g.sourcePos block.a g.targetPos block.b
      .ok { output := g.emitted.output ++ gap.output, stats := g.emitted.stats.add gap.stats }
    else .ok g.emitted)
  let e ←
    (if block.size ≠ 0 then
      e.append (emitLengthOp jdiffEql block.size) fun s =>
        { s with equalBytes := s.equalBytes + block.size }
    else .ok e)
  pure { emitted := e, sourcePos := block.a + block.size, targetPos := block.b + block.size }

/-- `generate_patch`, for the blocks that the matcher returns. -/
def generatePatch (source target : List UInt8) (blocks : List Block) :
    Except Error (List UInt8 × PatchStats) := do
  let g ← blocks.foldlM (generateBlock source target) {}
  pure (g.emitted.output, g.emitted.stats)

/-! ## Reading -/

/-- `int.from_bytes(..., "big")`. -/
def fromBytesBig (bytes : List UInt8) : Nat := Python.leValue bytes.reverse

/-- The length at an offset, and the offset behind it. -/
def decodeLength (patch : List UInt8) (offset : Nat) : Except Error (Nat × Nat) :=
  if offset ≥ patch.length then .error (.format "truncated length")
  else
    let first := patch.getD offset 0
    let offset := offset + 1
    if first ≤ 251 then .ok (first.toNat + 1, offset)
    else if first = 252 then
      if offset ≥ patch.length then .error (.format "truncated 2-byte length")
      else .ok (253 + (patch.getD offset 0).toNat, offset + 1)
    else if first = 253 then
      if offset + 2 > patch.length then .error (.format "truncated 16-bit length")
      else .ok (fromBytesBig ((patch.take (offset + 2)).drop offset), offset + 2)
    else if first = 254 then
      if offset + 4 > patch.length then .error (.format "truncated 32-bit length")
      else .ok (fromBytesBig ((patch.take (offset + 4)).drop offset), offset + 4)
    else .error (.format "invalid JojoDiff length prefix 0xFF")

/-- The loop of `_copy_literal`; an operation that ends the data is left in place. -/
def copyLiteral (patch : List UInt8) (offset : Nat) (out : List UInt8) : List UInt8 × Nat :=
  if offset < patch.length then
    let value := patch.getD offset 0
    if value ≠ jdiffEsc then copyLiteral patch (offset + 1) (out ++ [value])
    else if offset + 1 ≥ patch.length then (out, offset + 1)
    else
      let next := patch.getD (offset + 1) 0
      if next = jdiffEsc then copyLiteral patch (offset + 2) (out ++ [jdiffEsc])
      else if isOpcode next then (out, offset + 2 - 2)
      else copyLiteral patch (offset + 2) (out ++ [jdiffEsc, next])
  else (out, offset)
termination_by patch.length - offset

/-- The variables of `apply_patch`. -/
structure Applicator where
  sourcePos : Nat := 0
  patchPos : Nat := 0
  target : List UInt8 := []
  deriving DecidableEq, Repr

/-- The opcode of the next operation and the offset behind it; data stand for a `MOD`. -/
def nextOpcode (patch : List UInt8) (patchPos : Nat) : Except Error (UInt8 × Nat) :=
  let first := patch.getD patchPos 0
  if first = jdiffEsc then
    if patchPos + 1 ≥ patch.length then .error (.format "truncated operation escape")
    else .ok (patch.getD (patchPos + 1) 0, patchPos + 2)
  else .ok (jdiffMod, patchPos)

/-- Literal data that go to the target, and over the source if they replace it. -/
def applyData (source patch : List UInt8) (st : Applicator) (patchPos : Nat) (replaces : Bool)
    (message : String) : Except Error Applicator :=
  let data := copyLiteral patch patchPos []
  if replaces then
    if st.sourcePos + data.1.length > source.length then .error (.format message)
    else .ok ⟨st.sourcePos + data.1.length, data.2, st.target ++ data.1⟩
  else .ok ⟨st.sourcePos, data.2, st.target ++ data.1⟩

/-- One round of the loop of `apply_patch`. -/
def applyStep (source patch : List UInt8) (st : Applicator) : Except Error Applicator := do
  let (opcode, patchPos) ← nextOpcode patch st.patchPos
  if opcode = jdiffEql then do
    let (length, patchPos) ← decodeLength patch patchPos
    if st.sourcePos + length > source.length then throw (.format "EQL reads beyond source")
    else
      pure ⟨st.sourcePos + length, patchPos,
        st.target ++ (source.take (st.sourcePos + length)).drop st.sourcePos⟩
  else if opcode = jdiffDel then do
    let (length, patchPos) ← decodeLength patch patchPos
    if st.sourcePos + length > source.length then throw (.format "DEL reads beyond source")
    else pure { st with sourcePos := st.sourcePos + length, patchPos := patchPos }
  else if opcode = jdiffBkt then do
    let (length, patchPos) ← decodeLength patch patchPos
    if length > st.sourcePos then throw (.format "BKT seeks before source start")
    else pure { st with sourcePos := st.sourcePos - length, patchPos := patchPos }
  else if opcode = jdiffMod ∨ opcode = jdiffIns then
    applyData source patch st patchPos (opcode = jdiffMod) "MOD reads beyond source"
  else
    -- an unknown pair belongs to the data of a `MOD`
    applyData source patch st (patchPos - 2) true "default MOD reads beyond source"

/-! ### What the readers find -/

/-- The literal data at an offset, and where they end. -/
theorem copyLiteral_spec (patch : List UInt8) (offset : Nat) (out : List UInt8)
    (h : offset ≤ patch.length) :
    (copyLiteral patch offset out).1 = out ++ (scanLiteral (patch.drop offset)).1 ∧
      patch.drop (copyLiteral patch offset out).2 = (scanLiteral (patch.drop offset)).2 ∧
      (copyLiteral patch offset out).2 ≤ patch.length := by
  fun_induction copyLiteral patch offset out with
  | case1 offset out hin value hvalue ih =>
      obtain ⟨hdata, hrest, hend⟩ := ih hin
      rw [drop_eq_cons hin, scanLiteral_plain hvalue]
      exact ⟨by rw [hdata, List.append_assoc]; rfl, hrest, hend⟩
  | case2 offset out hin value hvalue hlast =>
      have hesc : patch.getD offset 0 = jdiffEsc := not_not.1 hvalue
      have hnil : patch.drop (offset + 1) = [] := List.drop_eq_nil_of_le hlast
      rw [drop_eq_cons hin, hesc, hnil, scanLiteral_end]
      exact ⟨(List.append_nil _).symm, rfl, hin⟩
  | case3 offset out hin value hvalue hmore next hnext ih =>
      have hesc : patch.getD offset 0 = jdiffEsc := not_not.1 hvalue
      have hin' : offset + 1 < patch.length := by omega
      obtain ⟨hdata, hrest, hend⟩ := ih (by omega)
      have hnext' : patch.getD (offset + 1) 0 = jdiffEsc := hnext
      rw [drop_eq_cons hin, drop_eq_cons hin', hesc, hnext', scanLiteral_escaped]
      exact ⟨by rw [hdata, List.append_assoc]; rfl, hrest, hend⟩
  | case4 offset out hin value hvalue hmore next hnext hopcode =>
      have hesc : patch.getD offset 0 = jdiffEsc := not_not.1 hvalue
      have hin' : offset + 1 < patch.length := by omega
      rw [drop_eq_cons hin, drop_eq_cons hin', hesc, scanLiteral_opcode hopcode]
      refine ⟨(List.append_nil _).symm, ?_, h⟩
      rw [Nat.add_sub_cancel, drop_eq_cons hin, drop_eq_cons hin', hesc]
  | case5 offset out hin value hvalue hmore next hnext hopcode ih =>
      have hesc : patch.getD offset 0 = jdiffEsc := not_not.1 hvalue
      have hin' : offset + 1 < patch.length := by omega
      obtain ⟨hdata, hrest, hend⟩ := ih (by omega)
      rw [drop_eq_cons hin, drop_eq_cons hin', hesc, scanLiteral_unknown hnext (by simpa using hopcode)]
      exact ⟨by rw [hdata, List.append_assoc]; rfl, hrest, hend⟩
  | case6 offset out hout =>
      have hnil : patch.drop offset = [] := List.drop_eq_nil_of_le (by omega)
      rw [hnil, scanLiteral_nil]
      exact ⟨(List.append_nil _).symm, rfl, h⟩

/-- The offset behind literal data, from the length of what follows them. -/
theorem copyLiteral_offset {patch : List UInt8} {offset : Nat} (out : List UInt8)
    (h : offset ≤ patch.length) :
    (copyLiteral patch offset out).2 =
      patch.length - (scanLiteral (patch.drop offset)).2.length := by
  obtain ⟨-, hrest, hend⟩ := copyLiteral_spec patch offset out h
  have hlength := congrArg List.length hrest
  rw [List.length_drop] at hlength
  omega

theorem le_copyLiteral {patch : List UInt8} {offset : Nat} (out : List UInt8)
    (h : offset ≤ patch.length) : offset ≤ (copyLiteral patch offset out).2 := by
  have hle := scanLiteral_length (patch.drop offset)
  rw [List.length_drop] at hle
  rw [copyLiteral_offset out h]
  omega

/-- Data that are not an operation take at least one byte. -/
theorem lt_copyLiteral {patch : List UInt8} {offset : Nat} (out : List UInt8)
    (hin : offset < patch.length)
    (h : patch.getD offset 0 = jdiffEsc → offset + 1 < patch.length →
      isOpcode (patch.getD (offset + 1) 0) = false) :
    offset < (copyLiteral patch offset out).2 := by
  have hlt : (scanLiteral (patch.drop offset)).2.length < (patch.drop offset).length := by
    rw [drop_eq_cons hin]
    refine scanLiteral_length_lt ?_
    intro next rest hesc hrest
    have hin' : offset + 1 < patch.length := by
      by_contra hout
      rw [List.drop_eq_nil_of_le (by omega)] at hrest
      cases hrest
    rw [drop_eq_cons hin'] at hrest
    cases hrest
    exact h hesc hin'
  rw [List.length_drop] at hlt
  rw [copyLiteral_offset out hin.le]
  omega

theorem leValue_concat (bytes : List UInt8) (byte : UInt8) :
    Python.leValue (bytes ++ [byte]) = Python.leValue bytes + 256 ^ bytes.length * byte.toNat := by
  induction bytes with
  | nil => simp [Python.leValue]
  | cons first bytes ih =>
      simp only [List.cons_append, Python.leValue, ih, List.length_cons, pow_succ]
      ring

theorem fromBytesBig_cons (byte : UInt8) (bytes : List UInt8) :
    fromBytesBig (byte :: bytes) = byte.toNat * 256 ^ bytes.length + fromBytesBig bytes := by
  rw [fromBytesBig, List.reverse_cons, leValue_concat, List.length_reverse, fromBytesBig]
  ring

theorem readBigEndian_eq (width value : Nat) (stream : List UInt8) :
    readBigEndian width value stream =
      if width ≤ stream.length then
        some (value * 256 ^ width + fromBytesBig (stream.take width), stream.drop width)
      else none := by
  induction width generalizing value stream with
  | zero => simp [readBigEndian, fromBytesBig, Python.leValue]
  | succ width ih =>
      cases stream with
      | nil => rfl
      | cons byte stream =>
          rw [readBigEndian, ih]
          by_cases hin : width ≤ stream.length
          · have hlength : (stream.take width).length = width := List.length_take_of_le hin
            have hin' : width + 1 ≤ (byte :: stream).length := Nat.succ_le_succ hin
            rw [if_pos hin, if_pos hin', List.take_succ_cons, fromBytesBig_cons,
              hlength, List.drop_succ_cons]
            congr 2
            ring
          · rw [if_neg hin, if_neg (by simpa using hin)]

/-- What a length field of the tool says about the stream. -/
def LengthRead (patch : List UInt8) (offset : Nat) : Except Error (Nat × Nat) → Prop
  | .error _ => readLength (patch.drop offset) = none
  | .ok (length, behind) => offset < behind ∧ behind ≤ patch.length ∧
      readLength (patch.drop offset) =
        if length = 0 then none else some (length, patch.drop behind)

/-- A wide length field. -/
theorem lengthRead_wide {patch : List UInt8} {offset width : Nat} (hin : offset < patch.length)
    (message : String)
    (h : readLength (patch.drop offset) =
      (readBigEndian width 0 (patch.drop (offset + 1))).filter fun r => r.1 ≠ 0) :
    LengthRead patch offset
      (if offset + 1 + width > patch.length then .error (.format message)
        else .ok (fromBytesBig ((patch.take (offset + 1 + width)).drop (offset + 1)),
          offset + 1 + width)) := by
  rw [readBigEndian_eq, List.length_drop] at h
  split
  · rw [LengthRead, h, if_neg (by omega)]
    rfl
  · refine ⟨by omega, by omega, ?_⟩
    rw [h, if_pos (by omega), List.drop_take, Nat.add_sub_cancel_left, List.drop_drop,
      Nat.zero_mul, Nat.zero_add, Option.filter_some]
    by_cases hzero : fromBytesBig ((patch.drop (offset + 1)).take width) = 0
    · simp [hzero]
    · simp [hzero]

/-- A length field of the tool is one of the stream, unless it is zero. -/
theorem decodeLength_spec (patch : List UInt8) (offset : Nat) :
    LengthRead patch offset (decodeLength patch offset) := by
  unfold decodeLength
  split
  · next hout =>
      rw [LengthRead, List.drop_eq_nil_of_le hout]
      rfl
  next hout =>
  have hin : offset < patch.length := by omega
  have hread : readLength (patch.drop offset) = _ := congrArg readLength (drop_eq_cons hin)
  dsimp only [readLength] at hread ⊢
  generalize patch.getD offset 0 = first at hread ⊢
  by_cases hsmall : first ≤ 251
  · rw [if_pos hsmall] at hread ⊢
    exact ⟨by omega, by omega, hread.trans (if_neg (by omega)).symm⟩
  rw [if_neg hsmall] at hread ⊢
  by_cases hmiddle : first = 252
  · rw [if_pos hmiddle] at hread ⊢
    split
    · next hout =>
        rw [List.drop_eq_nil_of_le hout] at hread
        exact hread
    · next hout =>
        rw [drop_eq_cons (show offset + 1 < patch.length by omega)] at hread
        exact ⟨by omega, by omega, hread.trans (if_neg (by omega)).symm⟩
  rw [if_neg hmiddle] at hread ⊢
  by_cases hword : first = 253
  · rw [if_pos (.inl hword), if_pos hword] at hread
    rw [if_pos hword]
    exact lengthRead_wide hin _ hread
  rw [if_neg hword] at hread ⊢
  by_cases hlong : first = 254
  · rw [if_pos (.inr hlong)] at hread
    rw [if_pos hlong]
    exact lengthRead_wide hin _ hread
  · rw [if_neg (not_or.2 ⟨hword, hlong⟩)] at hread
    rw [if_neg hlong]
    exact hread

/-! ### The loop -/

/-- Where a round of the loop finds its opcode. -/
theorem nextOpcode_cases {patch : List UInt8} {patchPos behind : Nat} {opcode : UInt8}
    (h : nextOpcode patch patchPos = .ok (opcode, behind)) :
    patch.getD patchPos 0 = jdiffEsc ∧ patchPos + 1 < patch.length ∧
        opcode = patch.getD (patchPos + 1) 0 ∧ behind = patchPos + 2 ∨
      patch.getD patchPos 0 ≠ jdiffEsc ∧ opcode = jdiffMod ∧ behind = patchPos := by
  unfold nextOpcode at h
  dsimp only at h
  split at h
  · next hesc =>
      split at h
      · cases h
      · next hmore =>
          cases h
          exact .inl ⟨hesc, by omega, rfl, rfl⟩
  · next hplain =>
      cases h
      exact .inr ⟨hplain, rfl, rfl⟩

theorem applyData_ok {source patch : List UInt8} {st st' : Applicator} {patchPos : Nat}
    {replaces : Bool} {message : String}
    (h : applyData source patch st patchPos replaces message = .ok st') :
    st'.patchPos = (copyLiteral patch patchPos []).2 := by
  unfold applyData at h
  dsimp only at h
  split at h
  · split at h
    · cases h
    · cases h
      rfl
  · cases h
    rfl

theorem decodeLength_lt {patch : List UInt8} {offset length behind : Nat}
    (h : decodeLength patch offset = .ok (length, behind)) : offset < behind := by
  have hread := decodeLength_spec patch offset
  rw [h] at hread
  exact hread.1

theorem bind_eq_ok {α β : Type} {x : Except Error α} {f : α → Except Error β} {b : β} :
    (x >>= f) = .ok b ↔ ∃ a, x = .ok a ∧ f a = .ok b := by
  cases x with
  | error error => exact ⟨nofun, fun ⟨_, h, _⟩ => nomatch h⟩
  | ok a => exact ⟨fun h => ⟨a, rfl, h⟩, fun ⟨_, h, hf⟩ => Except.ok.inj h ▸ hf⟩

theorem not_isOpcode {opcode : UInt8} (hEql : opcode ≠ jdiffEql) (hDel : opcode ≠ jdiffDel)
    (hBkt : opcode ≠ jdiffBkt) (hdata : ¬ (opcode = jdiffMod ∨ opcode = jdiffIns)) :
    isOpcode opcode = false := by
  rw [not_or] at hdata
  simp [isOpcode, hEql, hDel, hBkt, hdata.1, hdata.2]

/-- Each round takes at least one byte of the patch. -/
theorem applyStep_progress {source patch : List UInt8} {st st' : Applicator}
    (hin : st.patchPos < patch.length) (h : applyStep source patch st = .ok st') :
    st.patchPos < st'.patchPos := by
  obtain ⟨⟨opcode, behind⟩, hopcode, h⟩ := bind_eq_ok.1 h
  have hcases := nextOpcode_cases hopcode
  have hbehind : st.patchPos ≤ behind := by omega
  have hlength {f : Nat × Nat → Except Error Applicator} (h : (decodeLength patch behind >>= f) =
      .ok st') (hf : ∀ r, f r = .ok st' → st'.patchPos = r.2) : st.patchPos < st'.patchPos := by
    obtain ⟨r, hr, h⟩ := bind_eq_ok.1 h
    have hlt := decodeLength_lt hr
    rw [hf r h]
    omega
  dsimp only at h
  split at h
  · refine hlength h fun r hr => ?_
    split at hr <;> cases hr
    rfl
  split at h
  · refine hlength h fun r hr => ?_
    split at hr <;> cases hr
    rfl
  split at h
  · refine hlength h fun r hr => ?_
    split at hr <;> cases hr
    rfl
  split at h
  · rw [applyData_ok h]
    rcases hcases with ⟨-, hmore, -, rfl⟩ | ⟨hplain, -, rfl⟩
    · have hle := le_copyLiteral [] (show st.patchPos + 2 ≤ patch.length by omega)
      omega
    · exact lt_copyLiteral [] hin fun hesc => absurd hesc hplain
  · next hEql hDel hBkt hdata =>
      rw [applyData_ok h]
      rcases hcases with ⟨-, -, rfl, rfl⟩ | ⟨-, rfl, -⟩
      · rw [Nat.add_sub_cancel]
        exact lt_copyLiteral [] hin fun _ _ => not_isOpcode hEql hDel hBkt hdata
      · exact absurd (.inl rfl) hdata

/-- The rest of the loop of `apply_patch`. -/
def applyLoop (source patch : List UInt8) (st : Applicator) : Except Error (List UInt8) :=
  if hin : st.patchPos < patch.length then
    match h : applyStep source patch st with
    | .error error => .error error
    | .ok st' =>
        have : patch.length - st'.patchPos < patch.length - st.patchPos := by
          have := applyStep_progress hin h
          omega
        applyLoop source patch st'
  else .ok st.target
termination_by patch.length - st.patchPos

def applyPatch (source patch : List UInt8) : Except Error (List UInt8) :=
  applyLoop source patch {}

/-- The length field that a round of the loop meets, if it meets one. -/
def lengthField (patch : List UInt8) (patchPos : Nat) : Option Nat :=
  match nextOpcode patch patchPos with
  | .error _ => none
  | .ok (opcode, behind) =>
      if opcode = jdiffEql ∨ opcode = jdiffDel ∨ opcode = jdiffBkt then
        match decodeLength patch behind with
        | .error _ => none
        | .ok (length, _) => some length
      else none

/-- The length fields that are met while the rest of a patch is decoded. -/
def lengthsMet (source patch : List UInt8) (st : Applicator) : List Nat :=
  if hin : st.patchPos < patch.length then
    (lengthField patch st.patchPos).toList ++
      match h : applyStep source patch st with
      | .error _ => []
      | .ok st' =>
          have : patch.length - st'.patchPos < patch.length - st.patchPos := by
            have := applyStep_progress hin h
            omega
          lengthsMet source patch st'
  else []
termination_by patch.length - st.patchPos

end SecureDeltaOta.JojoDiffPatch
