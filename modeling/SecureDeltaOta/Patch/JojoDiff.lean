import Mathlib.Data.List.GetD
import Mathlib.Tactic

/-!
# The meaning of a patch stream

A patch is a sequence of operations on a source: bytes are copied from it,
skipped in it, replaced or inserted. An escape byte introduces an operation, and
doubled it stands for itself in literal data. The module says what a stream of
bytes means, independently of who reads it and of how its output is buffered.
-/

namespace SecureDeltaOta.JojoDiff

def jdiffEsc : UInt8 := 0xA7

def jdiffMod : UInt8 := 0xA6

def jdiffIns : UInt8 := 0xA5

def jdiffDel : UInt8 := 0xA4

def jdiffEql : UInt8 := 0xA3

def jdiffBkt : UInt8 := 0xA2

def isOpcode (value : UInt8) : Bool :=
  value = jdiffMod || value = jdiffIns || value = jdiffDel || value = jdiffEql || value = jdiffBkt

inductive Operation where
  | equal (length : Nat)
  | delete (length : Nat)
  | backtrack (length : Nat)
  | modify (data : List UInt8)
  | insert (data : List UInt8)
  deriving DecidableEq, Repr

/-! ## Decoding -/

/-- A big-endian number of the given width, and the stream behind it. -/
def readBigEndian : Nat → Nat → List UInt8 → Option (Nat × List UInt8)
  | 0, value, stream => some (value, stream)
  | _ + 1, _, [] => none
  | width + 1, value, byte :: stream => readBigEndian width (value * 256 + byte.toNat) stream

/-- The length at the head of a stream; a length of zero is no length. -/
def readLength : List UInt8 → Option (Nat × List UInt8)
  | [] => none
  | first :: stream =>
      if first ≤ 251 then some (first.toNat + 1, stream)
      else if first = 252 then
        match stream with
        | [] => none
        | low :: stream => some (253 + low.toNat, stream)
      else if first = 253 ∨ first = 254 then
        (readBigEndian (if first = 253 then 2 else 4) 0 stream).filter fun r => r.1 ≠ 0
      else none

/-- The literal data at the head of a stream, and the stream from the next operation on. -/
def scanLiteral : List UInt8 → List UInt8 × List UInt8
  | [] => ([], [])
  | value :: stream =>
      if value ≠ jdiffEsc then
        let rest := scanLiteral stream
        (value :: rest.1, rest.2)
      else
        match stream with
        | [] => ([], [])
        | next :: stream =>
            if next = jdiffEsc then
              let rest := scanLiteral stream
              (jdiffEsc :: rest.1, rest.2)
            else if isOpcode next then ([], value :: next :: stream)
            else
              let rest := scanLiteral stream
              (jdiffEsc :: next :: rest.1, rest.2)

/-- The operation an opcode and the stream behind it stand for. -/
def decodeOperation (opcode : UInt8) (stream : List UInt8) : Option (Operation × List UInt8) :=
  if opcode = jdiffEql then (readLength stream).map fun r => (.equal r.1, r.2)
  else if opcode = jdiffDel then (readLength stream).map fun r => (.delete r.1, r.2)
  else if opcode = jdiffBkt then (readLength stream).map fun r => (.backtrack r.1, r.2)
  else if opcode = jdiffMod then some (.modify (scanLiteral stream).1, (scanLiteral stream).2)
  else if opcode = jdiffIns then some (.insert (scanLiteral stream).1, (scanLiteral stream).2)
  else none

/-- The opcode at the head of a stream; data without one are an implicit `MOD`. -/
def decodeOpcode : List UInt8 → Option (UInt8 × List UInt8)
  | [] => none
  | first :: stream =>
      if first ≠ jdiffEsc then some (jdiffMod, first :: stream)
      else
        match stream with
        | [] => none
        | next :: stream =>
            if isOpcode next then some (next, stream) else some (jdiffMod, first :: next :: stream)

/-- The first operation of a stream. -/
def decodeNext (stream : List UInt8) : Option (Operation × List UInt8) :=
  (decodeOpcode stream).bind fun r => decodeOperation r.1 r.2

/-! ## Applying operations -/

/-- The place in the source, and the target so far. -/
structure Progress where
  position : Nat
  output : List UInt8
  deriving DecidableEq, Repr

/-- The effect of an operation on a source, for a target of at most `limit` bytes. -/
def Operation.apply (source : List UInt8) (limit : Nat) (st : Progress) :
    Operation → Option Progress
  | .equal length =>
      if st.position + length ≤ source.length ∧ st.output.length + length ≤ limit then
        some ⟨st.position + length, st.output ++ (source.drop st.position).take length⟩
      else none
  | .delete length =>
      if st.position + length ≤ source.length then some { st with position := st.position + length }
      else none
  | .backtrack length =>
      if length ≤ st.position then some { st with position := st.position - length } else none
  | .modify data =>
      if st.position + data.length ≤ source.length ∧ st.output.length + data.length ≤ limit then
        some ⟨st.position + data.length, st.output ++ data⟩
      else none
  | .insert data =>
      if st.output.length + data.length ≤ limit then some { st with output := st.output ++ data }
      else none

theorem drop_eq_cons {l : List UInt8} {i : Nat} (h : i < l.length) :
    l.drop i = l.getD i 0 :: l.drop (i + 1) := by
  rw [List.drop_eq_getElem_cons h, List.getD_eq_getElem l 0 h]

theorem readBigEndian_length {width value : Nat} {stream : List UInt8} {r : Nat × List UInt8}
    (h : readBigEndian width value stream = some r) : r.2.length ≤ stream.length := by
  induction width generalizing value stream with
  | zero =>
      cases h
      exact le_rfl
  | succ width ih =>
      cases stream with
      | nil => cases h
      | cons byte stream => exact (ih h).trans (Nat.le_succ _)

theorem readLength_length {stream : List UInt8} {r : Nat × List UInt8}
    (h : readLength stream = some r) : r.2.length < stream.length := by
  cases stream with
  | nil => cases h
  | cons first stream =>
      unfold readLength at h
      dsimp only at h
      split_ifs at h with h₁ h₂ h₃
      · cases h
        exact Nat.lt_succ_self _
      · cases stream with
        | nil => cases h
        | cons low stream =>
            cases h
            exact Nat.lt_succ_of_lt (Nat.lt_succ_self _)
      all_goals
        obtain ⟨hread, -⟩ := Option.filter_eq_some_iff.1 h
        exact Nat.lt_succ_of_le (readBigEndian_length hread)

@[simp] theorem scanLiteral_nil : scanLiteral [] = ([], []) := by
  rw [scanLiteral]

theorem scanLiteral_plain {value : UInt8} (h : value ≠ jdiffEsc) (stream : List UInt8) :
    scanLiteral (value :: stream) =
      (value :: (scanLiteral stream).1, (scanLiteral stream).2) := by
  rw [scanLiteral.eq_def]
  simp [h]

theorem scanLiteral_end : scanLiteral [jdiffEsc] = ([], []) := by
  rw [scanLiteral.eq_def]
  simp

theorem scanLiteral_escaped (stream : List UInt8) :
    scanLiteral (jdiffEsc :: jdiffEsc :: stream) =
      (jdiffEsc :: (scanLiteral stream).1, (scanLiteral stream).2) := by
  rw [scanLiteral.eq_def]
  simp

theorem isOpcode_ne_esc {next : UInt8} (h : isOpcode next = true) : next ≠ jdiffEsc := by
  rintro rfl
  exact absurd h (by decide)

theorem scanLiteral_opcode {next : UInt8} (h : isOpcode next = true) (stream : List UInt8) :
    scanLiteral (jdiffEsc :: next :: stream) = ([], jdiffEsc :: next :: stream) := by
  rw [scanLiteral.eq_def]
  simp [isOpcode_ne_esc h, h]

theorem scanLiteral_unknown {next : UInt8} (hesc : next ≠ jdiffEsc) (h : isOpcode next = false)
    (stream : List UInt8) :
    scanLiteral (jdiffEsc :: next :: stream) =
      (jdiffEsc :: next :: (scanLiteral stream).1, (scanLiteral stream).2) := by
  rw [scanLiteral.eq_def]
  simp [hesc, h]

theorem scanLiteral_length (stream : List UInt8) :
    (scanLiteral stream).2.length ≤ stream.length := by
  induction stream using scanLiteral.induct with
  | case1 => simp
  | case2 value stream hvalue ih =>
      rw [scanLiteral_plain hvalue]
      exact Nat.le_succ_of_le ih
  | case3 value hvalue =>
      rw [not_not.1 hvalue, scanLiteral_end]
      exact Nat.zero_le _
  | case4 value hvalue stream ih =>
      rw [not_not.1 hvalue, scanLiteral_escaped]
      exact Nat.le_succ_of_le (Nat.le_succ_of_le ih)
  | case5 value hvalue next stream hnext hopcode =>
      rw [not_not.1 hvalue, scanLiteral_opcode hopcode]
  | case6 value hvalue next stream hnext hopcode ih =>
      rw [not_not.1 hvalue, scanLiteral_unknown hnext (Bool.not_eq_true _ ▸ hopcode)]
      exact Nat.le_succ_of_le (Nat.le_succ_of_le ih)

/-- Literal data that do not begin with an operation take at least one byte. -/
theorem scanLiteral_length_lt {value : UInt8} {stream : List UInt8}
    (h : ∀ next rest, value = jdiffEsc → stream = next :: rest → isOpcode next = false) :
    (scanLiteral (value :: stream)).2.length < (value :: stream).length := by
  by_cases hvalue : value = jdiffEsc
  · cases stream with
    | nil =>
        rw [hvalue, scanLiteral_end]
        exact Nat.succ_pos _
    | cons next rest =>
        have hle := scanLiteral_length rest
        by_cases hnext : next = jdiffEsc
        · rw [hvalue, hnext, scanLiteral_escaped]
          simp only [List.length_cons]
          omega
        · rw [hvalue, scanLiteral_unknown hnext (h next rest hvalue rfl)]
          simp only [List.length_cons]
          omega
  · rw [scanLiteral_plain hvalue]
    exact Nat.lt_succ_of_le (scanLiteral_length stream)

/-- An opcode stands at the head of the stream, or the stream begins with literal data. -/
theorem decodeOpcode_cases {stream behind : List UInt8} {opcode : UInt8}
    (h : decodeOpcode stream = some (opcode, behind)) :
    (isOpcode opcode = true ∧ stream = jdiffEsc :: opcode :: behind) ∨
      (opcode = jdiffMod ∧ behind = stream ∧
        (scanLiteral stream).2.length < stream.length) := by
  cases stream with
  | nil => cases h
  | cons first stream =>
      by_cases hfirst : first = jdiffEsc
      · subst hfirst
        cases stream with
        | nil => simp [decodeOpcode] at h
        | cons next stream =>
            by_cases hnext : isOpcode next = true
            · simp only [decodeOpcode, hnext, ne_eq, not_true_eq_false, if_false, if_true,
                Option.some.injEq, Prod.mk.injEq] at h
              obtain ⟨rfl, rfl⟩ := h
              exact .inl ⟨hnext, rfl⟩
            · simp only [decodeOpcode, hnext, ne_eq, not_true_eq_false, if_false,
                Bool.false_eq_true, Option.some.injEq, Prod.mk.injEq] at h
              refine .inr ⟨h.1.symm, h.2.symm, scanLiteral_length_lt ?_⟩
              rintro next' rest - heq
              cases heq
              simpa using hnext
      · simp only [decodeOpcode, ne_eq, hfirst, not_false_eq_true, if_true, Option.some.injEq,
          Prod.mk.injEq] at h
        exact .inr ⟨h.1.symm, h.2.symm, scanLiteral_length_lt fun _ _ hesc => absurd hesc hfirst⟩

theorem decodeOperation_length {opcode : UInt8} {stream : List UInt8}
    {r : Operation × List UInt8} (h : decodeOperation opcode stream = some r) :
    r.2.length ≤ stream.length := by
  have hlength : ∀ f : Nat → Operation,
      (readLength stream).map (fun r => (f r.1, r.2)) = some r → r.2.length ≤ stream.length := by
    intro f hf
    obtain ⟨q, hq, rfl⟩ := Option.map_eq_some_iff.1 hf
    exact (readLength_length hq).le
  unfold decodeOperation at h
  split_ifs at h
  · exact hlength _ h
  · exact hlength _ h
  · exact hlength _ h
  · cases h
    exact scanLiteral_length stream
  · cases h
    exact scanLiteral_length stream

/-- Every operation takes at least one byte of the stream. -/
theorem decodeNext_length {stream : List UInt8} {r : Operation × List UInt8}
    (h : decodeNext stream = some r) : r.2.length < stream.length := by
  obtain ⟨⟨opcode, behind⟩, hopcode, hoperation⟩ := Option.bind_eq_some_iff.1 h
  rcases decodeOpcode_cases hopcode with ⟨-, rfl⟩ | ⟨rfl, rfl, hlt⟩
  · have hle := decodeOperation_length hoperation
    simp only [List.length_cons]
    dsimp only at hle
    omega
  · cases hoperation
    exact hlt

/-- The meaning of a stream: what its operations do one after another. -/
def run (source : List UInt8) (limit : Nat) (stream : List UInt8) (st : Progress) :
    Option Progress :=
  if stream = [] then some st
  else
    match h : decodeNext stream with
    | none => none
    | some (operation, rest) =>
        match operation.apply source limit st with
        | none => none
        | some st =>
            have : rest.length < stream.length := decodeNext_length h
            run source limit rest st
termination_by stream.length

theorem run_nil (source : List UInt8) (limit : Nat) (st : Progress) :
    run source limit [] st = some st := by
  rw [run.eq_def]
  simp

theorem run_next {source : List UInt8} {limit : Nat} {stream rest : List UInt8}
    {operation : Operation} (h : decodeNext stream = some (operation, rest)) (st : Progress) :
    run source limit stream st =
      (operation.apply source limit st).bind (run source limit rest) := by
  have hne : stream ≠ [] := by
    rintro rfl
    cases h
  rw [run.eq_def, if_neg hne]
  split
  · next hnone => rw [h] at hnone; cases hnone
  · next operation' rest' hsome =>
      rw [h] at hsome
      cases hsome
      cases operation.apply source limit st <;> rfl

theorem run_undecodable {source : List UInt8} {limit : Nat} {stream : List UInt8}
    (hne : stream ≠ []) (h : decodeNext stream = none) (st : Progress) :
    run source limit stream st = none := by
  rw [run.eq_def, if_neg hne]
  split
  · rfl
  · next hsome => rw [h] at hsome; cases hsome

/-! ## Statistics -/

/-- How many operations a stream has, and how many bytes they concern. -/
structure Tally where
  operations : Nat
  equal : Nat
  modified : Nat
  inserted : Nat
  deleted : Nat
  backward : Nat
  deriving DecidableEq, Repr

/-- An operation is counted. -/
def Operation.count (t : Tally) : Operation → Tally
  | .equal length => { t with operations := t.operations + 1, equal := t.equal + length }
  | .delete length => { t with operations := t.operations + 1, deleted := t.deleted + length }
  | .backtrack length => { t with operations := t.operations + 1, backward := t.backward + length }
  | .modify data => { t with operations := t.operations + 1, modified := t.modified + data.length }
  | .insert data => { t with operations := t.operations + 1, inserted := t.inserted + data.length }

/-- The operations of a stream are counted, up to the first place that is not one. -/
def tally (t : Tally) (stream : List UInt8) : Tally :=
  if stream = [] then t
  else
    match h : decodeNext stream with
    | none => t
    | some (operation, rest) =>
        have : rest.length < stream.length := decodeNext_length h
        tally (operation.count t) rest
termination_by stream.length

theorem tally_nil (t : Tally) : tally t [] = t := by
  rw [tally.eq_def, if_pos rfl]

theorem tally_next {stream rest : List UInt8} {operation : Operation}
    (h : decodeNext stream = some (operation, rest)) (t : Tally) :
    tally t stream = tally (operation.count t) rest := by
  have hne : stream ≠ [] := by
    rintro rfl
    cases h
  rw [tally.eq_def, if_neg hne]
  split
  · next hnone => rw [h] at hnone; cases hnone
  · next operation' rest' hsome =>
      rw [h] at hsome
      cases hsome
      rfl

end SecureDeltaOta.JojoDiff
