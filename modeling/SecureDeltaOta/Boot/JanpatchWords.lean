import SecureDeltaOta.Boot.JanpatchPort
import SecureDeltaOta.Crash.Simulation

/-!
# The patcher in machine words

`janpatch_port.c` once more, now with integers of 32 bits and with its buffers of
128 bytes. Sums and differences are taken modulo `2 ^ 32`, and each of them is
recorded, as are the accesses to the source, to the literal buffer and to the
target.
-/

namespace SecureDeltaOta

open Memory Crash

namespace JanpatchPort.Words

open JojoDiff (jdiffEsc jdiffMod jdiffIns jdiffDel jdiffEql jdiffBkt isOpcode)
open Coded (note observe whileLoop)

/-- `JanpatchPortStream_t`. -/
structure Stream where
  baseImageSize : UInt32
  patchOffset : UInt32
  patchSize : UInt32
  targetImageSize : UInt32
  deriving DecidableEq, Repr

/-- `JanpatchContext_t`: the cursors and the statistics of the result. -/
structure Context where
  sourcePosition : UInt32
  patchPosition : UInt32
  targetPosition : UInt32
  operationCount : UInt32
  equalBytes : UInt32
  modifiedBytes : UInt32
  insertedBytes : UInt32
  deletedBytes : UInt32
  backwardBytes : UInt32
  deriving DecidableEq, Repr

def Context.start : Context := ⟨0, 0, 0, 0, 0, 0, 0, 0, 0⟩

/-- What the patcher does in a step. -/
inductive Access where
  | add (a b : UInt32)
  | sub (a b : UInt32)
  /-- The source cursor is set. -/
  | seek (position : UInt32)
  /-- Source bytes are read into a buffer. -/
  | source (offset length : UInt32)
  /-- A byte of the literal buffer is set. -/
  | store (index : UInt32)
  /-- Bytes are to be written to the reconstructed partition. -/
  | write (offset : UInt32) (data : List UInt8)
  deriving DecidableEq, Repr

abbrev Code (α : Type) : Type := Coded Machine Access Status α

def add (a b : UInt32) : Code UInt32 := do
  note (.add a b)
  pure (a + b)

def sub (a b : UInt32) : Code UInt32 := do
  note (.sub a b)
  pure (a - b)

def janpatchIoBufferSize : UInt32 := 128

def maxSize : UInt32 := 38912

/-! ## Reading -/

variable (stream : Stream)

def readSource (offset length : UInt32) : Code (List UInt8) :=
  if offset > maxSize then throw .sourceRange
  else do
    let room ← sub maxSize offset
    if length > room then throw .sourceRange
    else do
      note (.source offset length)
      observe (Prog.read fun s => window s.device.app offset.toNat length.toNat)

/-- A byte of the incoming partition. -/
def flashByte (offset : UInt32) : Code UInt8 := do
  match ← observe (ExternalFlashStorage.read .incoming offset.toNat 1) with
  | none => throw .patchReadFailed
  | some bytes => pure (bytes.getD 0 0)

def patchReadByte (ctx : Context) : Code (UInt8 × Context) :=
  if ctx.patchPosition ≥ stream.patchSize then throw .truncatedStream
  else do
    let offset ← add stream.patchOffset ctx.patchPosition
    let value ← flashByte offset
    let position ← add ctx.patchPosition 1
    pure (value, { ctx with patchPosition := position })

def patchPeekByte (ctx : Context) (relativeOffset : UInt32) : Code UInt8 := do
  let room ← sub stream.patchSize ctx.patchPosition
  if relativeOffset > room then throw .patchRange
  else do
    let position ← add ctx.patchPosition relativeOffset
    if position ≥ stream.patchSize then throw .truncatedStream
    else do
      let offset ← add stream.patchOffset position
      flashByte offset

/-- The loop that fills `bytes` of `ReadLength`. -/
def readBytes : Nat → Context → Code (List UInt8 × Context)
  | 0, ctx => pure ([], ctx)
  | count + 1, ctx => do
      let (value, ctx) ← patchReadByte stream ctx
      let (values, ctx) ← readBytes count ctx
      pure (value :: values, ctx)

/-- The two or four bytes put together, the first one highest. -/
def joinBytes : List UInt8 → UInt32
  | [b₀, b₁] => b₀.toUInt32 <<< 8 ||| b₁.toUInt32
  | [b₀, b₁, b₂, b₃] =>
      b₀.toUInt32 <<< 24 ||| b₁.toUInt32 <<< 16 ||| b₂.toUInt32 <<< 8 ||| b₃.toUInt32
  | _ => 0

def readLength (ctx : Context) : Code (UInt32 × Context) := do
  let (first, ctx) ← patchReadByte stream ctx
  if first ≤ 251 then do
    let length ← add first.toUInt32 1
    pure (length, ctx)
  else if first = 252 then do
    let (low, ctx) ← patchReadByte stream ctx
    let length ← add 253 low.toUInt32
    pure (length, ctx)
  else if first = 253 ∨ first = 254 then do
    let (bytes, ctx) ← readBytes stream (if first = 253 then 2 else 4) ctx
    if joinBytes bytes ≠ 0 then pure (joinBytes bytes, ctx) else throw .badLength
  else throw .badLength

/-! ## Writing -/

/-- Move the target cursor behind what was written. -/
def moveTarget (ctx : Context) (length : UInt32) : Code Context := do
  let position ← add ctx.targetPosition length
  pure { ctx with targetPosition := position }

def targetWrite (ctx : Context) (data : List UInt8) (length : UInt32) : Code Context :=
  if ctx.targetPosition > stream.targetImageSize then throw .targetRange
  else do
    let room ← sub stream.targetImageSize ctx.targetPosition
    if length > room then throw .targetRange
    else if length = 0 then moveTarget ctx length
    else do
      let bytes := data.take length.toNat
      note (.write ctx.targetPosition bytes)
      let written ←
        observe (ExternalFlashStorage.write .reconstructed ctx.targetPosition.toNat bytes)
      if !written then throw .targetWriteFailed
      else moveTarget ctx length

/-- The check that the source has this many bytes left. -/
def requireSource (ctx : Context) (length : UInt32) : Code Unit :=
  if ctx.sourcePosition > stream.baseImageSize then throw .sourceRange
  else do
    let room ← sub stream.baseImageSize ctx.sourcePosition
    if length > room then throw .sourceRange else pure ()

/-- Move the source cursor forward. -/
def advanceSource (ctx : Context) (length : UInt32) : Code Context := do
  let position ← add ctx.sourcePosition length
  note (.seek position)
  pure { ctx with sourcePosition := position }

/-- One round of the loop of `CopyEqual`. -/
def copyChunk (st : Context × UInt32) : Code (Context × UInt32) := do
  let chunk := if st.2 > janpatchIoBufferSize then janpatchIoBufferSize else st.2
  let buffer ← readSource st.1.sourcePosition chunk
  let ctx ← targetWrite stream st.1 buffer chunk
  let ctx ← advanceSource ctx chunk
  let equalBytes ← add ctx.equalBytes chunk
  let length ← sub st.2 chunk
  pure ({ ctx with equalBytes := equalBytes }, length)

def copyEqual (ctx : Context) (length : UInt32) : Code Context := do
  requireSource stream ctx length
  let st ← whileLoop (fun st : Context × UInt32 => st.2 ≠ 0) (copyChunk stream) length.toNat
    (ctx, length)
  pure st.1

/-- The variables of `ConsumeLiteral`. -/
structure Literal where
  ctx : Context
  buffer : List UInt8
  used : UInt32
  total : UInt32
  finished : Bool
  deriving DecidableEq, Repr

def Literal.start (ctx : Context) : Literal :=
  ⟨ctx, List.replicate janpatchIoBufferSize.toNat 0, 0, 0, false⟩

/-- `buffer[used++] = value`. -/
def storeLiteral (run : Literal) (value : UInt8) : Code Literal := do
  note (.store run.used)
  let used ← add run.used 1
  pure { run with buffer := run.buffer.set run.used.toNat value, used := used }

def flushLiteral (advance : Bool) (run : Literal) : Code Literal := do
  let ctx ← targetWrite stream run.ctx run.buffer run.used
  if advance then do
    requireSource stream ctx run.used
    let ctx ← advanceSource ctx run.used
    let total ← add run.total run.used
    pure { run with ctx := ctx, used := 0, total := total }
  else do
    let total ← add run.total run.used
    pure { run with ctx := ctx, used := 0, total := total }

/-- Store a byte, and write out the buffer when it is full. -/
def pushLiteral (advance : Bool) (run : Literal) (value : UInt8) : Code Literal := do
  let run ← storeLiteral run value
  if run.used = janpatchIoBufferSize then flushLiteral stream advance run else pure run

/-- Move the patch cursor of a literal run. -/
def Literal.advance (run : Literal) (count : UInt32) : Code Literal := do
  let position ← add run.ctx.patchPosition count
  pure { run with ctx := { run.ctx with patchPosition := position } }

/-- One round of the loop of `ConsumeLiteral`. -/
def literalStep (advance : Bool) (run : Literal) : Code Literal := do
  let value ← patchPeekByte stream run.ctx 0
  if value ≠ jdiffEsc then do
    let (value, ctx) ← patchReadByte stream run.ctx
    pushLiteral stream advance { run with ctx := ctx } value
  else do
    let behind ← add run.ctx.patchPosition 1
    if behind ≥ stream.patchSize then do
      let run ← run.advance 1
      pure { run with finished := true }
    else do
      let next ← patchPeekByte stream run.ctx 1
      if next = jdiffEsc then do
        let run ← run.advance 2
        pushLiteral stream advance run jdiffEsc
      else if isOpcode next then pure { run with finished := true }
      else do
        let run ← run.advance 2
        let run ← pushLiteral stream advance run jdiffEsc
        pushLiteral stream advance run next

def consumeLiteral (ctx : Context) (advance : Bool) : Code (Context × UInt32) := do
  let run ← whileLoop
    (fun run : Literal => !run.finished && run.ctx.patchPosition < stream.patchSize)
    (literalStep stream advance) stream.patchSize.toNat (Literal.start ctx)
  if run.used ≠ 0 then do
    let run ← flushLiteral stream advance run
    pure (run.ctx, run.total)
  else pure (run.ctx, run.total)

/-! ## Operations -/

def readOpcode (ctx : Context) : Code (UInt8 × Context) := do
  let first ← patchPeekByte stream ctx 0
  if first ≠ jdiffEsc then pure (jdiffMod, ctx)
  else do
    let behind ← add ctx.patchPosition 1
    if behind ≥ stream.patchSize then throw .truncatedStream
    else do
      let next ← patchPeekByte stream ctx 1
      if isOpcode next then do
        let position ← add ctx.patchPosition 2
        pure (next, { ctx with patchPosition := position })
      else pure (jdiffMod, ctx)

def applyOperation (opcode : UInt8) (ctx : Context) : Code Context :=
  if opcode = jdiffEql ∨ opcode = jdiffDel ∨ opcode = jdiffBkt then do
    let (length, ctx) ← readLength stream ctx
    if opcode = jdiffEql then copyEqual stream ctx length
    else if opcode = jdiffDel then do
      requireSource stream ctx length
      let ctx ← advanceSource ctx length
      let deletedBytes ← add ctx.deletedBytes length
      pure { ctx with deletedBytes := deletedBytes }
    else if length > ctx.sourcePosition then throw .sourceRange
    else do
      let position ← sub ctx.sourcePosition length
      note (.seek position)
      let backwardBytes ← add ctx.backwardBytes length
      pure { ctx with sourcePosition := position, backwardBytes := backwardBytes }
  else if opcode = jdiffMod ∨ opcode = jdiffIns then do
    let (ctx, written) ← consumeLiteral stream ctx (opcode = jdiffMod)
    if opcode = jdiffMod then do
      let modifiedBytes ← add ctx.modifiedBytes written
      pure { ctx with modifiedBytes := modifiedBytes }
    else do
      let insertedBytes ← add ctx.insertedBytes written
      pure { ctx with insertedBytes := insertedBytes }
  else throw .badOpcode

/-- One round of the main loop. -/
def applyStep (ctx : Context) : Code Context := do
  let (opcode, ctx) ← readOpcode stream ctx
  let ctx ← applyOperation stream opcode ctx
  let operationCount ← add ctx.operationCount 1
  pure { ctx with operationCount := operationCount }

/-- `JanpatchPort_ApplyStream`. -/
def applyStream : Code Context :=
  if stream.baseImageSize = 0 ∨ stream.patchSize = 0 ∨ stream.targetImageSize = 0 then
    throw .invalidArgument
  else do
    let ctx ← whileLoop (fun ctx : Context => ctx.patchPosition < stream.patchSize)
      (applyStep stream) stream.patchSize.toNat Context.start
    if ctx.targetPosition ≠ stream.targetImageSize then throw .targetSizeMismatch
    else pure ctx

/-! ## Safety of a record -/

variable {stream}

/-- An entry of the record does no harm. -/
def Access.Safe (stream : Stream) : Access → Prop
  | .add a b => a.toNat + b.toNat < 2 ^ 32
  | .sub a b => b.toNat ≤ a.toNat
  | .seek position => position.toNat ≤ stream.baseImageSize.toNat
  | .source offset length =>
      offset.toNat + length.toNat ≤ stream.baseImageSize.toNat ∧ length.toNat ≤ 128
  | .store index => index.toNat < 128
  | .write offset data => offset.toNat + data.length ≤ stream.targetImageSize.toNat

/-- The ranges of the target that were to be written, in order. -/
def writes (trace : List Access) : List (Nat × Nat) :=
  trace.filterMap fun
    | .write offset data => some (offset.toNat, data.length)
    | _ => none

/-- Each range begins where the one before it ends, the first one at the given place. -/
def Consecutive : Nat → List (Nat × Nat) → Prop
  | _, [] => True
  | start, (offset, length) :: rest => offset = start ∧ Consecutive (start + length) rest

/-- The length of all ranges together. -/
def covered (ranges : List (Nat × Nat)) : Nat := (ranges.map Prod.snd).sum

theorem consecutive_concat {start : Nat} {ranges : List (Nat × Nat)} {range : Nat × Nat} :
    Consecutive start (ranges ++ [range]) ↔
      Consecutive start ranges ∧ range.1 = start + covered ranges := by
  induction ranges generalizing start with
  | nil => simp [Consecutive, covered]
  | cons first ranges ih =>
      simp only [List.cons_append, Consecutive, ih, covered, List.map_cons, List.sum_cons]
      rw [and_assoc, Nat.add_assoc]

theorem covered_concat (ranges : List (Nat × Nat)) (range : Nat × Nat) :
    covered (ranges ++ [range]) = covered ranges + range.2 := by
  simp [covered]

/-- Nothing in the record does harm, and the target is written from its start on. -/
structure Sound (stream : Stream) (trace : List Access) : Prop where
  safe : ∀ access ∈ trace, access.Safe stream
  consecutive : Consecutive 0 (writes trace)

end JanpatchPort.Words

end SecureDeltaOta
