import SecureDeltaOta.Patch.JojoDiff
import SecureDeltaOta.Storage.BackupImageStorage

/-!
# The streaming patcher

`janpatch_port.c`: the patch is read byte by byte from the incoming partition,
the source is the installed application, and the target goes to the
reconstructed partition through a literal buffer of 128 bytes.
-/

namespace SecureDeltaOta

open Memory Crash

namespace JanpatchPort

open JojoDiff (jdiffEsc jdiffMod jdiffIns jdiffDel jdiffEql jdiffBkt isOpcode)

def ioBufferSize : Nat := 128

inductive Status where
  | ok
  | invalidArgument
  | sourceRange
  | patchRange
  | targetRange
  | patchReadFailed
  | targetWriteFailed
  | badOpcode
  | badLength
  | truncatedStream
  | targetSizeMismatch
  deriving DecidableEq, Repr

structure Stream where
  baseImageSize : Nat
  patchOffset : Nat
  patchSize : Nat
  targetImageSize : Nat
  deriving DecidableEq, Repr

/-- Cursors and statistics of a run. -/
structure Context where
  sourcePosition : Nat
  patchPosition : Nat
  targetPosition : Nat
  operationCount : Nat
  equalBytes : Nat
  modifiedBytes : Nat
  insertedBytes : Nat
  deletedBytes : Nat
  backwardBytes : Nat
  deriving DecidableEq, Repr

def Context.start : Context := ⟨0, 0, 0, 0, 0, 0, 0, 0, 0⟩

variable (stream : Stream)

def readSource (offset length : Nat) : Prog Machine (Except Status (List UInt8)) :=
  if offset > applicationMaxSize ∨ length > applicationMaxSize - offset then
    pure (.error .sourceRange)
  else
    Prog.read fun s => .ok (window s.device.app offset length)

/-- One byte of the patch at a position inside it. -/
def patchByteAt (position : Nat) : Prog Machine (Except Status UInt8) := do
  match ← ExternalFlashStorage.read .incoming (stream.patchOffset + position) 1 with
  | none => pure (.error .patchReadFailed)
  | some bytes => pure (.ok (bytes.getD 0 0))

/-- `PatchReadByte`; the caller moves the cursor on. -/
def patchReadByte (position : Nat) : Prog Machine (Except Status UInt8) :=
  if position ≥ stream.patchSize then pure (.error .truncatedStream)
  else patchByteAt stream position

def patchPeekByte (position relativeOffset : Nat) : Prog Machine (Except Status UInt8) :=
  if relativeOffset > stream.patchSize - position then pure (.error .patchRange)
  else if position + relativeOffset ≥ stream.patchSize then pure (.error .truncatedStream)
  else patchByteAt stream (position + relativeOffset)

/-- A big-endian number of the given width, and the cursor behind it. -/
def readBigEndian : Nat → Nat → Nat → Prog Machine (Except Status (Nat × Nat))
  | 0, position, value => pure (.ok (value, position))
  | width + 1, position, value => do
      match ← patchReadByte stream position with
      | .error status => pure (.error status)
      | .ok byte => readBigEndian width (position + 1) (value * 256 + byte.toNat)

/-- `ReadLength`: the length and the cursor behind it. -/
def readLength (position : Nat) : Prog Machine (Except Status (Nat × Nat)) := do
  match ← patchReadByte stream position with
  | .error status => pure (.error status)
  | .ok first =>
      if first ≤ 251 then pure (.ok (first.toNat + 1, position + 1))
      else if first = 252 then do
        match ← patchReadByte stream (position + 1) with
        | .error status => pure (.error status)
        | .ok low => pure (.ok (253 + low.toNat, position + 2))
      else if first = 253 ∨ first = 254 then do
        match ← readBigEndian stream (if first = 253 then 2 else 4) (position + 1) 0 with
        | .error status => pure (.error status)
        | .ok (length, position) =>
            if length ≠ 0 then pure (.ok (length, position)) else pure (.error .badLength)
      else pure (.error .badLength)

def targetWrite (ctx : Context) (data : List UInt8) : Prog Machine (Except Status Context) :=
  if ctx.targetPosition > stream.targetImageSize ∨
      data.length > stream.targetImageSize - ctx.targetPosition then
    pure (.error .targetRange)
  else if data.length = 0 then pure (.ok ctx)
  else do
    let written ← ExternalFlashStorage.write .reconstructed ctx.targetPosition data
    if !written then pure (.error .targetWriteFailed)
    else pure (.ok { ctx with targetPosition := ctx.targetPosition + data.length })

/-- The source has this many bytes left. -/
def sourceHas (ctx : Context) (length : Nat) : Bool :=
  !(ctx.sourcePosition > stream.baseImageSize) &&
    !(length > stream.baseImageSize - ctx.sourcePosition)

def copyEqual (ctx : Context) (length : Nat) : Prog Machine (Except Status Context) :=
  if !sourceHas stream ctx length then pure (.error .sourceRange)
  else
    Prog.loopThen (fun st : Context × Nat => st.2 ≠ 0)
      (fun st => do
        let chunk := min st.2 ioBufferSize
        match ← readSource st.1.sourcePosition chunk with
        | .error status => pure (.error (.error status))
        | .ok buffer => do
            match ← targetWrite stream st.1 buffer with
            | .error status => pure (.error (.error status))
            | .ok ctx =>
                pure (.ok
                  ({ ctx with
                      sourcePosition := ctx.sourcePosition + chunk
                      equalBytes := ctx.equalBytes + chunk }, st.2 - chunk)))
      length (ctx, length) (fun st => pure (.ok st.1))

/-- The state of a literal run. -/
structure Literal where
  ctx : Context
  buffer : List UInt8
  total : Nat
  finished : Bool

/-- Write out the buffer, and advance the source over it if the run replaces source bytes. -/
def flushLiteral (advanceSource : Bool) (run : Literal) : Prog Machine (Except Status Literal) := do
  match ← targetWrite stream run.ctx run.buffer with
  | .error status => pure (.error status)
  | .ok ctx =>
      if advanceSource then
        if !sourceHas stream ctx run.buffer.length then pure (.error .sourceRange)
        else
          pure (.ok
            { run with
              ctx := { ctx with sourcePosition := ctx.sourcePosition + run.buffer.length }
              buffer := []
              total := run.total + run.buffer.length })
      else
        pure (.ok
          { run with
            ctx := ctx
            buffer := []
            total := run.total + run.buffer.length })

/-- Append a byte, and write out the buffer when it is full. -/
def pushLiteral (advanceSource : Bool) (run : Literal) (value : UInt8) :
    Prog Machine (Except Status Literal) :=
  let run := { run with buffer := run.buffer ++ [value] }
  if run.buffer.length = ioBufferSize then flushLiteral stream advanceSource run
  else pure (.ok run)

/-- Move the patch cursor of a literal run. -/
def Literal.advance (run : Literal) (count : Nat) : Literal :=
  { run with ctx := { run.ctx with patchPosition := run.ctx.patchPosition + count } }

/-- One round of the loop of `ConsumeLiteral`. -/
def literalStep (advanceSource : Bool) (run : Literal) : Prog Machine (Except Status Literal) := do
  match ← patchPeekByte stream run.ctx.patchPosition 0 with
  | .error status => pure (.error status)
  | .ok value =>
      if value ≠ jdiffEsc then do
        match ← patchReadByte stream run.ctx.patchPosition with
        | .error status => pure (.error status)
        | .ok value => pushLiteral stream advanceSource (run.advance 1) value
      else if run.ctx.patchPosition + 1 ≥ stream.patchSize then
        -- an escape at the end of the stream terminates the run
        pure (.ok { run.advance 1 with finished := true })
      else do
        match ← patchPeekByte stream run.ctx.patchPosition 1 with
        | .error status => pure (.error status)
        | .ok next =>
            if next = jdiffEsc then pushLiteral stream advanceSource (run.advance 2) jdiffEsc
            else if isOpcode next then pure (.ok { run with finished := true })
            else do
              -- an unknown escaped pair is literal data
              match ← pushLiteral stream advanceSource (run.advance 2) jdiffEsc with
              | .error status => pure (.error status)
              | .ok run => pushLiteral stream advanceSource run next

/-- `ConsumeLiteral`: the context after the run and the number of bytes written. -/
def consumeLiteral (ctx : Context) (advanceSource : Bool) :
    Prog Machine (Except Status (Context × Nat)) :=
  Prog.loopThen
    (fun run : Literal => !run.finished && run.ctx.patchPosition < stream.patchSize)
    (fun run => do
      match ← literalStep stream advanceSource run with
      | .error status => pure (.error (.error status))
      | .ok run => pure (.ok run))
    stream.patchSize ⟨ctx, [], 0, false⟩
    (fun run =>
      if run.buffer.length ≠ 0 then do
        match ← flushLiteral stream advanceSource run with
        | .error status => pure (.error status)
        | .ok run => pure (.ok (run.ctx, run.total))
      else pure (.ok (run.ctx, run.total)))

/-- The opcode at the cursor, and the cursor behind it; plain data is an implicit `MOD`. -/
def readOpcode (ctx : Context) : Prog Machine (Except Status (UInt8 × Context)) := do
  match ← patchPeekByte stream ctx.patchPosition 0 with
  | .error status => pure (.error status)
  | .ok first =>
      if first ≠ jdiffEsc then pure (.ok (jdiffMod, ctx))
      else if ctx.patchPosition + 1 ≥ stream.patchSize then pure (.error .truncatedStream)
      else do
        match ← patchPeekByte stream ctx.patchPosition 1 with
        | .error status => pure (.error status)
        | .ok next =>
            if isOpcode next then
              pure (.ok (next, { ctx with patchPosition := ctx.patchPosition + 2 }))
            else pure (.ok (jdiffMod, ctx))

/-- Carry out one operation. -/
def applyOperation (opcode : UInt8) (ctx : Context) : Prog Machine (Except Status Context) :=
  if opcode = jdiffEql ∨ opcode = jdiffDel ∨ opcode = jdiffBkt then do
    match ← readLength stream ctx.patchPosition with
    | .error status => pure (.error status)
    | .ok (length, position) =>
        let ctx := { ctx with patchPosition := position }
        if opcode = jdiffEql then copyEqual stream ctx length
        else if opcode = jdiffDel then
          if !sourceHas stream ctx length then pure (.error .sourceRange)
          else
            pure (.ok
              { ctx with
                sourcePosition := ctx.sourcePosition + length
                deletedBytes := ctx.deletedBytes + length })
        else if length > ctx.sourcePosition then pure (.error .sourceRange)
        else
          pure (.ok
            { ctx with
              sourcePosition := ctx.sourcePosition - length
              backwardBytes := ctx.backwardBytes + length })
  else if opcode = jdiffMod ∨ opcode = jdiffIns then do
    match ← consumeLiteral stream ctx (opcode = jdiffMod) with
    | .error status => pure (.error status)
    | .ok (ctx, written) =>
        if opcode = jdiffMod then
          pure (.ok { ctx with modifiedBytes := ctx.modifiedBytes + written })
        else
          pure (.ok { ctx with insertedBytes := ctx.insertedBytes + written })
  else pure (.error .badOpcode)

/-- One round of the main loop. -/
def applyStep (ctx : Context) : Prog Machine (Except Status Context) := do
  match ← readOpcode stream ctx with
  | .error status => pure (.error status)
  | .ok (opcode, ctx) => do
      match ← applyOperation stream opcode ctx with
      | .error status => pure (.error status)
      | .ok ctx => pure (.ok { ctx with operationCount := ctx.operationCount + 1 })

/-- `JanpatchPort_ApplyStream`: the final cursors and statistics. -/
def applyStream : Prog Machine (Except Status Context) :=
  if stream.baseImageSize = 0 ∨ stream.patchSize = 0 ∨ stream.targetImageSize = 0 then
    pure (.error .invalidArgument)
  else
    Prog.loopThen (fun ctx : Context => ctx.patchPosition < stream.patchSize)
      (fun ctx => do
        match ← applyStep stream ctx with
        | .error status => pure (.error (.error status))
        | .ok ctx => pure (.ok ctx))
      stream.patchSize Context.start
      (fun ctx =>
        if ctx.targetPosition ≠ stream.targetImageSize then pure (.error .targetSizeMismatch)
        else pure (.ok ctx))

/-! ## What the patcher may touch -/

section Frames

variable {stream} {R : Device → Device → Prop} [IsPreorder Device R]

/-- The relation allows changes of the reconstructed partition. -/
abbrev AllowsReconstructed (R : Device → Device → Prop) : Prop :=
  Allows R ExternalPartition.reconstructed.address
    (ExternalPartition.reconstructed.address + ExternalPartition.reconstructed.size)

/-- The relation allows changes of the target in the reconstructed partition. -/
abbrev AllowsTarget (stream : Stream) (R : Device → Device → Prop) : Prop :=
  Allows R ExternalPartition.reconstructed.address
    (ExternalPartition.reconstructed.address +
      min stream.targetImageSize ExternalPartition.reconstructed.size)

omit [IsPreorder Device R] in
theorem AllowsReconstructed.target (h : AllowsReconstructed R) : AllowsTarget stream R :=
  Allows.mono h le_rfl (Nat.add_le_add_left (Nat.min_le_right _ _) _)

theorem patchByteAt_keeps (position : Nat) : Keeps R (patchByteAt stream position) := by
  refine Keeps.bind (storageRead_keeps _ _ _) fun r => ?_
  cases r <;> exact Keeps.pure _

theorem patchReadByte_keeps (position : Nat) : Keeps R (patchReadByte stream position) :=
  Keeps.ite (Keeps.pure _) (patchByteAt_keeps _)

theorem patchPeekByte_keeps (position ahead : Nat) :
    Keeps R (patchPeekByte stream position ahead) :=
  Keeps.ite (Keeps.pure _) (Keeps.ite (Keeps.pure _) (patchByteAt_keeps _))

theorem readBigEndian_keeps (width position value : Nat) :
    Keeps R (readBigEndian stream width position value) := by
  induction width generalizing position value with
  | zero => exact Keeps.pure _
  | succ width ih =>
      refine Keeps.bind (patchReadByte_keeps _) fun r => ?_
      cases r with
      | error status => exact Keeps.pure _
      | ok byte => exact ih _ _

theorem readLength_keeps (position : Nat) : Keeps R (readLength stream position) := by
  refine Keeps.bind (patchReadByte_keeps _) fun r => ?_
  cases r with
  | error status => exact Keeps.pure _
  | ok first =>
      refine Keeps.ite (Keeps.pure _) (Keeps.ite (Keeps.bind (patchReadByte_keeps _) fun r => ?_)
        (Keeps.ite (Keeps.bind (readBigEndian_keeps _ _ _) fun r => ?_) (Keeps.pure _)))
      · cases r <;> exact Keeps.pure _
      · cases r with
        | error status => exact Keeps.pure _
        | ok r => exact Keeps.ite (Keeps.pure _) (Keeps.pure _)

theorem targetWrite_keeps (h : AllowsTarget stream R) (ctx : Context) (data : List UInt8) :
    Keeps R (targetWrite stream ctx data) := by
  unfold targetWrite
  split
  · exact Keeps.pure _
  · next hroom =>
      refine Keeps.ite (Keeps.pure _) (Keeps.bind (storageWrite_keeps fun hin => ?_) fun _ =>
        Keeps.ite (Keeps.pure _) (Keeps.pure _))
      exact h.mono (by omega) (by omega)

theorem copyEqual_keeps (h : AllowsTarget stream R) (ctx : Context) (length : Nat) :
    Keeps R (copyEqual stream ctx length) := by
  refine Keeps.ite (Keeps.pure _) (Keeps.loopThen (fun st _ => Keeps.bind
    (Keeps.ite (Keeps.pure _) (Keeps.read _)) fun r => ?_) (fun _ => Keeps.pure _) _ _)
  cases r with
  | error status => exact Keeps.pure _
  | ok buffer =>
      refine Keeps.bind (targetWrite_keeps h _ _) fun r => ?_
      cases r <;> exact Keeps.pure _

theorem flushLiteral_keeps (h : AllowsTarget stream R) (advanceSource : Bool) (run : Literal) :
    Keeps R (flushLiteral stream advanceSource run) := by
  refine Keeps.bind (targetWrite_keeps h _ _) fun r => ?_
  cases r with
  | error status => exact Keeps.pure _
  | ok ctx => exact Keeps.ite (Keeps.ite (Keeps.pure _) (Keeps.pure _)) (Keeps.pure _)

theorem pushLiteral_keeps (h : AllowsTarget stream R) (advanceSource : Bool) (run : Literal)
    (value : UInt8) : Keeps R (pushLiteral stream advanceSource run value) :=
  Keeps.ite (flushLiteral_keeps h _ _) (Keeps.pure _)

theorem literalStep_keeps (h : AllowsTarget stream R) (advanceSource : Bool) (run : Literal) :
    Keeps R (literalStep stream advanceSource run) := by
  refine Keeps.bind (patchPeekByte_keeps _ _) fun r => ?_
  cases r with
  | error status => exact Keeps.pure _
  | ok value =>
      refine Keeps.ite (Keeps.bind (patchReadByte_keeps _) fun r => ?_) (Keeps.ite (Keeps.pure _)
        (Keeps.bind (patchPeekByte_keeps _ _) fun r => ?_))
      · cases r with
        | error status => exact Keeps.pure _
        | ok value => exact pushLiteral_keeps h _ _ _
      · cases r with
        | error status => exact Keeps.pure _
        | ok next =>
            refine Keeps.ite (pushLiteral_keeps h _ _ _) (Keeps.ite (Keeps.pure _)
              (Keeps.bind (pushLiteral_keeps h _ _ _) fun r => ?_))
            cases r with
            | error status => exact Keeps.pure _
            | ok run => exact pushLiteral_keeps h _ _ _

theorem consumeLiteral_keeps (h : AllowsTarget stream R) (ctx : Context) (advanceSource : Bool) :
    Keeps R (consumeLiteral stream ctx advanceSource) := by
  refine Keeps.loopThen (fun run _ => Keeps.bind (literalStep_keeps h _ _) fun r => ?_)
    (fun run => Keeps.ite (Keeps.bind (flushLiteral_keeps h _ _) fun r => ?_) (Keeps.pure _)) _ _
  · cases r <;> exact Keeps.pure _
  · cases r <;> exact Keeps.pure _

theorem applyOperation_keeps (h : AllowsTarget stream R) (opcode : UInt8) (ctx : Context) :
    Keeps R (applyOperation stream opcode ctx) := by
  refine Keeps.ite (Keeps.bind (readLength_keeps _) fun r => ?_)
    (Keeps.ite (Keeps.bind (consumeLiteral_keeps h _ _) fun r => ?_) (Keeps.pure _))
  · cases r with
    | error status => exact Keeps.pure _
    | ok r =>
        exact Keeps.ite (copyEqual_keeps h _ _) (Keeps.ite (Keeps.ite (Keeps.pure _) (Keeps.pure _))
          (Keeps.ite (Keeps.pure _) (Keeps.pure _)))
  · cases r with
    | error status => exact Keeps.pure _
    | ok r => exact Keeps.ite (Keeps.pure _) (Keeps.pure _)

/-- The patcher writes only the target, in the reconstructed partition. -/
theorem applyStream_keeps (h : AllowsTarget stream R) : Keeps R (applyStream stream) := by
  refine Keeps.ite (Keeps.pure _) (Keeps.loopThen (fun ctx _ => Keeps.bind (Keeps.bind
    (Keeps.bind (patchPeekByte_keeps _ _) fun r => ?_) fun r => ?_) fun r => ?_)
    (fun _ => Keeps.ite (Keeps.pure _) (Keeps.pure _)) _ _)
  · cases r with
    | error status => exact Keeps.pure _
    | ok first =>
        refine Keeps.ite (Keeps.pure _) (Keeps.ite (Keeps.pure _)
          (Keeps.bind (patchPeekByte_keeps _ _) fun r => ?_))
        cases r with
        | error status => exact Keeps.pure _
        | ok next => exact Keeps.ite (Keeps.pure _) (Keeps.pure _)
  · cases r with
    | error status => exact Keeps.pure _
    | ok r =>
        refine Keeps.bind (applyOperation_keeps h _ _) fun r => ?_
        cases r <;> exact Keeps.pure _
  · cases r <;> exact Keeps.pure _

end Frames

end JanpatchPort

end SecureDeltaOta
