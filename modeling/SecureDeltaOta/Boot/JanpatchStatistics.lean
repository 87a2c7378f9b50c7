import SecureDeltaOta.Boot.JanpatchPort
import SecureDeltaOta.Crash.Simulation

/-!
# The statistics of the patcher

What an operation adds to the statistics is what it moved the cursors by, whatever
the flash does: copied and literal bytes show in the target cursor, deleted and
backward bytes in the source cursor.
-/

namespace SecureDeltaOta

open Memory Crash

namespace JanpatchPort

open JojoDiff (jdiffEsc jdiffMod jdiffIns jdiffDel jdiffEql jdiffBkt isOpcode Tally Operation
  Progress)

variable {stream : Stream}

def Context.tally (ctx : Context) : Tally where
  operations := ctx.operationCount
  equal := ctx.equalBytes
  modified := ctx.modifiedBytes
  inserted := ctx.insertedBytes
  deleted := ctx.deletedBytes
  backward := ctx.backwardBytes

/-- A fact about the value, if there is one. -/
def Succeeds {α : Type} (P : α → Prop) : Except Status α → Prop
  | .ok a => P a
  | .error _ => True

/-- The value of the first program goes to the rest, its error leaves. -/
theorem returns_bind {α β : Type} {P : α → Prop} {Q : β → Prop}
    {m : Prog Machine (Except Status α)} {k : Except Status α → Prog Machine β}
    (hm : Returns m (Succeeds P)) (hok : ∀ a, P a → Returns (k (.ok a)) Q)
    (herror : ∀ status, Returns (k (.error status)) Q) : Returns (m >>= k) Q := by
  refine Returns.bind hm fun r hr => ?_
  cases r with
  | ok a => exact hok a hr
  | error status => exact herror status

theorem returns_error {α : Type} {P : α → Prop} (status : Status) :
    Returns (pure (.error status) : Prog Machine (Except Status α)) (Succeeds P) :=
  Returns.pure trivial

theorem returns_any {α : Type} (m : Prog Machine (Except Status α)) :
    Returns m (Succeeds fun _ => True) := by
  refine (Returns.trivial m).mono fun r _ => ?_
  cases r <;> exact trivial

theorem targetWrite_returns (ctx : Context) (data : List UInt8) :
    Returns (targetWrite stream ctx data) (Succeeds fun ctx' =>
      ctx' = { ctx with targetPosition := ctx.targetPosition + data.length }) := by
  refine Returns.ite (fun _ => returns_error _) fun _ => Returns.ite (fun hempty => ?_) fun _ => ?_
  · refine Returns.pure ?_
    rw [hempty]
    rfl
  · refine Returns.bind (Returns.trivial _) fun written _ => ?_
    exact Returns.ite (fun _ => returns_error _) fun _ => Returns.pure rfl

theorem readSource_returns (offset length : Nat) :
    Returns (readSource offset length) (Succeeds fun buffer => buffer.length = length) := by
  refine Returns.ite (fun _ => returns_error _) fun _ => ?_
  intro s r t hr
  cases hr
  exact window_length _ _ _

/-- The context after `count` bytes were copied. -/
def Context.copied (ctx : Context) (count : Nat) : Context :=
  { ctx with
    sourcePosition := ctx.sourcePosition + count
    targetPosition := ctx.targetPosition + count
    equalBytes := ctx.equalBytes + count }

theorem copyEqual_returns (ctx : Context) (length : Nat) :
    Returns (copyEqual stream ctx length) (Succeeds fun ctx' => ctx' = ctx.copied length) := by
  refine Returns.ite (fun _ => returns_error _) fun _ => ?_
  refine Returns.loopThen
    (I := fun st : Context × Nat => st.2 ≤ length ∧ st.1 = ctx.copied (length - st.2)) ?_ ?_ _
    ⟨le_rfl, by rw [Nat.sub_self]; rfl⟩
  · intro st _ hst
    obtain ⟨ctx', left⟩ := st
    have hle : left ≤ length := hst.1
    have hcopied : ctx' = ctx.copied (length - left) := hst.2
    subst hcopied
    refine returns_bind (readSource_returns _ _) (fun buffer hbuffer => ?_)
      (fun _ => Returns.pure trivial)
    refine returns_bind (targetWrite_returns _ _) (fun ctx' hctx => ?_)
      (fun _ => Returns.pure trivial)
    subst hctx
    refine Returns.pure ⟨(Nat.sub_le _ _).trans hle, ?_⟩
    have hcount : length - (left - min left ioBufferSize) =
        length - left + min left ioBufferSize := by omega
    simp only [Context.copied, hbuffer, hcount, Nat.add_assoc]
  · intro st hstop hst
    have hzero : st.2 = 0 := by simpa using hstop
    refine Returns.pure ?_
    have hcopied := hst.2
    rw [hzero] at hcopied
    exact hcopied

/-- The literal bytes written so far show in the target cursor, and nowhere else. -/
def LiteralCount (ctx : Context) (run : Literal) : Prop :=
  run.ctx.targetPosition = ctx.targetPosition + run.total ∧ run.ctx.tally = ctx.tally

section Literals

variable {ctx : Context} {run : Literal}

theorem flushLiteral_returns (h : LiteralCount ctx run) (advanceSource : Bool) :
    Returns (flushLiteral stream advanceSource run) (Succeeds (LiteralCount ctx)) := by
  refine returns_bind (targetWrite_returns _ _) (fun ctx' hctx => ?_) (fun _ => returns_error _)
  subst hctx
  have hflushed : run.ctx.targetPosition + run.buffer.length =
      ctx.targetPosition + (run.total + run.buffer.length) := by
    rw [h.1, Nat.add_assoc]
  refine Returns.ite (fun _ => ?_) fun _ => ?_
  · exact Returns.ite (fun _ => returns_error _) fun _ => Returns.pure ⟨hflushed, h.2⟩
  · exact Returns.pure ⟨hflushed, h.2⟩

theorem pushLiteral_returns (h : LiteralCount ctx run) (advanceSource : Bool) (value : UInt8) :
    Returns (pushLiteral stream advanceSource run value) (Succeeds (LiteralCount ctx)) := by
  unfold pushLiteral
  refine Returns.ite (fun _ => flushLiteral_returns ?_ _) fun _ => Returns.pure ?_
  · exact h
  · exact h

theorem literalStep_returns (h : LiteralCount ctx run) (advanceSource : Bool) :
    Returns (literalStep stream advanceSource run) (Succeeds (LiteralCount ctx)) := by
  refine returns_bind (returns_any _) (fun value _ => ?_) (fun _ => returns_error _)
  refine Returns.ite (fun _ => ?_) fun _ => Returns.ite (fun _ => ?_) fun _ => ?_
  · refine returns_bind (returns_any _) (fun value _ => ?_) (fun _ => returns_error _)
    exact pushLiteral_returns (show LiteralCount ctx (run.advance 1) from h) _ _
  · exact Returns.pure h
  · refine returns_bind (returns_any _) (fun next _ => ?_) (fun _ => returns_error _)
    refine Returns.ite (fun _ => ?_) fun _ => Returns.ite (fun _ => ?_) fun _ => ?_
    · exact pushLiteral_returns (show LiteralCount ctx (run.advance 2) from h) _ _
    · exact Returns.pure h
    · exact returns_bind
        (pushLiteral_returns (show LiteralCount ctx (run.advance 2) from h) _ _)
        (fun run' hrun => pushLiteral_returns hrun _ _) (fun _ => returns_error _)

theorem consumeLiteral_returns (ctx : Context) (advanceSource : Bool) :
    Returns (consumeLiteral stream ctx advanceSource) (Succeeds fun r =>
      r.1.targetPosition = ctx.targetPosition + r.2 ∧ r.1.tally = ctx.tally) := by
  refine Returns.loopThen (I := LiteralCount ctx) ?_ ?_ _ ⟨rfl, rfl⟩
  · intro run _ hrun
    exact returns_bind (literalStep_returns hrun _) (fun run' hrun' => Returns.pure hrun')
      (fun _ => Returns.pure trivial)
  · intro run _ hrun
    refine Returns.ite (fun _ => ?_) fun _ => Returns.pure hrun
    exact returns_bind (flushLiteral_returns hrun _) (fun run' hrun' => Returns.pure hrun')
      (fun _ => returns_error _)

end Literals

theorem readOpcode_returns (ctx : Context) :
    Returns (readOpcode stream ctx) (Succeeds fun r =>
      r.2 = { ctx with patchPosition := r.2.patchPosition }) := by
  refine returns_bind (returns_any _) (fun first _ => ?_) (fun _ => returns_error _)
  refine Returns.ite (fun _ => Returns.pure rfl) fun _ => ?_
  refine Returns.ite (fun _ => returns_error _) fun _ => ?_
  refine returns_bind (returns_any _) (fun next _ => ?_) (fun _ => returns_error _)
  exact Returns.ite (fun _ => Returns.pure rfl) fun _ => Returns.pure rfl

/-- The statistics after an operation that moved the cursors from `ctx` to `ctx'`. -/
def counted (opcode : UInt8) (ctx ctx' : Context) : Tally where
  operations := ctx.operationCount
  equal := ctx.equalBytes +
    if opcode = jdiffEql then ctx'.targetPosition - ctx.targetPosition else 0
  modified := ctx.modifiedBytes +
    if opcode = jdiffMod then ctx'.targetPosition - ctx.targetPosition else 0
  inserted := ctx.insertedBytes +
    if opcode = jdiffIns then ctx'.targetPosition - ctx.targetPosition else 0
  deleted := ctx.deletedBytes +
    if opcode = jdiffDel then ctx'.sourcePosition - ctx.sourcePosition else 0
  backward := ctx.backwardBytes +
    if opcode = jdiffBkt then ctx.sourcePosition - ctx'.sourcePosition else 0

theorem applyOperation_returns (opcode : UInt8) (ctx : Context) :
    Returns (applyOperation stream opcode ctx) (Succeeds fun ctx' =>
      ctx'.tally = counted opcode ctx ctx') := by
  refine Returns.ite (fun hlength => ?_) fun _ => Returns.ite (fun hliteral => ?_) fun _ =>
    returns_error _
  · refine returns_bind (returns_any _) (fun r _ => ?_) (fun _ => returns_error _)
    obtain ⟨length, position⟩ := r
    refine Returns.ite (fun heql => ?_) fun hneql => Returns.ite (fun hdel => ?_) fun hndel => ?_
    · subst heql
      refine (copyEqual_returns _ _).mono fun r hr => ?_
      cases r with
      | error status => trivial
      | ok ctx' =>
          have hctx : ctx' = Context.copied { ctx with patchPosition := position } length := hr
          subst hctx
          simp [Succeeds, Context.tally, counted, Context.copied, jdiffEql, jdiffMod, jdiffIns,
            jdiffDel, jdiffBkt]
    · subst hdel
      refine Returns.ite (fun _ => returns_error _) fun _ => Returns.pure ?_
      simp [Succeeds, Context.tally, counted, jdiffEql, jdiffMod, jdiffIns, jdiffDel, jdiffBkt]
    · have hbkt : opcode = jdiffBkt := (hlength.resolve_left hneql).resolve_left hndel
      subst hbkt
      refine Returns.ite (fun _ => returns_error _) fun hle => Returns.pure ?_
      have hmoved : ctx.sourcePosition - (ctx.sourcePosition - length) = length := by
        dsimp only at hle
        omega
      simp [Succeeds, Context.tally, counted, jdiffEql, jdiffMod, jdiffIns, jdiffDel, jdiffBkt,
        hmoved]
  · refine returns_bind (consumeLiteral_returns _ _) (fun r hr => ?_) (fun _ => returns_error _)
    obtain ⟨ctx', written⟩ := r
    obtain ⟨htarget, htally⟩ := hr
    dsimp only at htarget htally
    have hwritten : ctx'.targetPosition - ctx.targetPosition = written := by omega
    simp only [Context.tally, Tally.mk.injEq] at htally
    refine Returns.ite (fun hmod => Returns.pure ?_) fun hnmod => Returns.pure ?_
    · subst hmod
      simp [Succeeds, Context.tally, counted, jdiffEql, jdiffMod, jdiffIns, jdiffDel, jdiffBkt,
        hwritten, htally]
    · have hins : opcode = jdiffIns := hliteral.resolve_left hnmod
      subst hins
      simp [Succeeds, Context.tally, counted, jdiffEql, jdiffMod, jdiffIns, jdiffDel, jdiffBkt,
        hwritten, htally]

/-- An operation that moves the cursors as its meaning says is counted as what it is. -/
theorem counted_eq {source rest rest' : List UInt8} {limit : Nat} {opcode : UInt8}
    {operation : Operation} {st st' : Progress} {ctx ctx' : Context}
    (hdecode : JojoDiff.decodeOperation opcode rest = some (operation, rest'))
    (happly : operation.apply source limit st = some st')
    (hsource : ctx.sourcePosition = st.position)
    (htarget : ctx.targetPosition = st.output.length)
    (hsource' : ctx'.sourcePosition = st'.position)
    (htarget' : ctx'.targetPosition = st'.output.length) :
    { counted opcode ctx ctx' with operations := ctx.operationCount + 1 } =
      operation.count ctx.tally := by
  have hallowed {a b : Progress} {P : Prop} [Decidable P]
      (h : (if P then some a else none) = some b) : P ∧ a = b := by
    split_ifs at h with hP
    exact ⟨hP, Option.some.inj h⟩
  unfold JojoDiff.decodeOperation at hdecode
  split_ifs at hdecode with heql hdel hbkt hmod hins
  · obtain ⟨r, -, hr⟩ := Option.map_eq_some_iff.1 hdecode
    cases hr
    obtain ⟨hrange, rfl⟩ := hallowed happly
    have hmoved : ctx'.targetPosition - ctx.targetPosition = r.1 := by
      rw [htarget', htarget, List.length_append, List.length_take, List.length_drop]
      omega
    simp [counted, Operation.count, Context.tally, heql, hmoved, jdiffEql, jdiffMod, jdiffIns,
      jdiffDel, jdiffBkt]
  · obtain ⟨r, -, hr⟩ := Option.map_eq_some_iff.1 hdecode
    cases hr
    obtain ⟨hrange, rfl⟩ := hallowed happly
    have hmoved : ctx'.sourcePosition - ctx.sourcePosition = r.1 := by
      rw [hsource', hsource, Nat.add_sub_cancel_left]
    simp [counted, Operation.count, Context.tally, hdel, hmoved, jdiffEql, jdiffMod, jdiffIns,
      jdiffDel, jdiffBkt]
  · obtain ⟨r, -, hr⟩ := Option.map_eq_some_iff.1 hdecode
    cases hr
    obtain ⟨hrange, rfl⟩ := hallowed happly
    have hmoved : ctx.sourcePosition - ctx'.sourcePosition = r.1 := by
      rw [hsource', hsource, Nat.sub_sub_self hrange]
    simp [counted, Operation.count, Context.tally, hbkt, hmoved, jdiffEql, jdiffMod, jdiffIns,
      jdiffDel, jdiffBkt]
  · cases hdecode
    obtain ⟨hrange, rfl⟩ := hallowed happly
    have hmoved : ctx'.targetPosition - ctx.targetPosition =
        (JojoDiff.scanLiteral rest).1.length := by
      rw [htarget', htarget, List.length_append, Nat.add_sub_cancel_left]
    simp [counted, Operation.count, Context.tally, hmod, hmoved, jdiffEql, jdiffMod, jdiffIns,
      jdiffDel, jdiffBkt]
  · cases hdecode
    obtain ⟨hrange, rfl⟩ := hallowed happly
    have hmoved : ctx'.targetPosition - ctx.targetPosition =
        (JojoDiff.scanLiteral rest).1.length := by
      rw [htarget', htarget, List.length_append, Nat.add_sub_cancel_left]
    simp [counted, Operation.count, Context.tally, hins, hmoved, jdiffEql, jdiffMod, jdiffIns,
      jdiffDel, jdiffBkt]

end JanpatchPort

end SecureDeltaOta
