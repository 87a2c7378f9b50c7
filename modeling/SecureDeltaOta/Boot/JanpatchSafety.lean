import SecureDeltaOta.Boot.JanpatchAccesses

/-!
# The patcher is safe on hostile streams

Whatever the patch, the contents of the flash and its failures are, the patcher
in machine words runs in step with the one over the natural numbers, and what it
records does no harm. Every operation takes at least one byte of the patch, so
the patcher comes to an end.
-/

namespace SecureDeltaOta

open Memory Crash

namespace JanpatchPort.Words

open JojoDiff (jdiffEsc jdiffMod jdiffIns jdiffDel jdiffEql jdiffBkt isOpcode)
open Coded (note observe whileLoop Steps)

variable {stream : Stream} {f : Nat → UInt8} {n m : Nat} {u : Machine} {s : Traced Machine Access}

/-! ## Literal runs -/

/-- Literal data stand at this place of the patch, not an operation or an escape at its end. -/
def LiteralAt (stream : Stream) (f : Nat → UInt8) (position : Nat) : Prop :=
  position < stream.patchSize.toNat ∧
    (f (stream.patchOffset.toNat + position) ≠ jdiffEsc ∨
      position + 1 < stream.patchSize.toNat ∧
        isOpcode (f (stream.patchOffset.toNat + (position + 1))) = false)

section Literals

variable {w : Literal} {run : JanpatchPort.Literal} (hstream : stream.Bounded)

include hstream

/-- The patch cursor of a literal run moves on by a few bytes. -/
theorem advance_steps {α β : Type} {R : α → β → Traced Machine Access → Prop} {k : Literal → Code α}
    {q : Result Machine (Except Status β)} {count : UInt32} (h : LiteralStands stream f m w run s)
    (hin : w.ctx.patchPosition.toNat + count.toNat ≤ stream.patchSize.toNat)
    (hk : ∀ t w', t.state = s.state → LiteralStands stream f m w' (run.advance count.toNat) t →
      w'.ctx.patchPosition.toNat = w.ctx.patchPosition.toNat + count.toNat → w'.used = w.used →
      w'.finished = w.finished → Steps (Sound stream) ((k w').run t) q R) :
    Steps (Sound stream) ((w.advance count >>= k).run s) q R := by
  have hbound := hstream.patch
  have hsum : w.ctx.patchPosition.toNat + count.toNat < 2 ^ 32 := by omega
  have hmoved := toNat_add hsum
  refine hk (s.note (.add w.ctx.patchPosition count))
    { w with ctx := { w.ctx with patchPosition := w.ctx.patchPosition + count } } rfl ?_ hmoved rfl
    rfl
  exact
    { ctx := by simp only [Context.toNat, JanpatchPort.Literal.advance, h.ctx, hmoved]
      buffer := h.buffer
      size := h.size
      total := h.total
      finished := h.finished
      within := h.within.advance (by omega) (by omega)
      counted := h.counted
      tracked := h.tracked.note (.add _ _) hsum rfl }

theorem literalStep_steps (hused : w.used.toNat < 128) (h : LiteralStands stream f m w run s)
    (hin : w.ctx.patchPosition.toNat < stream.patchSize.toNat) (advance : Bool) :
    Steps (Sound stream) ((literalStep stream advance w).run s)
      (JanpatchPort.literalStep stream.toNat advance run s.state)
      (fun w' run' t => LiteralStands stream f m w' run' t ∧ w'.used.toNat < 128 ∧
        w.ctx.patchPosition.toNat ≤ w'.ctx.patchPosition.toNat ∧
        (LiteralAt stream f w.ctx.patchPosition.toNat →
          w.ctx.patchPosition.toNat < w'.ctx.patchPosition.toNat) ∧
        (w'.finished = false → w.ctx.patchPosition.toNat < w'.ctx.patchPosition.toNat)) := by
  have hbound := hstream.patch
  have hpatch := h.within.patch
  have hposition : run.ctx.patchPosition = w.ctx.patchPosition.toNat := by rw [h.ctx]; rfl
  unfold literalStep JanpatchPort.literalStep
  have hpeek := patchPeekByte_steps hstream hpatch h.tracked 0
    (by rw [UInt32.toNat_zero]; omega)
  rw [← h.ctx] at hpeek
  refine Steps.bind hpeek ?_ (fun _ => rfl)
  rintro value _ t ⟨rfl, hvalue, ht⟩
  rw [UInt32.toNat_zero, Nat.add_zero] at hvalue
  dsimp only
  refine Steps.ite Iff.rfl (fun _ _ => ?_) (fun hesc _ => ?_)
  · -- plain data
    have hread := patchReadByte_steps hstream (c := w.ctx) ht
    rw [← h.ctx] at hread
    refine Steps.bind hread ?_ (fun _ => rfl)
    rintro ⟨value, c'⟩ _ t ⟨rfl, ⟨p, rfl, hp, hple⟩, ht⟩
    have hmoved : LiteralStands stream f m { w with ctx := { w.ctx with patchPosition := p } }
        (run.advance 1) t :=
      { ctx := by simp only [Context.toNat, JanpatchPort.Literal.advance, h.ctx, hp]
        buffer := h.buffer
        size := h.size
        total := h.total
        finished := h.finished
        within := h.within.advance (by omega) hple
        counted := h.counted
        tracked := ht }
    refine (pushLiteral_steps hstream hmoved hused advance value).mono ?_
    rintro w' run' t ⟨hstands, hused', hcursor, -⟩
    have hless : w.ctx.patchPosition.toNat < w'.ctx.patchPosition.toNat := by
      rw [hcursor]
      dsimp only
      omega
    exact ⟨hstands, hused', hless.le, fun _ => hless, fun _ => hless⟩
  · have hnext : w.ctx.patchPosition.toNat + (1 : UInt32).toNat < 2 ^ 32 := by
      rw [UInt32.toNat_one]
      omega
    have hbehind := toNat_add hnext
    rw [UInt32.toNat_one] at hbehind
    refine steps_add ht hnext fun t' ht' => ?_
    have hthere' : LiteralStands stream f m w run t' :=
      { h with tracked := by rw [ht'.state]; exact ht' }
    rw [← ht'.state]
    refine Steps.ite ?_ (fun hend _ => ?_) (fun hmore _ => ?_)
    · rw [ge_iff_le, UInt32.le_iff_toNat_le, hbehind, hposition]
      rfl
    · -- an escape at the end of the stream
      rw [ge_iff_le, UInt32.le_iff_toNat_le, hbehind] at hend
      refine advance_steps hstream hthere' (by rw [UInt32.toNat_one]; omega) ?_
      intro t'' w' hstate hstands hcursor hused' _
      rw [UInt32.toNat_one] at hcursor
      rw [← hstate]
      have hless : w.ctx.patchPosition.toNat < w'.ctx.patchPosition.toNat := by omega
      refine Steps.pure ⟨{ hstands with finished := rfl }, ?_, hless.le, fun _ => hless,
        fun hopen => by cases hopen⟩
      exact hused' ▸ hused
    · rw [ge_iff_le, UInt32.le_iff_toNat_le, hbehind, Nat.not_le] at hmore
      have hpeek' := patchPeekByte_steps hstream hpatch hthere'.tracked 1
        (by rw [UInt32.toNat_one]; exact hmore)
      rw [← h.ctx] at hpeek'
      refine Steps.bind hpeek' ?_ (fun _ => rfl)
      rintro next _ v ⟨rfl, hnextValue, hv⟩
      rw [UInt32.toNat_one] at hnextValue
      have hstay : LiteralStands stream f m w run v := { h with tracked := hv }
      have htwo : w.ctx.patchPosition.toNat + (2 : UInt32).toNat ≤ stream.patchSize.toNat := by
        change w.ctx.patchPosition.toNat + 2 ≤ _
        omega
      dsimp only
      refine Steps.ite Iff.rfl (fun _ _ => ?_) (fun _ _ => ?_)
      · refine advance_steps hstream hstay htwo ?_
        intro v' w' hstate hstands hcursor hused' _
        rw [← hstate]
        refine (pushLiteral_steps hstream hstands (hused' ▸ hused) advance jdiffEsc).mono ?_
        rintro w'' run' t ⟨hstands', hused'', hcursor', -⟩
        have hless : w.ctx.patchPosition.toNat < w''.ctx.patchPosition.toNat := by
          rw [hcursor', hcursor]
          exact Nat.lt_add_of_pos_right (by decide)
        exact ⟨hstands', hused'', hless.le, fun _ => hless, fun _ => hless⟩
      refine Steps.ite Iff.rfl (fun hopcode _ => ?_) (fun _ _ => ?_)
      · -- the next operation ends the run
        refine Steps.pure ⟨{ hstay with finished := rfl }, hused, le_rfl, ?_,
          fun hopen => by cases hopen⟩
        rintro ⟨-, hplain | ⟨-, hother⟩⟩
        · exact absurd (hvalue ▸ not_not.1 hesc) hplain
        · rw [← hnextValue, hopcode] at hother
          cases hother
      · -- an unknown pair is data
        refine advance_steps hstream hstay htwo ?_
        intro v' w' hstate hstands hcursor hused' _
        rw [← hstate]
        refine Steps.bind (pushLiteral_steps hstream hstands (hused' ▸ hused) advance jdiffEsc) ?_
          (fun _ => rfl)
        rintro w'' run' t ⟨hstands', hused'', hcursor', -⟩
        refine (pushLiteral_steps hstream hstands' hused'' advance next).mono ?_
        rintro w₃ run₃ t ⟨hstands₃, hused₃, hcursor₃, -⟩
        have hless : w.ctx.patchPosition.toNat < w₃.ctx.patchPosition.toNat := by
          rw [hcursor₃, hcursor', hcursor]
          exact Nat.lt_add_of_pos_right (by decide)
        exact ⟨hstands₃, hused₃, hless.le, fun _ => hless, fun _ => hless⟩

/-- How far the patch cursor of a literal run that began at `start` has come. -/
structure Come (stream : Stream) (f : Nat → UInt8) (start : Nat) (w : Literal) : Prop where
  start_le : start ≤ w.ctx.patchPosition.toNat
  moved : LiteralAt stream f start → w.finished = false ∧ w.ctx.patchPosition.toNat = start ∨
    start < w.ctx.patchPosition.toNat

theorem consumeLiteral_steps {c : Context} (hw : Within stream m c)
    (h : Tracked stream f c.targetPosition.toNat u s) (advance : Bool) :
    Steps (Sound stream) ((consumeLiteral stream c advance).run s)
      (JanpatchPort.consumeLiteral stream.toNat c.toNat advance u)
      (fun a b t => Stands stream f m a.1 b.1 t ∧ b.2 = a.2.toNat ∧
        a.1.equalBytes.toNat + a.1.modifiedBytes.toNat + a.1.insertedBytes.toNat + a.2.toNat ≤
          a.1.targetPosition.toNat ∧
        c.patchPosition.toNat ≤ a.1.patchPosition.toNat ∧
        (LiteralAt stream f c.patchPosition.toNat →
          c.patchPosition.toNat < a.1.patchPosition.toNat)) := by
  unfold consumeLiteral JanpatchPort.consumeLiteral
  refine Steps.loopThen
    (I := fun w run t => LiteralStands stream f m w run t ∧ w.used.toNat < 128 ∧
      Come stream f c.patchPosition.toNat w)
    (fun run => if run.finished then 0 else stream.patchSize.toNat - run.ctx.patchPosition)
    ?_ ?_ ?_ ?_ h.state (Nat.sub_le _ _) (Nat.sub_le _ _) ⟨?_, Nat.zero_lt_succ _, ?_⟩
  · rintro w run t ⟨hstands, -⟩
    rw [hstands.ctx, hstands.finished]
    simp only [UInt32.lt_iff_toNat_lt]
    rfl
  · rintro w run t hgo -
    simp only [Bool.and_eq_true, Bool.not_eq_true', decide_eq_true_eq] at hgo
    rw [hgo.1, if_neg Bool.false_ne_true]
    exact Nat.sub_pos_of_lt hgo.2
  · rintro w run t hgo ⟨hstands, hused, hcome⟩
    have hposition : run.ctx.patchPosition = w.ctx.patchPosition.toNat := by
      rw [hstands.ctx]
      rfl
    simp only [Bool.and_eq_true, Bool.not_eq_true', decide_eq_true_eq] at hgo
    obtain ⟨hrunning, hin⟩ := hgo
    rw [hposition] at hin
    change _ < stream.patchSize.toNat at hin
    refine ⟨JanpatchPort.literalStep stream.toNat advance run, ?_, ?_⟩
    · exact congrArg (JanpatchPort.literalStep stream.toNat advance run >>= ·)
        (funext fun r => by cases r <;> rfl)
    · refine (literalStep_steps hstream hused hstands hin advance).mono ?_
      rintro w' run' t ⟨hstands', hused', hle, hliteral, hmoved⟩
      have hstart := hcome.start_le
      have hposition' : run'.ctx.patchPosition = w'.ctx.patchPosition.toNat := by
        rw [hstands'.ctx]
        rfl
      refine ⟨⟨hstands', hused', hstart.trans hle, fun hat => .inr ?_⟩, ?_⟩
      · rcases hcome.moved hat with ⟨-, heq⟩ | hless
        · have := hliteral (heq ▸ hat)
          omega
        · omega
      · rw [hrunning, if_neg Bool.false_ne_true, hstands'.finished, hposition, hposition']
        cases hfinished : w'.finished with
        | true =>
            rw [if_pos rfl]
            omega
        | false =>
            have := hmoved hfinished
            rw [if_neg Bool.false_ne_true]
            omega
  · rintro w run t hstop ⟨hstands, hused, hcome⟩
    have hlength := hstands.buffer_length hused.le
    have hposition : run.ctx.patchPosition = w.ctx.patchPosition.toNat := by
      rw [hstands.ctx]
      rfl
    -- a run that has not moved would go on
    have hmoved : LiteralAt stream f c.patchPosition.toNat →
        c.patchPosition.toNat < w.ctx.patchPosition.toNat := by
      intro hat
      rcases hcome.moved hat with ⟨hrunning, heq⟩ | hless
      · have hin := hat.1
        rw [hstands.finished, hrunning, hposition, heq] at hstop
        simp only [Bool.not_false, Bool.true_and, decide_eq_false_iff_not] at hstop
        exact absurd hin hstop
      · exact hless
    refine Steps.ite ?_ (fun _ _ => ?_) (fun _ _ => ?_)
    · rw [hlength, Ne, Ne, ← UInt32.toNat_inj]
      exact Iff.rfl
    · refine Steps.bind (flushLiteral_steps hstream hstands hused.le advance) ?_ (fun _ => rfl)
      rintro w' run' t ⟨hstands', -, hcursor, -⟩
      refine Steps.pure ⟨⟨hstands'.ctx, hstands'.within, hstands'.tracked⟩, hstands'.total,
        hstands'.counted, ?_, ?_⟩
      · dsimp only
        rw [hcursor]
        exact hcome.start_le
      · dsimp only
        rw [hcursor]
        exact hmoved
    · exact Steps.pure ⟨⟨hstands.ctx, hstands.within, hstands.tracked⟩, hstands.total,
        hstands.counted, hcome.start_le, hmoved⟩
  · have hwritten := hw.written
    exact
      { ctx := rfl
        buffer := rfl
        size := rfl
        total := rfl
        finished := rfl
        within := hw
        counted := by simpa [Literal.start] using hwritten
        tracked := by rw [h.state]; exact h }
  · exact ⟨le_rfl, fun _ => .inl ⟨rfl, rfl⟩⟩

end Literals

/-! ## Operations -/

section Operations

variable {c : Context} (hstream : stream.Bounded)

include hstream

theorem readOpcode_steps (hw : Within stream m c)
    (hin : c.patchPosition.toNat < stream.patchSize.toNat) (h : Tracked stream f n u s) :
    Steps (Sound stream) ((readOpcode stream c).run s)
      (JanpatchPort.readOpcode stream.toNat c.toNat u)
      (fun a b t => b = (a.1, a.2.toNat) ∧ Tracked stream f n t.state t ∧
        (a.1 = jdiffMod ∧ a.2 = c ∧ LiteralAt stream f c.patchPosition.toNat ∨
          Moved stream c a.2 (c.patchPosition.toNat + 2))) := by
  have hbound := hstream.patch
  unfold readOpcode JanpatchPort.readOpcode
  refine Steps.bind (patchPeekByte_steps hstream hw.patch h 0 hin) ?_ (fun _ => rfl)
  rintro first _ t ⟨rfl, hfirst, ht⟩
  dsimp only
  refine Steps.ite Iff.rfl (fun hplain _ => ?_) (fun _ _ => ?_)
  · exact Steps.pure ⟨rfl, ht, .inl ⟨rfl, rfl, hin, .inl (hfirst ▸ hplain)⟩⟩
  · have hnext : c.patchPosition.toNat + (1 : UInt32).toNat < 2 ^ 32 := by
      rw [UInt32.toNat_one]
      omega
    have hbehind := toNat_add hnext
    rw [UInt32.toNat_one] at hbehind
    refine steps_add ht hnext fun t' ht' => ?_
    refine Steps.ite ?_ (fun _ _ => steps_throw ht') (fun hmore _ => ?_)
    · rw [ge_iff_le, UInt32.le_iff_toNat_le, hbehind]
      rfl
    rw [ge_iff_le, UInt32.le_iff_toNat_le, hbehind, Nat.not_le] at hmore
    refine Steps.bind (patchPeekByte_steps hstream hw.patch ht' 1 hmore) ?_
      (fun _ => rfl)
    rintro next _ v ⟨rfl, hnextValue, hv⟩
    dsimp only
    refine Steps.ite Iff.rfl (fun _ _ => ?_) (fun hother _ => ?_)
    · have htwo : c.patchPosition.toNat + (2 : UInt32).toNat < 2 ^ 32 := by
        change c.patchPosition.toNat + 2 < _
        omega
      have hmoved : (c.patchPosition + 2).toNat = c.patchPosition.toNat + 2 := toNat_add htwo
      refine steps_add hv htwo fun v hv => steps_pure hv fun hv =>
        ⟨?_, hv, .inr ⟨_, rfl, hmoved, by omega⟩⟩
      simp only [Context.toNat, hmoved]
    · exact Steps.pure ⟨rfl, hv, .inl ⟨rfl, rfl, hin, .inr ⟨hmore,
        hnextValue ▸ (Bool.not_eq_true _).mp hother⟩⟩⟩

/-- The statistics leave room for another operation with a length. -/
structure Slack (c : Context) : Prop where
  deleted : 2 * c.deletedBytes.toNat + 2 * 38912 ≤ 38912 * c.patchPosition.toNat
  backward : 2 * c.backwardBytes.toNat + 2 * 38912 ≤ 38912 * c.patchPosition.toNat

theorem applyOperation_steps {opcode : UInt8} (hw : Within stream m c)
    (hslack : opcode = jdiffEql ∨ opcode = jdiffDel ∨ opcode = jdiffBkt → Slack c)
    (h : Tracked stream f c.targetPosition.toNat u s) :
    Steps (Sound stream) ((applyOperation stream opcode c).run s)
      (JanpatchPort.applyOperation stream.toNat opcode c.toNat u)
      (fun c' ctx t => Stands stream f m c' ctx t ∧
        c.patchPosition.toNat ≤ c'.patchPosition.toNat ∧
        (LiteralAt stream f c.patchPosition.toNat →
          c.patchPosition.toNat < c'.patchPosition.toNat)) := by
  have hbase := hstream.base
  have hbound := hstream.patch
  have htarget := hstream.target
  unfold applyOperation JanpatchPort.applyOperation
  refine Steps.ite Iff.rfl (fun hlengthOp _ => ?_) (fun _ _ => ?_)
  · have hroom := hslack hlengthOp
    refine Steps.bind (readLength_steps hstream h) ?_ (fun _ => rfl)
    rintro ⟨length, c'⟩ ⟨length', position⟩ t ⟨hlength, hless, ⟨p, rfl, hp, hple⟩, ht⟩
    dsimp only at hlength hless hp
    subst hlength hp
    have hmoved : Within stream m { c with patchPosition := p } := hw.advance hless.le hple
    dsimp only
    refine Steps.ite Iff.rfl (fun _ _ => ?_) (fun _ _ => ?_)
    · refine (copyEqual_steps hstream hmoved ht).mono ?_
      rintro c' ctx t ⟨hstands, hcursor⟩
      rw [hcursor]
      exact ⟨hstands, hless.le, fun _ => hless⟩
    refine Steps.ite Iff.rfl (fun _ _ => ?_) (fun _ _ => ?_)
    · -- delete
      refine requireSource_steps (c := { c with patchPosition := p }) hmoved.source ht
        fun t ht hfits => ?_
      refine advanceSource_steps hstream hfits ht fun t p' hp' ht => ?_
      dsimp only at hfits hp'
      have hdeleted := hroom.deleted
      have hsum : c.deletedBytes.toNat + length.toNat < 2 ^ 32 := by
        have := hw.patch
        omega
      have hcount := toNat_add hsum
      refine steps_add ht hsum fun t ht => steps_pure ht fun ht =>
        ⟨⟨?_, ?_, ht⟩, hless.le, fun _ => hless⟩
      · simp only [Context.toNat, hp', hcount]
      · exact
          { source := by dsimp only; omega
            patch := hple
            target := hw.target
            written := hw.written
            deleted := by dsimp only; omega
            backward := hmoved.backward
            count := hmoved.count }
    refine Steps.ite ?_ (fun _ _ => steps_throw ht) (fun hin _ => ?_)
    · rw [gt_iff_lt, UInt32.lt_iff_toNat_lt]
      rfl
    · -- step back
      rw [gt_iff_lt, UInt32.lt_iff_toNat_lt, Nat.not_lt] at hin
      have hsource := hw.source
      have hback := toNat_sub hin
      have hbackward := hroom.backward
      have hsum : c.backwardBytes.toNat + length.toNat < 2 ^ 32 := by
        have := hw.patch
        omega
      have hcount := toNat_add hsum
      have hseek : (Access.seek (c.sourcePosition - length)).Safe stream := by
        change (c.sourcePosition - length).toNat ≤ _
        omega
      refine steps_sub ht hin fun t ht => steps_note ht hseek rfl fun t ht =>
        steps_add ht hsum fun t ht => steps_pure ht fun ht =>
          ⟨⟨?_, ?_, ht⟩, hless.le, fun _ => hless⟩
      · simp only [Context.toNat, hback, hcount]
      · exact
          { source := by dsimp only; omega
            patch := hple
            target := hw.target
            written := hw.written
            deleted := hmoved.deleted
            backward := by dsimp only; omega
            count := hmoved.count }
  · refine Steps.ite Iff.rfl (fun _ _ => ?_) (fun _ _ => steps_throw h)
    refine Steps.bind (consumeLiteral_steps hstream hw h _) ?_ (fun _ => rfl)
    rintro ⟨c', written⟩ ⟨ctx, written'⟩ t ⟨⟨rfl, hw', ht⟩, rfl, hcounted, hle, hmoved⟩
    have htarget' := hw'.target
    dsimp only at hcounted hle hmoved htarget' ⊢
    refine Steps.ite Iff.rfl (fun _ _ => ?_) (fun _ _ => ?_)
    · have hsum : c'.modifiedBytes.toNat + written.toNat < 2 ^ 32 := by omega
      have hcount := toNat_add hsum
      refine steps_add ht hsum fun t ht => steps_pure ht fun ht => ⟨⟨?_, ?_, ht⟩, hle, hmoved⟩
      · simp only [Context.toNat, hcount]
      · exact { hw' with written := by dsimp only; omega }
    · have hsum : c'.insertedBytes.toNat + written.toNat < 2 ^ 32 := by omega
      have hcount := toNat_add hsum
      refine steps_add ht hsum fun t ht => steps_pure ht fun ht => ⟨⟨?_, ?_, ht⟩, hle, hmoved⟩
      · simp only [Context.toNat, hcount]
      · exact { hw' with written := by dsimp only; omega }

theorem applyStep_steps (hw : Within stream c.patchPosition.toNat c)
    (hin : c.patchPosition.toNat < stream.patchSize.toNat)
    (h : Tracked stream f c.targetPosition.toNat u s) :
    Steps (Sound stream) ((applyStep stream c).run s)
      (JanpatchPort.applyStep stream.toNat c.toNat u)
      (fun c' ctx t => Stands stream f c'.patchPosition.toNat c' ctx t ∧
        c.patchPosition.toNat < c'.patchPosition.toNat) := by
  have hbound := hstream.patch
  unfold applyStep JanpatchPort.applyStep
  refine Steps.bind (readOpcode_steps hstream hw hin h) ?_ (fun _ => rfl)
  rintro ⟨opcode, c'⟩ _ t ⟨rfl, ht, hcases⟩
  -- the operation takes bytes of the patch, or its opcode did
  have happly : Steps (Sound stream) ((applyOperation stream opcode c').run t)
      (JanpatchPort.applyOperation stream.toNat opcode c'.toNat t.state)
      (fun c'' ctx t => Stands stream f c.patchPosition.toNat c'' ctx t ∧
        c.patchPosition.toNat < c''.patchPosition.toNat) := by
    rcases hcases with ⟨rfl, rfl, hliteral⟩ | ⟨p, rfl, hp, hple⟩
    · refine (applyOperation_steps hstream hw (fun hop => absurd hop (by decide)) ht).mono ?_
      rintro c'' ctx t ⟨hstands, -, hmoved⟩
      exact ⟨hstands, hmoved hliteral⟩
    · have hdeleted := hw.deleted
      have hbackward := hw.backward
      have hslack : Slack { c with patchPosition := p } :=
        ⟨by dsimp only; omega, by dsimp only; omega⟩
      refine (applyOperation_steps hstream (hw.advance (by omega) hple) (fun _ => hslack) ht).mono ?_
      rintro c'' ctx t ⟨hstands, hle, -⟩
      dsimp only at hle
      exact ⟨hstands, by omega⟩
  refine Steps.bind happly ?_ (fun _ => rfl)
  rintro c'' _ t ⟨⟨rfl, hw', ht⟩, hless⟩
  have hpatch := hw'.patch
  have hcount := hw'.count
  have hsum : c''.operationCount.toNat + (1 : UInt32).toNat < 2 ^ 32 := by
    rw [UInt32.toNat_one]
    omega
  have hnext := toNat_add hsum
  rw [UInt32.toNat_one] at hnext
  refine steps_add ht hsum fun t ht => steps_pure ht fun ht => ⟨⟨?_, ?_, ht⟩, hless⟩
  · simp only [Context.toNat, hnext]
  · exact { hw' with count := by dsimp only; omega }

end Operations

/-! ## The stream -/

/-- The whole patch, from a record without accesses. -/
theorem applyStream_steps (hstream : stream.Bounded) (u : Machine) :
    Steps (Sound stream) ((applyStream stream).run ⟨u, []⟩)
      (JanpatchPort.applyStream stream.toNat u)
      (fun c ctx t => Stands stream (u.device.part .incoming) c.patchPosition.toNat c ctx t ∧
        c.patchPosition = stream.patchSize ∧ c.targetPosition = stream.targetImageSize) := by
  have hstart : Tracked stream (u.device.part .incoming) 0 u ⟨u, []⟩ :=
    { state := rfl
      sound := ⟨nofun, trivial⟩
      covers := rfl
      incoming := fun _ _ => rfl }
  unfold applyStream JanpatchPort.applyStream
  refine Steps.ite ?_ (fun _ _ => steps_throw hstart) (fun _ _ => ?_)
  · simp only [← UInt32.toNat_inj]
    rfl
  refine Steps.loopThen
    (I := fun c ctx t => Stands stream (u.device.part .incoming) c.patchPosition.toNat c ctx t)
    (fun ctx => stream.patchSize.toNat - ctx.patchPosition) ?_ ?_ ?_ ?_ rfl (Nat.sub_le _ _)
    (Nat.sub_le _ _) ?_
  · rintro c ctx t ⟨rfl, -, -⟩
    simp only [UInt32.lt_iff_toNat_lt]
    rfl
  · intro c ctx t hgo _
    simp only [decide_eq_true_eq] at hgo
    exact Nat.sub_pos_of_lt hgo
  · rintro c ctx t hgo ⟨rfl, hw, ht⟩
    simp only [decide_eq_true_eq] at hgo
    refine ⟨JanpatchPort.applyStep stream.toNat c.toNat, ?_, ?_⟩
    · exact congrArg (JanpatchPort.applyStep stream.toNat c.toNat >>= ·)
        (funext fun r => by cases r <;> rfl)
    · refine (applyStep_steps hstream hw hgo ht).mono ?_
      rintro c' ctx t ⟨hstands, hless⟩
      have hpatch := hstands.within.patch
      refine ⟨hstands, ?_⟩
      rw [hstands.same]
      change stream.patchSize.toNat - c'.patchPosition.toNat <
        stream.patchSize.toNat - c.patchPosition.toNat
      omega
  · rintro c ctx t hstop ⟨rfl, hw, ht⟩
    simp only [decide_eq_false_iff_not] at hstop
    have hpatch := hw.patch
    refine Steps.ite ?_ (fun _ _ => steps_throw ht) (fun hfull _ => ?_)
    · rw [Ne, Ne, ← UInt32.toNat_inj]
      exact Iff.rfl
    · refine Steps.pure ⟨⟨rfl, hw, ht⟩, UInt32.toNat_inj.1 ?_, not_not.1 hfull⟩
      exact Nat.le_antisymm hpatch (Nat.not_lt.1 hstop)
  · exact
      { same := rfl
        within := ⟨Nat.zero_le _, Nat.zero_le _, Nat.zero_le _, Nat.zero_le _, Nat.zero_le _,
          Nat.zero_le _, Nat.zero_le _⟩
        tracked := hstart }

/--
On any patch, any contents of the flash and any failures of it, the patcher comes
to an end, by itself or by a cut. No sum or difference leaves 32 bits, the source
cursor and the source reads stay in the base, the literal buffer is not left, and the
writes to the target follow each other from zero below the target size. Success means that the
target is complete and the patch used up.
-/
theorem hostile_stream_safe (stream : Stream)
    (hbase : 1 ≤ stream.baseImageSize.toNat ∧ stream.baseImageSize.toNat ≤ 38912)
    (htarget : 1 ≤ stream.targetImageSize.toNat ∧ stream.targetImageSize.toNat ≤ 38912)
    (hpatch : stream.patchOffset.toNat + stream.patchSize.toNat ≤ ExternalPartition.incoming.size)
    (u : Machine) :
    ((applyStream stream).run ⟨u, []⟩).Ensures
      (fun r t => (∀ access ∈ t.trace, access.Safe stream) ∧ Consecutive 0 (writes t.trace) ∧
        ∀ result, r = .ok result → covered (writes t.trace) = stream.targetImageSize.toNat ∧
          result.targetPosition = stream.targetImageSize ∧ result.patchPosition = stream.patchSize)
      (fun t => (∀ access ∈ t.trace, access.Safe stream) ∧ Consecutive 0 (writes t.trace)) := by
  have hsteps := (applyStream_steps ⟨hbase.2, hpatch, htarget.2⟩ u).ensures
  refine Result.Ensures.mono hsteps ?_ ?_
  · rintro r t ⟨r', v, -, -, hagree⟩
    cases r with
    | ok c =>
        cases r' with
        | ok ctx =>
            obtain ⟨⟨-, -, ht⟩, hend, hfull⟩ := hagree
            refine ⟨ht.sound.safe, ht.sound.consecutive, fun result hresult => ?_⟩
            cases hresult
            exact ⟨ht.covers.trans (congrArg UInt32.toNat hfull), hfull, hend⟩
        | error status => exact hagree.elim
    | error status =>
        cases r' with
        | ok ctx => exact hagree.elim
        | error status' => exact ⟨hagree.2.safe, hagree.2.consecutive, nofun⟩
  · rintro t ⟨v, -, -, hsound⟩
    exact ⟨hsound.safe, hsound.consecutive⟩

/-- A blank flash, whose first read fails. -/
theorem hostile_stream_safe_blank :
    ((applyStream ⟨8, 140, 4, 8⟩).run ⟨⟨⟨fun _ => 0xFF, fun _ => 0xFF, []⟩, ⟨true, .ok⟩,
      [.externalFault .transferTimeout fun _ => 0], false, .bootloader⟩, []⟩).Ensures
        (fun _ t => ∀ access ∈ t.trace, access.Safe ⟨8, 140, 4, 8⟩) (fun _ => True) :=
  (hostile_stream_safe ⟨8, 140, 4, 8⟩ (by decide) (by decide) (by decide) _).mono
    (fun _ _ h => h.1) (fun _ _ => trivial)

end JanpatchPort.Words

end SecureDeltaOta
