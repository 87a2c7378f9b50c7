import SecureDeltaOta.Boot.JanpatchPort

/-!
# Reading and writing of the patcher

The parts of the patcher below an operation: lengths are read byte by byte,
source bytes are copied in chunks and literal data go through a buffer, with the
effect the specification gives them in one step. Where the flash may fail, the
answer is that of the specification or an error.
-/

namespace SecureDeltaOta

open Memory Crash

namespace JanpatchPort

open JojoDiff (jdiffEsc jdiffMod jdiffIns jdiffDel jdiffEql jdiffBkt isOpcode Progress Operation
  drop_eq_cons)

/-- The ranges of a stream lie in the memories they refer to. -/
structure Stream.Fits (stream : Stream) : Prop where
  base : stream.baseImageSize ≤ applicationMaxSize
  patch : stream.patchOffset + stream.patchSize ≤ ExternalPartition.incoming.size
  target : stream.targetImageSize ≤ ExternalPartition.reconstructed.size

/-- The device while a patch runs that has produced `output` so far. -/
structure Working (stream : Stream) (source patch output : List UInt8) (d : Device) : Prop where
  incoming : d.slice .incoming stream.patchOffset stream.patchSize = patch
  base : window d.app 0 stream.baseImageSize = source
  fits : output.length ≤ stream.targetImageSize
  written : d.slice .reconstructed 0 output.length = output
  erased : ∀ i, output.length ≤ i → i < stream.targetImageSize → d.part .reconstructed i = 0xFF

/-- An answer of the patcher is that of the specification, unless the flash failed. -/
def Answers {α β : Type} (μ : Mode) (spec : Option β) (related : α → β → Device → Prop) :
    Except Status α → Device → Prop
  | .ok a, d => ∃ b, spec = some b ∧ related a b d
  | .error _, _ => μ.Faulty ∨ spec = none

section Refinement

variable {stream : Stream} {source patch : List UInt8} {μ : Mode} {up : Bool} {s : Machine}
  {output : List UInt8}

theorem Working.patch_length (h : Working stream source patch output s.device) :
    patch.length = stream.patchSize := by
  rw [← h.incoming]
  exact window_length _ _ _

theorem Working.source_length (h : Working stream source patch output s.device) :
    source.length = stream.baseImageSize := by
  rw [← h.base]
  exact window_length _ _ _

theorem lt_length_of_drop {l rest : List UInt8} {i : Nat} {byte : UInt8}
    (h : l.drop i = byte :: rest) : i < l.length := by
  by_contra hge
  rw [List.drop_eq_nil_of_le (by omega)] at h
  cases h

theorem patchByteAt_holds (hs : Env μ up s) (hup : μ.Usable up) (hfits : stream.Fits)
    (h : Working stream source patch output s.device) {position : Nat}
    (hposition : position < stream.patchSize) :
    Holds μ up (patchByteAt stream position s)
      (fun r d => d = s.device ∧ (r = .ok (patch.getD position 0) ∨
        (∃ status, r = .error status) ∧ μ.Faulty)) (fun _ => True) := by
  have hrange := hfits.patch
  refine Holds.bind (storageRead_holds hs hup _ _ _) ?_ (fun _ _ => trivial)
  rintro r t ht ⟨hd, ⟨rfl, -⟩ | ⟨rfl, hbad⟩⟩
  · refine Holds.pure ht ⟨hd, .inl ?_⟩
    rw [← h.incoming, Device.slice_eq_window, Device.slice_eq_window, window_getD Nat.one_pos,
      window_getD hposition, Nat.add_zero]
  · exact Holds.pure ht ⟨hd, .inr ⟨⟨_, rfl⟩, hbad.resolve_right (by omega)⟩⟩

theorem patchReadByte_holds (hs : Env μ up s) (hup : μ.Usable up) (hfits : stream.Fits)
    (h : Working stream source patch output s.device) (position : Nat) :
    Holds μ up (patchReadByte stream position s)
      (fun r d => d = s.device ∧
        ((∃ byte, r = .ok byte ∧ patch.drop position = byte :: patch.drop (position + 1)) ∨
          (∃ status, r = .error status) ∧ (μ.Faulty ∨ patch.drop position = [])))
      (fun _ => True) := by
  have hlength := h.patch_length
  unfold patchReadByte
  split
  · next hend =>
      exact Holds.pure hs ⟨rfl, .inr ⟨⟨_, rfl⟩, .inr (List.drop_eq_nil_of_le (by omega))⟩⟩
  · next hin =>
      refine (patchByteAt_holds hs hup hfits h (by omega)).mono ?_ (fun _ _ => trivial)
      rintro r d ⟨hd, rfl | ⟨herror, hfaulty⟩⟩
      · exact ⟨hd, .inl ⟨_, rfl, drop_eq_cons (by omega)⟩⟩
      · exact ⟨hd, .inr ⟨herror, .inl hfaulty⟩⟩

/-- A byte ahead of the cursor, for a position inside the patch. -/
theorem patchPeekByte_holds (hs : Env μ up s) (hup : μ.Usable up) (hfits : stream.Fits)
    (h : Working stream source patch output s.device) {position ahead : Nat}
    (hin : position + ahead < stream.patchSize) :
    Holds μ up (patchPeekByte stream position ahead s)
      (fun r d => d = s.device ∧ (r = .ok (patch.getD (position + ahead) 0) ∨
        (∃ status, r = .error status) ∧ μ.Faulty)) (fun _ => True) := by
  unfold patchPeekByte
  rw [if_neg (by omega), if_neg (by omega)]
  exact patchByteAt_holds hs hup hfits h hin

theorem readBigEndian_holds (hs : Env μ up s) (hup : μ.Usable up) (hfits : stream.Fits)
    (h : Working stream source patch output s.device) (width : Nat) {position : Nat}
    (hle : position ≤ stream.patchSize) (value : Nat) :
    Holds μ up (readBigEndian stream width position value s)
      (fun r d => d = s.device ∧
        Answers μ (JojoDiff.readBigEndian width value (patch.drop position))
          (fun a b _ => b = (a.1, patch.drop a.2) ∧ a.2 ≤ stream.patchSize) r d)
      (fun _ => True) := by
  have hlength := h.patch_length
  induction width generalizing position value s with
  | zero => exact Holds.pure hs ⟨rfl, _, rfl, rfl, hle⟩
  | succ width ih =>
      refine Holds.bind (patchReadByte_holds hs hup hfits h position) ?_ (fun _ _ => trivial)
      rintro r t ht ⟨hd, ⟨byte, rfl, hdrop⟩ | ⟨⟨status, rfl⟩, hbad⟩⟩
      · have hlt := lt_length_of_drop hdrop
        rw [hdrop, ← hd]
        exact ih ht (hd ▸ h) (by omega) _
      · refine Holds.pure ht ⟨hd, hbad.imp_right fun hnil => ?_⟩
        rw [hnil]
        rfl

theorem readLength_holds (hs : Env μ up s) (hup : μ.Usable up) (hfits : stream.Fits)
    (h : Working stream source patch output s.device) (position : Nat) :
    Holds μ up (readLength stream position s)
      (fun r d => d = s.device ∧
        Answers μ (JojoDiff.readLength (patch.drop position))
          (fun a b _ => b = (a.1, patch.drop a.2) ∧ a.2 ≤ stream.patchSize) r d)
      (fun _ => True) := by
  have hlength := h.patch_length
  refine Holds.bind (patchReadByte_holds hs hup hfits h position) ?_ (fun _ _ => trivial)
  rintro r t ht ⟨hd, ⟨first, rfl, hdrop⟩ | ⟨⟨status, rfl⟩, hbad⟩⟩
  swap
  · refine Holds.pure ht ⟨hd, hbad.imp_right fun hnil => ?_⟩
    rw [hnil]
    rfl
  have hwork : Working stream source patch output t.device := hd ▸ h
  have hlt := lt_length_of_drop hdrop
  rw [hdrop]
  simp only [JojoDiff.readLength]
  by_cases hsmall : first ≤ 251
  · simp only [hsmall, if_true]
    exact Holds.pure ht ⟨hd, _, rfl, rfl, by dsimp only; omega⟩
  simp only [hsmall, if_false]
  by_cases hone : first = 252
  · simp only [hone, if_true]
    refine Holds.bind (patchReadByte_holds ht hup hfits hwork (position + 1)) ?_
      (fun _ _ => trivial)
    rintro r u hu ⟨hd', ⟨low, rfl, hdrop'⟩ | ⟨⟨status, rfl⟩, hbad⟩⟩
    · have hlt' := lt_length_of_drop hdrop'
      rw [hdrop']
      exact Holds.pure hu ⟨hd'.trans hd, _, rfl, rfl, by dsimp only; omega⟩
    · refine Holds.pure hu ⟨hd'.trans hd, hbad.imp_right fun hnil => ?_⟩
      rw [hnil]
  simp only [hone, if_false]
  by_cases hwide : first = 253 ∨ first = 254
  · simp only [hwide, if_true]
    refine Holds.bind (readBigEndian_holds ht hup hfits hwork _ (by omega) 0) ?_
      (fun _ _ => trivial)
    rintro r u hu ⟨hd', hanswer⟩
    cases r with
    | error status =>
        refine Holds.pure hu ⟨hd'.trans hd, hanswer.imp_right fun hnone => ?_⟩
        rw [hnone]
        rfl
    | ok a =>
        obtain ⟨b, hb, rfl, hle⟩ := hanswer
        dsimp only
        split
        · next hzero =>
            refine Holds.pure hu ⟨hd'.trans hd, _, ?_, rfl, hle⟩
            simp [hb, hzero]
        · next hzero =>
            refine Holds.pure hu ⟨hd'.trans hd, .inr ?_⟩
            simp [hb, not_not.1 hzero]
  · simp only [hwide, if_false]
    exact Holds.pure ht ⟨hd, .inr rfl⟩

/-- The target after a write of `data`, if there is room. -/
def extend (stream : Stream) (output data : List UInt8) : Option (List UInt8) :=
  if output.length + data.length ≤ stream.targetImageSize then some (output ++ data) else none

/-- Writing behind the output so far extends it, and touches nothing the patcher reads. -/
theorem Working.append {d d' : Device} {data : List UInt8} (hfits : stream.Fits)
    (h : Working stream source patch output d)
    (hroom : output.length + data.length ≤ stream.targetImageSize)
    (hdata : d'.slice .reconstructed output.length data.length = data)
    (hframe : OutsideFrame (ExternalPartition.reconstructed.address + output.length)
      (ExternalPartition.reconstructed.address + output.length + data.length) d d') :
    Working stream source patch (output ++ data) d' := by
  have htarget := hfits.target
  have hpatch := hfits.patch
  have hincoming : ExternalPartition.incoming.address + ExternalPartition.incoming.size ≤
      ExternalPartition.reconstructed.address := by decide
  refine ⟨?_, ?_, ?_, ?_, ?_⟩
  · refine Eq.trans ?_ h.incoming
    rw [Device.slice, Device.slice, window_eq_iff]
    exact fun i hi => hframe.external _ (by omega)
  · refine Eq.trans ?_ h.base
    rw [window_eq_iff]
    exact fun i _ => hframe.internal _ trivial
  · simpa using hroom
  · have hfirst : d'.slice .reconstructed 0 output.length = output := by
      refine Eq.trans ?_ h.written
      rw [Device.slice, Device.slice, window_eq_iff]
      exact fun i hi => hframe.external _ (by omega)
    rw [List.length_append, Device.slice, window_add, ← Device.slice, hfirst, Nat.add_zero]
    exact congrArg (output ++ ·) hdata
  · intro i hi hlt
    rw [List.length_append] at hi
    rw [Device.part, hframe.external _ (by omega)]
    exact h.erased i (by omega) hlt

theorem targetWrite_holds (hs : Env μ up s) (hup : μ.Usable up) (hfits : stream.Fits)
    (h : Working stream source patch output s.device) {ctx : Context}
    (htarget : ctx.targetPosition = output.length) (data : List UInt8) :
    Holds μ up (targetWrite stream ctx data s)
      (Answers μ (extend stream output data) fun ctx' out d =>
        ctx' = { ctx with targetPosition := out.length } ∧ Working stream source patch out d)
      (fun _ => True) := by
  have hin := h.fits
  have hsize := hfits.target
  unfold targetWrite extend
  rw [htarget]
  by_cases hroom : output.length + data.length ≤ stream.targetImageSize
  · rw [if_neg (by omega), if_pos hroom]
    split
    · next hempty =>
        have hnil : data = [] := List.length_eq_zero_iff.1 hempty
        refine Holds.pure hs ⟨_, rfl, ?_, ?_⟩
        · rw [hnil, List.append_nil, ← htarget]
        · rwa [hnil, List.append_nil]
    · have hprogrammable : Programmable s.device
          (ExternalPartition.reconstructed.address + output.length) data := by
        refine programmable_of_erased fun i hi => ?_
        rw [Nat.add_assoc]
        exact h.erased _ (by omega) (by omega)
      refine Holds.bind ((storageWrite_holds hs hup (by omega)).and_keeps
        (storageWrite_keeps fun _ => allows_outsideFrame le_rfl le_rfl)) ?_ (fun _ _ => trivial)
      rintro ok t ht ⟨⟨rfl, hwritten⟩ | ⟨rfl, hbad⟩, hframe⟩
      · refine Holds.pure ht ⟨_, rfl, ?_, h.append hfits hroom hwritten hframe⟩
        rw [List.length_append]
      · exact Holds.pure ht (.inl (hbad.resolve_right (not_not.2 hprogrammable)))
  · rw [if_pos (by omega), if_neg hroom]
    exact Holds.pure hs (.inr rfl)

/-- The cursors of the patcher and the device agree with the progress of the specification. -/
structure Tracks (stream : Stream) (source patch : List UInt8) (ctx : Context) (st : Progress)
    (d : Device) : Prop where
  position : ctx.sourcePosition = st.position
  target : ctx.targetPosition = st.output.length
  bounded : st.position ≤ source.length
  working : Working stream source patch st.output d

theorem sourceHas_iff {ctx : Context} {length : Nat} :
    sourceHas stream ctx length = true ↔ ctx.sourcePosition + length ≤ stream.baseImageSize := by
  simp only [sourceHas, Bool.and_eq_true, Bool.not_eq_true', decide_eq_false_iff_not]
  omega

theorem readSource_holds (hs : Env μ up s) (hfits : stream.Fits)
    (h : Working stream source patch output s.device) {offset length : Nat}
    (hrange : offset + length ≤ stream.baseImageSize) :
    Holds μ up (readSource offset length s)
      (fun r d => d = s.device ∧ r = .ok ((source.drop offset).take length)) (fun _ => True) := by
  have hbase := hfits.base
  unfold readSource
  rw [if_neg (by omega)]
  refine Holds.read hs ⟨rfl, ?_⟩
  rw [← h.base, window_drop (by omega), window_take (by omega), Nat.zero_add]

/-- The progress after `count` bytes were copied from the source. -/
def copied (source : List UInt8) (st : Progress) (count : Nat) : Progress :=
  ⟨st.position + count, st.output ++ (source.drop st.position).take count⟩

theorem copied_output_length {st : Progress} {count : Nat}
    (h : st.position + count ≤ source.length) :
    (copied source st count).output.length = st.output.length + count := by
  simp only [copied, List.length_append, List.length_take, List.length_drop]
  omega

theorem copied_add {st : Progress} (count more : Nat) :
    (copied source st count).output ++ (source.drop (st.position + count)).take more =
      (copied source st (count + more)).output := by
  simp only [copied, List.append_assoc, List.append_cancel_left_eq]
  rw [List.take_add, List.drop_drop]

theorem copyEqual_holds (hs : Env μ up s) (hup : μ.Usable up) (hfits : stream.Fits)
    {ctx : Context} {st : Progress} (h : Tracks stream source patch ctx st s.device)
    (length : Nat) :
    Holds μ up (copyEqual stream ctx length s)
      (Answers μ ((Operation.equal length).apply source stream.targetImageSize st)
        fun ctx' st' d => Tracks stream source patch ctx' st' d ∧
          ctx'.patchPosition = ctx.patchPosition)
      (fun _ => True) := by
  have hsource := h.working.source_length
  unfold copyEqual
  by_cases hhas : sourceHas stream ctx length = true
  swap
  · rw [if_pos (by simpa using hhas)]
    rw [sourceHas_iff, h.position, ← hsource] at hhas
    exact Holds.pure hs (.inr (if_neg fun hbad => hhas hbad.1))
  rw [if_neg (by simp [hhas])]
  rw [sourceHas_iff, h.position, ← hsource] at hhas
  -- after `length - rest` bytes the cursors stand behind that many copied bytes
  refine Holds.loopThen (I := fun b d => b.2 ≤ length ∧
      Tracks stream source patch b.1 (copied source st (length - b.2)) d ∧
      b.1.patchPosition = ctx.patchPosition)
    (fun b => b.2) ?_ ?_ ?_ hs le_rfl ⟨le_rfl, ?_, rfl⟩
  · rintro ⟨ctx', rest⟩ d hguard -
    simp only [decide_eq_true_eq] at hguard
    exact Nat.pos_of_ne_zero hguard
  · rintro ⟨ctx', rest⟩ t ht hguard ⟨hle, htracks, hposition⟩
    simp only [decide_eq_true_eq] at hguard
    dsimp only at hle htracks hposition hguard ⊢
    have hpos : ctx'.sourcePosition = st.position + (length - rest) := htracks.position
    refine Holds.bind (readSource_holds ht hfits htracks.working (by
      rw [hpos]
      omega)) ?_ (fun _ _ => trivial)
    rintro r u hu ⟨hd, rfl⟩
    have hchunk : ((source.drop ctx'.sourcePosition).take (min rest ioBufferSize)).length =
        min rest ioBufferSize := by
      simp only [List.length_take, List.length_drop]
      omega
    refine Holds.bind (targetWrite_holds hu hup hfits (hd ▸ htracks.working) htracks.target _) ?_
      (fun _ _ => trivial)
    intro r v hv hanswer
    have hlen : (copied source st (length - rest)).output.length =
        st.output.length + (length - rest) := copied_output_length (by omega)
    unfold extend at hanswer
    rw [hchunk, hlen] at hanswer
    cases r with
    | error status =>
        refine Holds.pure hv (hanswer.imp_right fun hnone => if_neg fun hbad => ?_)
        rw [if_pos (by omega)] at hnone
        cases hnone
    | ok ctx'' =>
        obtain ⟨out, hout, rfl, hworking⟩ := hanswer
        split_ifs at hout with hroom
        rw [hpos, copied_add, Option.some.injEq] at hout
        have hcount : length - rest + min rest ioBufferSize =
            length - (rest - min rest ioBufferSize) := by omega
        rw [hcount] at hout
        subst hout
        refine Holds.pure hv ⟨⟨by omega, ⟨?_, rfl, ?_, hworking⟩, hposition⟩, ?_⟩
        · dsimp only [copied]
          omega
        · dsimp only [copied]
          omega
        · have hbuffer : 0 < ioBufferSize := by decide
          dsimp only
          omega
  · rintro ⟨ctx', rest⟩ t ht hguard ⟨-, htracks, hposition⟩
    simp only [decide_eq_false_iff_not, not_not] at hguard
    dsimp only at htracks hposition hguard
    rw [hguard, Nat.sub_zero] at htracks
    have hfit := htracks.working.fits
    rw [copied_output_length (by omega)] at hfit
    exact Holds.pure ht ⟨_, if_pos ⟨by omega, hfit⟩, htracks, hposition⟩
  · dsimp only
    rw [Nat.sub_self]
    simpa [copied] using h

/-- The operation a literal run carries out. -/
def literalOperation (advanceSource : Bool) (data : List UInt8) : Operation :=
  if advanceSource then .modify data else .insert data

/-- Literal data may be applied piece by piece. -/
theorem apply_literal_append {limit : Nat} (advanceSource : Bool) (first second : List UInt8)
    (st : Progress) :
    (literalOperation advanceSource (first ++ second)).apply source limit st =
      ((literalOperation advanceSource first).apply source limit st).bind fun st =>
        (literalOperation advanceSource second).apply source limit st := by
  cases advanceSource with
  | true =>
      simp only [literalOperation, if_true, Operation.apply, List.length_append]
      split_ifs with h₁ h₂ h₂
      · rw [Option.bind_some, if_pos (by simp only [List.length_append]; omega)]
        simp [Nat.add_assoc]
      · omega
      · rw [Option.bind_some, if_neg (by simp only [List.length_append]; omega)]
      · rfl
  | false =>
      simp only [literalOperation, Bool.false_eq_true, if_false, Operation.apply,
        List.length_append]
      split_ifs with h₁ h₂ h₂
      · rw [Option.bind_some, if_pos (by simp only [List.length_append]; omega)]
        simp
      · omega
      · rw [Option.bind_some, if_neg (by simp only [List.length_append]; omega)]
      · rfl

theorem apply_literal_nil {ctx : Context} {st : Progress} {d : Device}
    (h : Tracks stream source patch ctx st d) (advanceSource : Bool) :
    (literalOperation advanceSource []).apply source stream.targetImageSize st = some st := by
  have hfit := h.working.fits
  have hbounded := h.bounded
  cases advanceSource <;> simp [literalOperation, Operation.apply, hfit, hbounded]

theorem flushLiteral_holds (hs : Env μ up s) (hup : μ.Usable up) (hfits : stream.Fits)
    {run : Literal} {st : Progress} (advanceSource : Bool)
    (h : Tracks stream source patch run.ctx st s.device) :
    Holds μ up (flushLiteral stream advanceSource run s)
      (Answers μ ((literalOperation advanceSource run.buffer).apply source
          stream.targetImageSize st) fun run' st' d =>
        Tracks stream source patch run'.ctx st' d ∧
          run'.ctx.patchPosition = run.ctx.patchPosition ∧ run'.buffer = [] ∧
          run'.finished = run.finished)
      (fun _ => True) := by
  have hsource := h.working.source_length
  refine Holds.bind (targetWrite_holds hs hup hfits h.working h.target run.buffer) ?_
    (fun _ _ => trivial)
  intro r t ht hanswer
  unfold extend at hanswer
  cases r with
  | error status =>
      refine Holds.pure ht (hanswer.imp_right fun hnone => ?_)
      split_ifs at hnone with hroom
      cases advanceSource with
      | true => exact if_neg fun hbad => hroom hbad.2
      | false => exact if_neg hroom
  | ok ctx =>
      obtain ⟨out, hout, rfl, hworking⟩ := hanswer
      split_ifs at hout with hroom
      cases hout
      cases advanceSource with
      | true =>
          simp only [if_true]
          split
          · next hno =>
              rw [Bool.not_eq_true', ← Bool.not_eq_true, sourceHas_iff, ← hsource] at hno
              dsimp only at hno
              rw [h.position] at hno
              exact Holds.pure ht (.inr (if_neg fun hbad => hno hbad.1))
          · next hyes =>
              rw [Bool.not_eq_true', Bool.not_eq_false, sourceHas_iff, ← hsource] at hyes
              dsimp only at hyes
              rw [h.position] at hyes
              refine Holds.pure ht ⟨_, if_pos ⟨hyes, hroom⟩, ⟨?_, rfl, hyes, hworking⟩, rfl, rfl, rfl⟩
              exact congrArg (· + run.buffer.length) h.position
      | false =>
          simp only [Bool.false_eq_true, if_false]
          exact Holds.pure ht ⟨_, if_pos hroom, ⟨h.position, rfl, h.bounded, hworking⟩, rfl, rfl, rfl⟩

/-- The run has taken in `taken` since it began at `st`; the end of it is still in the buffer. -/
def Pending (stream : Stream) (source patch : List UInt8) (advanceSource : Bool) (st : Progress)
    (taken : List UInt8) (run : Literal) (d : Device) : Prop :=
  ∃ flushed st', taken = flushed ++ run.buffer ∧ run.buffer.length < ioBufferSize ∧
    (literalOperation advanceSource flushed).apply source stream.targetImageSize st = some st' ∧
    Tracks stream source patch run.ctx st' d

theorem Pending.advance {advanceSource : Bool} {st : Progress} {taken : List UInt8}
    {run : Literal} {d : Device} (h : Pending stream source patch advanceSource st taken run d)
    (count : Nat) : Pending stream source patch advanceSource st taken (run.advance count) d := by
  obtain ⟨flushed, st', htaken, hbuffer, happly, htracks⟩ := h
  exact ⟨flushed, st', htaken, hbuffer, happly, ⟨htracks.position, htracks.target, htracks.bounded, htracks.working⟩⟩

theorem pushLiteral_holds (hs : Env μ up s) (hup : μ.Usable up) (hfits : stream.Fits)
    {run : Literal} {st : Progress} {taken : List UInt8} (advanceSource : Bool)
    (h : Pending stream source patch advanceSource st taken run s.device) (value : UInt8) :
    Holds μ up (pushLiteral stream advanceSource run value s)
      (fun r d =>
        (∃ run', r = .ok run' ∧
          Pending stream source patch advanceSource st (taken ++ [value]) run' d ∧
          run'.ctx.patchPosition = run.ctx.patchPosition ∧ run'.finished = run.finished) ∨
        (∃ status, r = .error status) ∧ (μ.Faulty ∨
          (literalOperation advanceSource (taken ++ [value])).apply source
            stream.targetImageSize st = none))
      (fun _ => True) := by
  obtain ⟨flushed, st', rfl, hbuffer, happly, htracks⟩ := h
  unfold pushLiteral
  dsimp only
  rw [List.append_assoc]
  split
  · next hfull =>
      have hwhole : (literalOperation advanceSource (flushed ++ (run.buffer ++ [value]))).apply
          source stream.targetImageSize st = _ :=
        apply_literal_append advanceSource flushed (run.buffer ++ [value]) st
      rw [happly, Option.bind_some] at hwhole
      have hfull' : Tracks stream source patch
          ({ run with buffer := run.buffer ++ [value] } : Literal).ctx st' s.device := htracks
      refine (flushLiteral_holds hs hup hfits advanceSource hfull').mono ?_ (fun _ _ => trivial)
      intro r d hanswer
      cases r with
      | error status => exact .inr ⟨⟨_, rfl⟩, hanswer.imp_right fun hnone => hwhole.trans hnone⟩
      | ok run' =>
          obtain ⟨st'', hst, htracks', hposition, hempty, hfinished⟩ := hanswer
          refine .inl ⟨run', rfl, ⟨_, st'', ?_, ?_, hwhole.trans hst, htracks'⟩, hposition,
            hfinished⟩
          · rw [hempty, List.append_nil]
          · rw [hempty]
            decide
  · next hfull =>
      simp only [List.length_append, List.length_singleton] at hfull
      refine Holds.pure hs (.inl ⟨_, rfl, ⟨flushed, st', rfl, ?_, happly, htracks⟩, rfl, rfl⟩)
      simp only [List.length_append, List.length_singleton]
      omega

/-- What the run has taken in and what lies ahead of it make up the whole scan. -/
def Scanned (patch taken : List UInt8) (run : Literal) (whole : List UInt8 × List UInt8) : Prop :=
  if run.finished then whole = (taken, patch.drop run.ctx.patchPosition)
  else whole = (taken ++ (JojoDiff.scanLiteral (patch.drop run.ctx.patchPosition)).1,
    (JojoDiff.scanLiteral (patch.drop run.ctx.patchPosition)).2)

/-- The data of the whole scan fail where a part of them from its beginning does. -/
theorem apply_none_of_first {limit : Nat} {advanceSource : Bool} {first second : List UInt8}
    {st : Progress} (h : (literalOperation advanceSource first).apply source limit st = none) :
    (literalOperation advanceSource (first ++ second)).apply source limit st = none := by
  rw [apply_literal_append, h, Option.bind_none]

/-- Between the rounds of a literal run that began at `st`. -/
structure LiteralState (stream : Stream) (source patch : List UInt8) (advanceSource : Bool)
    (st : Progress) (whole : List UInt8 × List UInt8) (run : Literal) (d : Device) : Prop where
  within : run.ctx.patchPosition ≤ stream.patchSize
  scanned : ∃ taken, Pending stream source patch advanceSource st taken run d ∧
    Scanned patch taken run whole

/-- What a round of a literal run that stood at `start` may answer. -/
def LiteralAnswer (stream : Stream) (source patch : List UInt8) (μ : Mode) (advanceSource : Bool)
    (st : Progress) (whole : List UInt8 × List UInt8) (start : Nat) (r : Except Status Literal)
    (d : Device) : Prop :=
  (∃ run, r = .ok run ∧ LiteralState stream source patch advanceSource st whole run d ∧
    (run.finished = true ∨ start < run.ctx.patchPosition)) ∨
  (∃ status, r = .error status) ∧ (μ.Faulty ∨
    (literalOperation advanceSource whole.1).apply source stream.targetImageSize st = none)

/-- Push the byte with which the scan goes on. -/
theorem pushScanned_holds (hs : Env μ up s) (hup : μ.Usable up) (hfits : stream.Fits)
    {run : Literal} {st : Progress} {taken : List UInt8} {advanceSource : Bool}
    {whole : List UInt8 × List UInt8} {start : Nat} {value : UInt8}
    (h : Pending stream source patch advanceSource st taken run s.device)
    (hrunning : run.finished = false) (hlt : start < run.ctx.patchPosition)
    (hle : run.ctx.patchPosition ≤ stream.patchSize)
    (hwhole : whole = (taken ++ value :: (JojoDiff.scanLiteral
        (patch.drop run.ctx.patchPosition)).1,
      (JojoDiff.scanLiteral (patch.drop run.ctx.patchPosition)).2)) :
    Holds μ up (pushLiteral stream advanceSource run value s)
      (LiteralAnswer stream source patch μ advanceSource st whole start) (fun _ => True) := by
  refine (pushLiteral_holds hs hup hfits advanceSource h value).mono ?_ (fun _ _ => trivial)
  rintro r d (⟨run', rfl, hpending, hposition, hfinished⟩ | ⟨herror, hbad⟩)
  · refine .inl ⟨run', rfl, ⟨by omega, _, hpending, ?_⟩, .inr (by omega)⟩
    rw [Scanned, hfinished.trans hrunning, if_neg Bool.false_ne_true, hposition, hwhole,
      List.append_assoc]
    rfl
  · refine .inr ⟨herror, hbad.imp_right fun hnone => ?_⟩
    rw [hwhole]
    dsimp only
    rw [List.append_cons]
    exact apply_none_of_first hnone

theorem literalStep_holds (hs : Env μ up s) (hup : μ.Usable up) (hfits : stream.Fits)
    {run : Literal} {st : Progress} {advanceSource : Bool} {whole : List UInt8 × List UInt8}
    (h : LiteralState stream source patch advanceSource st whole run s.device)
    (hrunning : run.finished = false) (hin : run.ctx.patchPosition < stream.patchSize) :
    Holds μ up (literalStep stream advanceSource run s)
      (LiteralAnswer stream source patch μ advanceSource st whole run.ctx.patchPosition)
      (fun _ => True) := by
  obtain ⟨-, taken, hpending, hscanned⟩ := h
  obtain ⟨-, st', -, -, -, htracks⟩ := id hpending
  have hworking := htracks.working
  have hlength := hworking.patch_length
  have hdrop : patch.drop run.ctx.patchPosition = _ :=
    drop_eq_cons (show run.ctx.patchPosition < patch.length by omega)
  rw [Scanned, hrunning, if_neg Bool.false_ne_true, hdrop] at hscanned
  refine Holds.bind (patchPeekByte_holds hs hup hfits hworking (by omega)) ?_ (fun _ _ => trivial)
  rintro r t ht ⟨hd, rfl | ⟨⟨status, rfl⟩, hfaulty⟩⟩
  swap
  · exact Holds.pure ht (.inr ⟨⟨_, rfl⟩, .inl hfaulty⟩)
  rw [Nat.add_zero]
  generalize patch.getD run.ctx.patchPosition 0 = value at hdrop hscanned
  dsimp only
  split
  · -- a plain byte
    next hplain =>
      rw [JojoDiff.scanLiteral_plain hplain] at hscanned
      refine Holds.bind (patchReadByte_holds ht hup hfits (hd ▸ hworking) _) ?_
        (fun _ _ => trivial)
      rintro r u hu ⟨hd', ⟨byte, rfl, hdrop'⟩ | ⟨⟨status, rfl⟩, hbad⟩⟩
      · rw [hdrop] at hdrop'
        cases hdrop'
        exact pushScanned_holds hu hup hfits ((hd'.trans hd) ▸ hpending.advance 1) hrunning
          (Nat.lt_succ_self _) hin hscanned
      · refine Holds.pure hu (.inr ⟨⟨_, rfl⟩, .inl (hbad.resolve_right ?_)⟩)
        rw [hdrop]
        exact List.cons_ne_nil _ _
  · next hesc =>
      have hvalue : value = jdiffEsc := not_not.1 hesc
      subst hvalue
      split
      · -- an escape at the end of the stream
        next hend =>
          have hnil : patch.drop (run.ctx.patchPosition + 1) = [] :=
            List.drop_eq_nil_of_le (by omega)
          rw [hnil, JojoDiff.scanLiteral_end, List.append_nil] at hscanned
          refine Holds.pure ht (.inl ⟨_, rfl, ⟨hin, taken, ?_, ?_⟩, .inl rfl⟩)
          · exact hd ▸ hpending.advance 1
          · rw [Scanned, if_pos rfl, hscanned]
            exact congrArg (Prod.mk taken) hnil.symm
      · next hmore =>
          have hdrop' : patch.drop (run.ctx.patchPosition + 1) = _ :=
            drop_eq_cons (show run.ctx.patchPosition + 1 < patch.length by omega)
          refine Holds.bind (patchPeekByte_holds ht hup hfits (hd ▸ hworking) (by omega)) ?_
            (fun _ _ => trivial)
          rintro r u hu ⟨hd', rfl | ⟨⟨status, rfl⟩, hfaulty⟩⟩
          swap
          · exact Holds.pure hu (.inr ⟨⟨_, rfl⟩, .inl hfaulty⟩)
          rw [hdrop'] at hscanned hdrop
          generalize patch.getD (run.ctx.patchPosition + 1) 0 = next at hdrop hscanned
          have hpending' : Pending stream source patch advanceSource st taken (run.advance 2)
              u.device := (hd'.trans hd) ▸ hpending.advance 2
          have hlt : run.ctx.patchPosition < (run.advance 2).ctx.patchPosition :=
            Nat.lt_add_of_pos_right Nat.two_pos
          have hle : (run.advance 2).ctx.patchPosition ≤ stream.patchSize := by
            show run.ctx.patchPosition + 2 ≤ stream.patchSize
            omega
          dsimp only
          split
          · -- an escaped escape byte
            next hnext =>
              rw [hnext, JojoDiff.scanLiteral_escaped] at hscanned
              exact pushScanned_holds hu hup hfits hpending' hrunning hlt hle hscanned
          · next hnext =>
              split
              · -- the next operation
                next hopcode =>
                  rw [JojoDiff.scanLiteral_opcode hopcode, List.append_nil, ← hdrop] at hscanned
                  refine Holds.pure hu (.inl ⟨_, rfl, ⟨hin.le, taken, ?_, ?_⟩, .inl rfl⟩)
                  · exact (hd'.trans hd) ▸ hpending
                  · rwa [Scanned, if_pos rfl]
              · -- an unknown pair
                next hopcode =>
                  rw [JojoDiff.scanLiteral_unknown hnext (by simpa using hopcode)] at hscanned
                  refine Holds.bind (pushLiteral_holds hu hup hfits advanceSource hpending' _) ?_
                    (fun _ _ => trivial)
                  rintro r v hv (⟨run', rfl, hpending'', hposition, hfinished⟩ |
                    ⟨⟨status, rfl⟩, hbad⟩)
                  · refine pushScanned_holds hv hup hfits hpending'' (hfinished.trans hrunning)
                      (by omega) (by omega) ?_
                    rw [hposition, hscanned, List.append_assoc]
                    rfl
                  · refine Holds.pure hv (.inr ⟨⟨_, rfl⟩, hbad.imp_right fun hnone => ?_⟩)
                    rw [hscanned]
                    dsimp only
                    rw [List.append_cons]
                    exact apply_none_of_first hnone

theorem consumeLiteral_holds (hs : Env μ up s) (hup : μ.Usable up) (hfits : stream.Fits)
    {ctx : Context} {st : Progress} (h : Tracks stream source patch ctx st s.device)
    (hle : ctx.patchPosition ≤ stream.patchSize) (advanceSource : Bool) :
    Holds μ up (consumeLiteral stream ctx advanceSource s)
      (Answers μ ((literalOperation advanceSource
          (JojoDiff.scanLiteral (patch.drop ctx.patchPosition)).1).apply source
            stream.targetImageSize st) fun r st' d =>
        Tracks stream source patch r.1 st' d ∧ r.1.patchPosition ≤ stream.patchSize ∧
          patch.drop r.1.patchPosition =
            (JojoDiff.scanLiteral (patch.drop ctx.patchPosition)).2)
      (fun _ => True) := by
  have hlength := h.working.patch_length
  generalize hwhole : JojoDiff.scanLiteral (patch.drop ctx.patchPosition) = whole
  refine Holds.loopThen
    (I := fun run d => LiteralState stream source patch advanceSource st whole run d)
    (fun run => if run.finished then 0 else stream.patchSize - run.ctx.patchPosition)
    ?_ ?_ ?_ hs (Nat.sub_le _ _) ?_
  · intro run d hguard _
    simp only [Bool.and_eq_true, Bool.not_eq_true', decide_eq_true_eq] at hguard
    rw [hguard.1, if_neg Bool.false_ne_true]
    omega
  · intro run t ht hguard hstate
    simp only [Bool.and_eq_true, Bool.not_eq_true', decide_eq_true_eq] at hguard
    refine Holds.bind (literalStep_holds ht hup hfits hstate hguard.1 hguard.2) ?_
      (fun _ _ => trivial)
    rintro r u hu (⟨run', rfl, hstate', hprogress⟩ | ⟨⟨status, rfl⟩, hbad⟩)
    · refine Holds.pure hu ⟨hstate', ?_⟩
      have hwithin := hstate'.within
      rw [hguard.1, if_neg Bool.false_ne_true]
      rcases hprogress with hfinished | hlt
      · rw [if_pos hfinished]
        omega
      · split <;> omega
    · exact Holds.pure hu hbad
  · intro run t ht hguard ⟨hwithin, taken, hpending, hscanned⟩
    -- in both ways to leave the loop the scan is complete
    have hcomplete : whole = (taken, patch.drop run.ctx.patchPosition) := by
      unfold Scanned at hscanned
      split at hscanned
      · exact hscanned
      · next hrunning =>
          simp only [Bool.and_eq_false_iff, Bool.not_eq_false', decide_eq_false_iff_not] at hguard
          have hend := hguard.resolve_left hrunning
          rw [List.drop_eq_nil_of_le (by omega), JojoDiff.scanLiteral_nil,
            List.append_nil] at hscanned
          rw [hscanned, List.drop_eq_nil_of_le (by omega)]
    obtain ⟨flushed, st', rfl, hbuffer, happly, htracks⟩ := hpending
    rw [hcomplete]
    dsimp only
    split
    · refine Holds.bind (flushLiteral_holds ht hup hfits advanceSource htracks) ?_
        (fun _ _ => trivial)
      intro r u hu hanswer
      rw [apply_literal_append, happly, Option.bind_some]
      cases r with
      | error status => exact Holds.pure hu hanswer
      | ok run' =>
          obtain ⟨st'', hst, htracks', hposition, -, -⟩ := hanswer
          exact Holds.pure hu ⟨st'', hst, htracks', hposition ▸ hwithin, by rw [hposition]⟩
    · next hempty =>
        have hnil : run.buffer = [] := List.length_eq_zero_iff.1 (not_not.1 hempty)
        rw [hnil, List.append_nil]
        exact Holds.pure ht ⟨st', happly, htracks, hwithin, rfl⟩
  · exact ⟨hle, [], ⟨[], st, rfl, Nat.succ_pos _, apply_literal_nil h advanceSource, h⟩, hwhole.symm⟩

end Refinement

end JanpatchPort

end SecureDeltaOta
