import SecureDeltaOta.Boot.JanpatchData
import SecureDeltaOta.Boot.JanpatchStatistics

/-!
# The patcher computes the meaning of the stream

Operation by operation, and so for the whole stream: the answer of the patcher
is that of `JojoDiff.run`, and its statistics are those of `JojoDiff.tally`.
-/

namespace SecureDeltaOta

open Memory Crash

namespace JanpatchPort

open JojoDiff (jdiffEsc jdiffMod jdiffIns jdiffDel jdiffEql jdiffBkt isOpcode Progress Operation
  Tally drop_eq_cons)

section Refinement

variable {stream : Stream} {source patch : List UInt8} {μ : Mode} {up : Bool} {s : Machine}

/-- The state between operations: the cursors track `st` and `rest` is still to be read. -/
structure Between (stream : Stream) (source patch : List UInt8) (ctx : Context) (st : Progress)
    (rest : List UInt8) (d : Device) : Prop where
  tracks : Tracks stream source patch ctx st d
  within : ctx.patchPosition ≤ stream.patchSize
  ahead : patch.drop ctx.patchPosition = rest

theorem readOpcode_holds (hs : Env μ up s) (hup : μ.Usable up) (hfits : stream.Fits)
    {ctx : Context} {st : Progress} {rest : List UInt8}
    (h : Between stream source patch ctx st rest s.device)
    (hin : ctx.patchPosition < stream.patchSize) :
    Holds μ up (readOpcode stream ctx s)
      (Answers μ (JojoDiff.decodeOpcode rest) fun r q d => r.1 = q.1 ∧
        Between stream source patch r.2 st q.2 d)
      (fun _ => True) := by
  obtain ⟨htracks, hwithin, rfl⟩ := h
  have hlength := htracks.working.patch_length
  have hdrop : patch.drop ctx.patchPosition = _ :=
    drop_eq_cons (show ctx.patchPosition < patch.length by omega)
  refine Holds.bind (patchPeekByte_holds hs hup hfits htracks.working (by omega)) ?_
    (fun _ _ => trivial)
  rintro r t ht ⟨hd, rfl | ⟨⟨status, rfl⟩, hfaulty⟩⟩
  swap
  · exact Holds.pure ht (.inl hfaulty)
  have hhere : Between stream source patch ctx st (patch.drop ctx.patchPosition) t.device :=
    ⟨hd ▸ htracks, hwithin, rfl⟩
  rw [Nat.add_zero]
  generalize patch.getD ctx.patchPosition 0 = first at hdrop
  rw [hdrop] at hhere ⊢
  dsimp only [JojoDiff.decodeOpcode]
  split
  · exact Holds.pure ht ⟨_, rfl, rfl, hhere⟩
  · split
    · next hend =>
        refine Holds.pure ht (.inr ?_)
        rw [List.drop_eq_nil_of_le (by omega)]
    · next hmore =>
        have hdrop' : patch.drop (ctx.patchPosition + 1) = _ :=
          drop_eq_cons (show ctx.patchPosition + 1 < patch.length by omega)
        refine Holds.bind (patchPeekByte_holds ht hup hfits hhere.tracks.working (by omega)) ?_
          (fun _ _ => trivial)
        rintro r u hu ⟨hd', rfl | ⟨⟨status, rfl⟩, hfaulty⟩⟩
        swap
        · exact Holds.pure hu (.inl hfaulty)
        rw [hdrop'] at hhere ⊢
        generalize patch.getD (ctx.patchPosition + 1) 0 = next at hhere
        dsimp only
        split
        · refine Holds.pure hu ⟨_, rfl, rfl, ?_, ?_, rfl⟩
          · have htracks' := hhere.tracks
            rw [← hd'] at htracks'
            exact ⟨htracks'.position, htracks'.target, htracks'.bounded, htracks'.working⟩
          · show ctx.patchPosition + 2 ≤ stream.patchSize
            omega
        · exact Holds.pure hu ⟨_, rfl, rfl, hd' ▸ hhere⟩

/-- What an opcode at the head of `rest` does to the progress, and what it leaves unread. -/
def operationSpec (source : List UInt8) (limit : Nat) (st : Progress) (opcode : UInt8)
    (rest : List UInt8) : Option (Progress × List UInt8) :=
  (JojoDiff.decodeOperation opcode rest).bind fun q =>
    (q.1.apply source limit st).map fun st' => (st', q.2)

theorem Between.moved {ctx : Context} {st : Progress} {rest : List UInt8} {d : Device}
    (h : Between stream source patch ctx st rest d) {position : Nat}
    (hle : position ≤ stream.patchSize) :
    Between stream source patch { ctx with patchPosition := position } st (patch.drop position) d :=
  ⟨⟨h.tracks.position, h.tracks.target, h.tracks.bounded, h.tracks.working⟩, hle, rfl⟩

/-- The literal operations. -/
theorem applyLiteral_holds (hs : Env μ up s) (hup : μ.Usable up) (hfits : stream.Fits)
    {ctx : Context} {st : Progress} {rest : List UInt8}
    (h : Between stream source patch ctx st rest s.device) {opcode : UInt8}
    (hopcode : opcode = jdiffMod ∨ opcode = jdiffIns) :
    Holds μ up (applyOperation stream opcode ctx s)
      (Answers μ (operationSpec source stream.targetImageSize st opcode rest) fun ctx' q d =>
        Between stream source patch ctx' q.1 q.2 d)
      (fun _ => True) := by
  obtain ⟨htracks, hwithin, rfl⟩ := h
  have hspec : operationSpec source stream.targetImageSize st opcode
      (patch.drop ctx.patchPosition) =
      ((literalOperation (opcode = jdiffMod) (JojoDiff.scanLiteral
        (patch.drop ctx.patchPosition)).1).apply source stream.targetImageSize st).map
          fun st' => (st', (JojoDiff.scanLiteral (patch.drop ctx.patchPosition)).2) := by
    rcases hopcode with rfl | rfl <;> rfl
  have hnot : ¬ (opcode = jdiffEql ∨ opcode = jdiffDel ∨ opcode = jdiffBkt) := by
    rcases hopcode with rfl | rfl <;> decide
  rw [hspec]
  unfold applyOperation
  rw [if_neg hnot, if_pos hopcode]
  refine Holds.bind (consumeLiteral_holds hs hup hfits htracks hwithin _) ?_ (fun _ _ => trivial)
  intro r t ht hanswer
  cases r with
  | error status =>
      refine Holds.pure ht (hanswer.imp_right fun hnone => ?_)
      rw [hnone]
      rfl
  | ok r =>
      obtain ⟨st', hst, htracks', hwithin', hahead⟩ := hanswer
      rw [hst, Option.map_some]
      have hafter : ∀ ctx' : Context, ctx'.sourcePosition = r.1.sourcePosition →
          ctx'.targetPosition = r.1.targetPosition → ctx'.patchPosition = r.1.patchPosition →
          Between stream source patch ctx' st'
            (JojoDiff.scanLiteral (patch.drop ctx.patchPosition)).2 t.device := by
        intro ctx' h₁ h₂ h₃
        exact ⟨⟨h₁.trans htracks'.position, h₂.trans htracks'.target, htracks'.bounded,
          htracks'.working⟩, h₃ ▸ hwithin', h₃ ▸ hahead⟩
      dsimp only
      split
      · exact Holds.pure ht ⟨_, rfl, hafter _ rfl rfl rfl⟩
      · exact Holds.pure ht ⟨_, rfl, hafter _ rfl rfl rfl⟩

theorem applyOperation_holds (hs : Env μ up s) (hup : μ.Usable up) (hfits : stream.Fits)
    {ctx : Context} {st : Progress} {rest : List UInt8}
    (h : Between stream source patch ctx st rest s.device) (opcode : UInt8) :
    Holds μ up (applyOperation stream opcode ctx s)
      (Answers μ (operationSpec source stream.targetImageSize st opcode rest) fun ctx' q d =>
        Between stream source patch ctx' q.1 q.2 d)
      (fun _ => True) := by
  by_cases hliteral : opcode = jdiffMod ∨ opcode = jdiffIns
  · exact applyLiteral_holds hs hup hfits h hliteral
  have hsource := h.tracks.working.source_length
  have hlength := h.tracks.working.patch_length
  by_cases hlengthOp : opcode = jdiffEql ∨ opcode = jdiffDel ∨ opcode = jdiffBkt
  swap
  · unfold applyOperation
    rw [if_neg hlengthOp, if_neg hliteral]
    rw [not_or] at hliteral
    rw [not_or, not_or] at hlengthOp
    refine Holds.pure hs (.inr ?_)
    unfold operationSpec JojoDiff.decodeOperation
    rw [if_neg hlengthOp.1, if_neg hlengthOp.2.1, if_neg hlengthOp.2.2, if_neg hliteral.1,
      if_neg hliteral.2]
    rfl
  unfold applyOperation
  rw [if_pos hlengthOp]
  refine Holds.bind (readLength_holds hs hup hfits h.tracks.working _) ?_ (fun _ _ => trivial)
  rintro r t ht ⟨hd, hanswer⟩
  rw [h.ahead] at hanswer
  -- each of the three opcodes decodes its length from the same place
  have hdecode : operationSpec source stream.targetImageSize st opcode rest =
      (JojoDiff.readLength rest).bind fun q =>
        (((if opcode = jdiffEql then Operation.equal q.1 else if opcode = jdiffDel then .delete q.1
          else .backtrack q.1) : Operation).apply source stream.targetImageSize st).map
            fun st' => (st', q.2) := by
    unfold operationSpec JojoDiff.decodeOperation
    rcases hlengthOp with rfl | rfl | rfl <;> cases JojoDiff.readLength rest <;> rfl
  rw [hdecode]
  cases r with
  | error status =>
      refine Holds.pure ht (hanswer.imp_right fun hnone => ?_)
      rw [hnone]
      rfl
  | ok r =>
      obtain ⟨length, position⟩ := r
      obtain ⟨q, hq, rfl, hle⟩ := hanswer
      have hmoved : Between stream source patch { ctx with patchPosition := position } st
          (patch.drop position) t.device := Between.moved (hd ▸ h) hle
      have hposition := h.tracks.position
      rw [hq, Option.bind_some]
      rcases hlengthOp with rfl | rfl | rfl
      · -- copy from the source
        refine (copyEqual_holds ht hup hfits hmoved.tracks length).mono ?_ (fun _ _ => trivial)
        intro r d hanswer
        cases r with
        | error status =>
            refine hanswer.imp_right fun hnone => ?_
            simp only [if_true]
            rw [hnone]
            rfl
        | ok ctx' =>
            obtain ⟨st', hst, htracks, hcursor⟩ := hanswer
            refine ⟨(st', patch.drop position), ?_, htracks, hcursor ▸ hle, hcursor ▸ rfl⟩
            simp only [if_true]
            rw [hst]
            rfl
      · -- skip source bytes
        simp only [show (jdiffDel = jdiffEql) = False from by decide, if_false, if_true,
          Operation.apply]
        by_cases hhas : st.position + length ≤ source.length
        · have hhas' : sourceHas stream { ctx with patchPosition := position } length = true := by
            rw [sourceHas_iff, ← hsource]
            exact hposition ▸ hhas
          simp only [hhas', Bool.not_true, Bool.false_eq_true, if_false]
          rw [if_pos hhas]
          exact Holds.pure ht ⟨_, rfl, ⟨congrArg (· + length) hposition, hmoved.tracks.target, hhas,
            hmoved.tracks.working⟩, hle, rfl⟩
        · have hhas' : sourceHas stream { ctx with patchPosition := position } length = false := by
            rw [← Bool.not_eq_true, sourceHas_iff, ← hsource]
            exact hposition ▸ hhas
          simp only [hhas', Bool.not_false, if_true]
          rw [if_neg hhas]
          exact Holds.pure ht (.inr rfl)
      · -- step back in the source
        simp only [show (jdiffBkt = jdiffEql) = False from by decide,
          show (jdiffBkt = jdiffDel) = False from by decide, if_false, Operation.apply, hposition]
        by_cases hback : length ≤ st.position
        · rw [if_neg (by omega), if_pos hback]
          have hbounded := h.tracks.bounded
          refine Holds.pure ht ⟨_, rfl, ⟨rfl, hmoved.tracks.target, ?_, hmoved.tracks.working⟩, hle,
            rfl⟩
          dsimp only
          omega
        · rw [if_pos (by omega), if_neg hback]
          exact Holds.pure ht (.inr rfl)

/-- One operation of the specification. -/
def stepSpec (source : List UInt8) (limit : Nat) (st : Progress) (rest : List UInt8) :
    Option (Progress × List UInt8) :=
  (JojoDiff.decodeNext rest).bind fun q => (q.1.apply source limit st).map fun st' => (st', q.2)

theorem stepSpec_eq {limit : Nat} (st : Progress) (rest : List UInt8) :
    stepSpec source limit st rest = (JojoDiff.decodeOpcode rest).bind fun q =>
      operationSpec source limit st q.1 q.2 := by
  unfold stepSpec operationSpec JojoDiff.decodeNext
  rw [Option.bind_assoc]

theorem run_eq_step {limit : Nat} {rest : List UInt8} (hne : rest ≠ []) (st : Progress) :
    JojoDiff.run source limit rest st =
      (stepSpec source limit st rest).bind fun q => JojoDiff.run source limit q.2 q.1 := by
  unfold stepSpec
  cases hnext : JojoDiff.decodeNext rest with
  | none => exact JojoDiff.run_undecodable hne hnext st
  | some q =>
      rw [JojoDiff.run_next hnext, Option.bind_some]
      cases q.1.apply source limit st <;> rfl

theorem stepSpec_length {limit : Nat} {st : Progress} {rest : List UInt8}
    {q : Progress × List UInt8} (h : stepSpec source limit st rest = some q) :
    q.2.length < rest.length := by
  obtain ⟨r, hnext, happly⟩ := Option.bind_eq_some_iff.1 h
  obtain ⟨st', -, rfl⟩ := Option.map_eq_some_iff.1 happly
  exact JojoDiff.decodeNext_length hnext

theorem applyStep_holds (hs : Env μ up s) (hup : μ.Usable up) (hfits : stream.Fits)
    {ctx : Context} {st : Progress} {rest : List UInt8}
    (h : Between stream source patch ctx st rest s.device)
    (hin : ctx.patchPosition < stream.patchSize) :
    Holds μ up (applyStep stream ctx s)
      (Answers μ (stepSpec source stream.targetImageSize st rest) fun ctx' q d =>
        Between stream source patch ctx' q.1 q.2 d ∧
          JojoDiff.tally ctx'.tally q.2 = JojoDiff.tally ctx.tally rest)
      (fun _ => True) := by
  rw [stepSpec_eq]
  refine Holds.bind (Holds.and_returns (readOpcode_holds hs hup hfits h hin)
    (readOpcode_returns ctx)) ?_ (fun _ _ => trivial)
  rintro r t ht ⟨hanswer, hctx⟩
  cases r with
  | error status =>
      refine Holds.pure ht (hanswer.imp_right fun hnone => ?_)
      rw [hnone]
      rfl
  | ok r =>
      obtain ⟨opcode, ctx'⟩ := r
      obtain ⟨q, hq, hopcode, hbetween⟩ := hanswer
      dsimp only at hopcode hbetween
      subst hopcode
      have hkept : ctx' = { ctx with patchPosition := ctx'.patchPosition } := hctx
      rw [hq, Option.bind_some]
      refine Holds.bind (Holds.and_returns (applyOperation_holds ht hup hfits hbetween q.1)
        (applyOperation_returns q.1 ctx')) ?_ (fun _ _ => trivial)
      rintro r u hu ⟨hanswer, hcounted⟩
      cases r with
      | error status => exact Holds.pure hu hanswer
      | ok ctx'' =>
          obtain ⟨q', hq', htracks, hwithin, hahead⟩ := hanswer
          refine Holds.pure hu ⟨q', hq', ⟨⟨htracks.position, htracks.target, htracks.bounded,
            htracks.working⟩, hwithin, hahead⟩, ?_⟩
          obtain ⟨⟨operation, rest'⟩, hdecode, happly⟩ := Option.bind_eq_some_iff.1 hq'
          obtain ⟨st', hst, rfl⟩ := Option.map_eq_some_iff.1 happly
          have hnext : JojoDiff.decodeNext rest = some (operation, rest') := by
            rw [JojoDiff.decodeNext, hq, Option.bind_some, hdecode]
          have hcount := counted_eq hdecode hst hbetween.tracks.position hbetween.tracks.target
            htracks.position htracks.target
          have htally : ctx'.tally = ctx.tally := by rw [hkept]; rfl
          rw [htally] at hcount
          rw [JojoDiff.tally_next hnext, ← hcount]
          have hoperations : ctx''.operationCount = ctx'.operationCount :=
            congrArg Tally.operations hcounted
          have hbumped : Context.tally { ctx'' with operationCount := ctx''.operationCount + 1 } =
              { ctx''.tally with operations := ctx'.operationCount + 1 } := by
            rw [← hoperations]
            rfl
          rw [hbumped, show ctx''.tally = counted q.1 ctx' ctx'' from hcounted]

/-- The target a stream produces, if it produces one of exactly the wanted size. -/
def targetOf (stream : Stream) (source patch : List UInt8) : Option (List UInt8) :=
  ((JojoDiff.run source stream.targetImageSize patch ⟨0, []⟩).map Progress.output).filter
    fun output => output.length = stream.targetImageSize

/-- The patcher on an erased target produces what the stream means. -/
theorem applyStream_holds (hs : Env μ up s) (hup : μ.Usable up) (hfits : stream.Fits)
    (hsizes : ¬ (stream.baseImageSize = 0 ∨ stream.patchSize = 0 ∨ stream.targetImageSize = 0))
    (h : Working stream source patch [] s.device) :
    Holds μ up (applyStream stream s)
      (Answers μ (targetOf stream source patch) fun ctx output d =>
        Working stream source patch output d ∧ ctx.patchPosition = stream.patchSize ∧
          ctx.targetPosition = stream.targetImageSize ∧
          ctx.tally = JojoDiff.tally Context.start.tally patch)
      (fun _ => True) := by
  have hlength := h.patch_length
  unfold applyStream
  rw [if_neg hsizes]
  refine Holds.loopThen (I := fun ctx d => ∃ st,
      Between stream source patch ctx st (patch.drop ctx.patchPosition) d ∧
      JojoDiff.run source stream.targetImageSize patch ⟨0, []⟩ =
        JojoDiff.run source stream.targetImageSize (patch.drop ctx.patchPosition) st ∧
      JojoDiff.tally ctx.tally (patch.drop ctx.patchPosition) =
        JojoDiff.tally Context.start.tally patch)
    (fun ctx => (patch.drop ctx.patchPosition).length) ?_ ?_ ?_ hs
    (by rw [List.length_drop]; omega) ?_
  · intro ctx d hguard _
    simp only [decide_eq_true_eq] at hguard
    rw [List.length_drop]
    omega
  · rintro ctx t ht hguard ⟨st, hbetween, hrun, htally⟩
    simp only [decide_eq_true_eq] at hguard
    have hne : patch.drop ctx.patchPosition ≠ [] := by
      rw [Ne, List.drop_eq_nil_iff]
      omega
    rw [run_eq_step hne] at hrun
    refine Holds.bind (applyStep_holds ht hup hfits hbetween hguard) ?_ (fun _ _ => trivial)
    intro r u hu hanswer
    cases r with
    | error status =>
        refine Holds.pure hu (hanswer.imp_right fun hnone => ?_)
        rw [targetOf, hrun, hnone]
        rfl
    | ok ctx' =>
        obtain ⟨q, hq, hbetween', hcount⟩ := hanswer
        have hshorter := stepSpec_length hq
        rw [hq, Option.bind_some, ← hbetween'.ahead] at hrun
        rw [← hbetween'.ahead] at hshorter hcount
        exact Holds.pure hu ⟨⟨q.1, ⟨hbetween'.tracks, hbetween'.within, rfl⟩, hrun,
          hcount.trans htally⟩, hshorter⟩
  · rintro ctx t ht hguard ⟨st, ⟨htracks, hwithin, -⟩, hrun, htally⟩
    simp only [decide_eq_false_iff_not, not_lt] at hguard
    rw [List.drop_eq_nil_of_le (by omega), JojoDiff.run_nil] at hrun
    rw [List.drop_eq_nil_of_le (by omega), JojoDiff.tally_nil] at htally
    have htarget := htracks.target
    split
    · next hshort =>
        refine Holds.pure ht (.inr ?_)
        rw [targetOf, hrun, Option.map_some, Option.filter_some, if_neg]
        rw [decide_eq_true_eq]
        omega
    · next hfull =>
        refine Holds.pure ht ⟨st.output, ?_, htracks.working, by omega, not_not.1 hfull, htally⟩
        rw [targetOf, hrun, Option.map_some, Option.filter_some, if_pos]
        rw [decide_eq_true_eq]
        omega
  · exact ⟨⟨0, []⟩, ⟨⟨rfl, rfl, Nat.zero_le _, h⟩, Nat.zero_le _, rfl⟩, rfl, rfl⟩

end Refinement

end JanpatchPort

end SecureDeltaOta
