import SecureDeltaOta.Boot.JanpatchMeaning
import SecureDeltaOta.Patch.JojoDiffPatch

/-!
# The patchers agree

The patcher of the device and the patch tool read the same stream in different
ways: the one peeks and buffers, the other rewinds an index. Both compute what
the stream means, so they agree wherever no length field encodes zero, which
only the tool accepts.
-/

namespace SecureDeltaOta

open Memory Crash

namespace JojoDiffPatch

open JojoDiff
open JanpatchPort (operationSpec stepSpec stepSpec_eq run_eq_step literalOperation)

variable {source patch : List UInt8} {st : Applicator}

/-- The progress that the variables of the tool stand for. -/
abbrev Applicator.progress (st : Applicator) : Progress := ⟨st.sourcePos, st.target⟩

/-- A round of the tool does what the stream says, for every target that has room for it. -/
def Reads (source patch : List UInt8) (st : Applicator)
    (spec : Nat → Option (Progress × List UInt8)) : Except Error Applicator → Prop
  | .error _ => ∀ limit, spec limit = none
  | .ok st' => st'.patchPos ≤ patch.length ∧ st'.sourcePos ≤ source.length ∧
      st.target.length ≤ st'.target.length ∧
      ∀ limit, st.target.length ≤ limit →
        spec limit =
          if st'.target.length ≤ limit then some (st'.progress, patch.drop st'.patchPos) else none

theorem applyData_reads {patchPos : Nat} (hstart : patchPos ≤ patch.length)
    (hsource : st.sourcePos ≤ source.length) (replaces : Bool) (message : String) :
    Reads source patch st
      (fun limit => ((literalOperation replaces (scanLiteral (patch.drop patchPos)).1).apply source
        limit st.progress).map fun st' => (st', (scanLiteral (patch.drop patchPos)).2))
      (applyData source patch st patchPos replaces message) := by
  obtain ⟨hdata, hrest, hend⟩ := copyLiteral_spec patch patchPos [] hstart
  rw [List.nil_append] at hdata
  unfold applyData
  dsimp only
  rw [← hdata, ← hrest]
  cases replaces with
  | true =>
      rw [if_pos rfl]
      split
      · next hout =>
          intro limit
          simp only [literalOperation, if_true, Operation.apply]
          rw [if_neg (by omega)]
          rfl
      · next hfits =>
          refine ⟨hend, by dsimp only; omega, by simp, fun limit _ => ?_⟩
          simp only [literalOperation, if_true, Operation.apply, Applicator.progress,
            List.length_append]
          by_cases hroom : st.target.length + (copyLiteral patch patchPos []).1.length ≤ limit
          · rw [if_pos ⟨by omega, hroom⟩, if_pos hroom]
            rfl
          · rw [if_neg fun h => hroom h.2, if_neg hroom]
            rfl
  | false =>
      rw [if_neg Bool.false_ne_true]
      refine ⟨hend, hsource, by simp, fun limit _ => ?_⟩
      simp only [literalOperation, Bool.false_eq_true, if_false, Operation.apply,
        Applicator.progress, List.length_append]
      by_cases hroom : st.target.length + (copyLiteral patch patchPos []).1.length ≤ limit
      · rw [if_pos hroom, if_pos hroom]
        rfl
      · rw [if_neg hroom, if_neg hroom]
        rfl

/-- An operation with a length: the field is read, and the rest depends on it. -/
theorem length_reads {behind : Nat} {f : Nat × Nat → Except Error Applicator}
    {operation : Nat → Operation}
    (hzero : ∀ length offset, decodeLength patch behind = .ok (length, offset) → length ≠ 0)
    (hf : ∀ length offset, offset ≤ patch.length →
      Reads source patch st (fun limit => ((operation length).apply source limit st.progress).map
        fun st' => (st', patch.drop offset)) (f (length, offset))) :
    Reads source patch st
      (fun limit => ((readLength (patch.drop behind)).map fun r => (operation r.1, r.2)).bind
        fun q => (q.1.apply source limit st.progress).map fun st' => (st', q.2))
      (decodeLength patch behind >>= f) := by
  have hread := decodeLength_spec patch behind
  cases hdecode : decodeLength patch behind with
  | error error =>
      rw [hdecode] at hread
      intro limit
      have hnone : readLength (patch.drop behind) = none := hread
      rw [hnone]
      rfl
  | ok r =>
      obtain ⟨length, offset⟩ := r
      rw [hdecode] at hread
      obtain ⟨-, hend, hfield⟩ := hread
      rw [if_neg (hzero length offset hdecode)] at hfield
      simp only [hfield, Option.map_some, Option.bind_some]
      exact hf length offset hend

theorem equal_reads {length offset : Nat} (hend : offset ≤ patch.length) (message : String) :
    Reads source patch st
      (fun limit => ((Operation.equal length).apply source limit st.progress).map
        fun st' => (st', patch.drop offset))
      (if st.sourcePos + length > source.length then throw (.format message)
        else pure ⟨st.sourcePos + length, offset,
          st.target ++ (source.take (st.sourcePos + length)).drop st.sourcePos⟩) := by
  split
  · next hout =>
      intro limit
      simp only [Operation.apply]
      rw [if_neg (by omega)]
      rfl
  · next hfits =>
      have hcopy : (source.take (st.sourcePos + length)).drop st.sourcePos =
          (source.drop st.sourcePos).take length := by
        rw [List.drop_take, Nat.add_sub_cancel_left]
      have hlength : ((source.drop st.sourcePos).take length).length = length := by
        rw [List.length_take, List.length_drop]
        omega
      rw [hcopy]
      refine ⟨hend, by dsimp only; omega, by simp, fun limit _ => ?_⟩
      simp only [Operation.apply, Applicator.progress, List.length_append, hlength]
      by_cases hroom : st.target.length + length ≤ limit
      · rw [if_pos ⟨by omega, hroom⟩, if_pos hroom]
        rfl
      · rw [if_neg fun h => hroom h.2, if_neg hroom]
        rfl

theorem delete_reads {length offset : Nat} (hend : offset ≤ patch.length) (message : String) :
    Reads source patch st
      (fun limit => ((Operation.delete length).apply source limit st.progress).map
        fun st' => (st', patch.drop offset))
      (if st.sourcePos + length > source.length then throw (.format message)
        else pure { st with sourcePos := st.sourcePos + length, patchPos := offset }) := by
  split
  · next hout =>
      intro limit
      simp only [Operation.apply]
      rw [if_neg (by omega)]
      rfl
  · next hfits =>
      refine ⟨hend, by dsimp only; omega, le_rfl, fun limit hroom => ?_⟩
      simp only [Operation.apply, Applicator.progress]
      rw [if_pos (by omega), if_pos hroom]
      rfl

theorem backtrack_reads (hsource : st.sourcePos ≤ source.length) {length offset : Nat}
    (hend : offset ≤ patch.length) (message : String) :
    Reads source patch st
      (fun limit => ((Operation.backtrack length).apply source limit st.progress).map
        fun st' => (st', patch.drop offset))
      (if length > st.sourcePos then throw (.format message)
        else pure { st with sourcePos := st.sourcePos - length, patchPos := offset }) := by
  split
  · next hout =>
      intro limit
      simp only [Operation.apply]
      rw [if_neg (by omega)]
      rfl
  · next hfits =>
      refine ⟨hend, by dsimp only; omega, le_rfl, fun limit hroom => ?_⟩
      simp only [Operation.apply, Applicator.progress]
      rw [if_pos (by omega), if_pos hroom]
      rfl

/-- The opcode that the stream has where the tool stands. -/
theorem nextOpcode_reads (hin : st.patchPos < patch.length) :
    (∃ error, nextOpcode patch st.patchPos = .error error) ∧
        decodeOpcode (patch.drop st.patchPos) = none ∨
      (∃ opcode, nextOpcode patch st.patchPos = .ok (opcode, st.patchPos + 2) ∧
        st.patchPos + 2 ≤ patch.length ∧ isOpcode opcode = true ∧
        decodeOpcode (patch.drop st.patchPos) = some (opcode, patch.drop (st.patchPos + 2))) ∨
      (∃ opcode, nextOpcode patch st.patchPos = .ok (opcode, st.patchPos + 2) ∧
        isOpcode opcode = false ∧
        decodeOpcode (patch.drop st.patchPos) = some (jdiffMod, patch.drop st.patchPos)) ∨
      nextOpcode patch st.patchPos = .ok (jdiffMod, st.patchPos) ∧
        decodeOpcode (patch.drop st.patchPos) = some (jdiffMod, patch.drop st.patchPos) := by
  unfold nextOpcode
  rw [drop_eq_cons hin]
  dsimp only [decodeOpcode]
  generalize patch.getD st.patchPos 0 = first
  by_cases hesc : first = jdiffEsc
  · rw [if_pos hesc, if_neg (not_not.2 hesc)]
    by_cases hend : st.patchPos + 1 ≥ patch.length
    · rw [if_pos hend, List.drop_eq_nil_of_le hend]
      exact .inl ⟨⟨_, rfl⟩, rfl⟩
    · rw [if_neg hend, drop_eq_cons (show st.patchPos + 1 < patch.length by omega)]
      dsimp only
      cases hopcode : isOpcode (patch.getD (st.patchPos + 1) 0) with
      | true => exact .inr (.inl ⟨_, rfl, by omega, hopcode, rfl⟩)
      | false => exact .inr (.inr (.inl ⟨_, rfl, hopcode, rfl⟩))
  · rw [if_neg hesc, if_pos hesc]
    exact .inr (.inr (.inr ⟨rfl, rfl⟩))

/-- A round of the tool, if the length field it meets is not zero. -/
theorem applyStep_reads (hin : st.patchPos < patch.length) (hsource : st.sourcePos ≤ source.length)
    (hzero : lengthField patch st.patchPos ≠ some 0) :
    Reads source patch st
      (fun limit => stepSpec source limit st.progress (patch.drop st.patchPos))
      (applyStep source patch st) := by
  simp only [stepSpec_eq]
  unfold applyStep
  rcases nextOpcode_reads hin with ⟨⟨error, herror⟩, hnone⟩ | ⟨opcode, hopcode, hend, his, hdecode⟩ |
    ⟨opcode, hopcode, hnot, hdecode⟩ | ⟨hopcode, hdecode⟩
  · rw [herror, hnone]
    exact fun _ => rfl
  · rw [hopcode, hdecode]
    have hfield (hop : opcode = jdiffEql ∨ opcode = jdiffDel ∨ opcode = jdiffBkt) (length offset : Nat)
        (h : decodeLength patch (st.patchPos + 2) = .ok (length, offset)) : length ≠ 0 := by
      rintro rfl
      refine hzero ?_
      unfold lengthField
      rw [hopcode]
      dsimp only
      rw [if_pos hop, h]
    have hcases : opcode = jdiffMod ∨ opcode = jdiffIns ∨ opcode = jdiffDel ∨ opcode = jdiffEql ∨
        opcode = jdiffBkt := by
      simpa [isOpcode, or_assoc] using his
    rcases hcases with rfl | rfl | rfl | rfl | rfl
    · exact applyData_reads hend hsource true _
    · exact applyData_reads hend hsource false "MOD reads beyond source"
    · exact length_reads (hfield (.inr (.inl rfl))) fun _ _ hend => delete_reads hend _
    · exact length_reads (hfield (.inl rfl)) fun _ _ hend => equal_reads hend _
    · exact length_reads (hfield (.inr (.inr rfl))) fun _ _ hend => backtrack_reads hsource hend _
  · rw [hopcode, hdecode]
    have hother : opcode ≠ jdiffEql ∧ opcode ≠ jdiffDel ∧ opcode ≠ jdiffBkt ∧
        ¬ (opcode = jdiffMod ∨ opcode = jdiffIns) := by
      refine ⟨?_, ?_, ?_, ?_⟩ <;> rintro h <;> simp_all [isOpcode]
    change Reads _ _ _ _ (if opcode = jdiffEql then _ else _)
    rw [if_neg hother.1, if_neg hother.2.1, if_neg hother.2.2.1, if_neg hother.2.2.2,
      Nat.add_sub_cancel]
    exact applyData_reads hin.le hsource true _
  · rw [hopcode, hdecode]
    exact applyData_reads hin.le hsource true _

/-- The loop of the tool in terms of its first round. -/
theorem applyLoop_step (hin : st.patchPos < patch.length) :
    applyLoop source patch st = applyStep source patch st >>= applyLoop source patch := by
  rw [applyLoop, dif_pos hin]
  split
  · next error h => exact (congrArg (· >>= applyLoop source patch) h).symm
  · next st' h => exact (congrArg (· >>= applyLoop source patch) h).symm

theorem lengthsMet_field (hin : st.patchPos < patch.length) {length : Nat}
    (h : lengthField patch st.patchPos = some length) : length ∈ lengthsMet source patch st := by
  rw [lengthsMet, dif_pos hin, h]
  exact List.mem_append_left _ (List.mem_singleton_self length)

theorem lengthsMet_step (hin : st.patchPos < patch.length) {st' : Applicator}
    (hstep : applyStep source patch st = .ok st') {length : Nat}
    (h : length ∈ lengthsMet source patch st') : length ∈ lengthsMet source patch st := by
  rw [lengthsMet, dif_pos hin]
  refine List.mem_append_right _ ?_
  split
  · next herror => rw [hstep] at herror; cases herror
  · next hok =>
      rw [hstep] at hok
      cases hok
      exact h

/-- The target only grows, and the tool computes what the stream means if there is room. -/
theorem applyLoop_reads (limit : Nat) (st : Applicator) (hpatch : st.patchPos ≤ patch.length)
    (hsource : st.sourcePos ≤ source.length)
    (hzero : ∀ length ∈ lengthsMet source patch st, length ≠ 0) (t : List UInt8) :
    (applyLoop source patch st = .ok t → st.target.length ≤ t.length) ∧
      (st.target.length ≤ limit →
        (applyLoop source patch st = .ok t ∧ t.length ≤ limit ↔
          (run source limit (patch.drop st.patchPos) st.progress).map Progress.output =
            some t)) := by
  -- by induction on what is left of the patch
  induction hleft : patch.length - st.patchPos using Nat.strong_induction_on generalizing st with
  | _ left ih =>
      by_cases hin : st.patchPos < patch.length
      swap
      · have hnil : patch.drop st.patchPos = [] := List.drop_eq_nil_of_le (by omega)
        rw [applyLoop, dif_neg hin, hnil, run_nil]
        refine ⟨fun h => by cases h; exact le_rfl, fun hroom => ?_⟩
        simp only [Except.ok.injEq, Option.map_some, Option.some.injEq]
        exact ⟨fun h => h.1, fun h => ⟨h, h ▸ hroom⟩⟩
      have hne : patch.drop st.patchPos ≠ [] := by
        rw [Ne, List.drop_eq_nil_iff]
        omega
      have hreads := applyStep_reads hin hsource fun hfield =>
        hzero 0 (lengthsMet_field hin hfield) rfl
      rw [applyLoop_step hin, run_eq_step hne]
      cases hstep : applyStep source patch st with
      | error error =>
          rw [hstep] at hreads
          have hnone : stepSpec source limit st.progress (patch.drop st.patchPos) = none :=
            hreads limit
          rw [hnone]
          exact ⟨nofun, fun _ => ⟨nofun, nofun⟩⟩
      | ok st' =>
          rw [hstep] at hreads
          obtain ⟨hpatch', hsource', hgrow, hspec⟩ := hreads
          have hmore := applyStep_progress hin hstep
          obtain ⟨hlength, hrest⟩ := ih (patch.length - st'.patchPos) (by omega) st' hpatch' hsource'
            (fun length h => hzero length (lengthsMet_step hin hstep h)) rfl
          refine ⟨fun h => hgrow.trans (hlength h), fun hroom => ?_⟩
          have hspec' : stepSpec source limit st.progress (patch.drop st.patchPos) = _ :=
            hspec limit hroom
          by_cases hfits : st'.target.length ≤ limit
          · rw [hspec', if_pos hfits, Option.bind_some]
            exact hrest hfits
          · rw [hspec', if_neg hfits]
            refine ⟨fun h => absurd ((hlength h.1).trans h.2) hfits, nofun⟩

end JojoDiffPatch

/-! ## The device -/

/-- The mode of a machine whose flash works and that keeps its power. -/
def calm (s : Machine) : Mode where
  cuts := false
  tornPrograms := false
  externalFaults := false
  atomicCommit := s.atomicCommit
  writer := s.writer

theorem env_calm {s : Machine} (hready : s.spi.initialized = true)
    (hworks : ∀ o ∈ s.script, o = .ok) : Env (calm s) true s where
  admits o ho := by
    rw [hworks o ho]
    exact trivial
  initialized _ := hready
  atomicCommit := rfl
  writer := rfl

theorem targetOf_eq_some {stream : JanpatchPort.Stream} {source patch t : List UInt8} :
    JanpatchPort.targetOf stream source patch = some t ↔
      (JojoDiff.run source stream.targetImageSize patch ⟨0, []⟩).map JojoDiff.Progress.output =
        some t ∧ t.length = stream.targetImageSize := by
  rw [JanpatchPort.targetOf, Option.filter_eq_some_iff]
  simp

/-- On working flash the patcher answers with the target that the stream means. -/
theorem applyStream_calm {source patch : List UInt8} {patchOffset targetSize : Nat} {s : Machine}
    (hsource : source ≠ [] ∧ source.length ≤ 38912)
    (hpatch : patch ≠ [] ∧ patchOffset + patch.length ≤ ExternalPartition.incoming.size)
    (htarget : 1 ≤ targetSize ∧ targetSize ≤ 38912)
    (hready : s.spi.initialized = true) (hworks : ∀ o ∈ s.script, o = .ok)
    (hbase : window s.device.app 0 source.length = source)
    (hincoming : s.device.slice .incoming patchOffset patch.length = patch)
    (herased : ∀ i < ExternalPartition.reconstructed.size,
      s.device.part .reconstructed i = 0xFF) :
    ∃ r s', JanpatchPort.applyStream ⟨source.length, patchOffset, patch.length, targetSize⟩ s =
        .done r s' ∧
      OutsideFrame ExternalPartition.reconstructed.address
        (ExternalPartition.reconstructed.address + targetSize) s.device s'.device ∧
      match r with
      | .ok ctx =>
          (JojoDiff.run source targetSize patch ⟨0, []⟩).map JojoDiff.Progress.output =
              some (s'.device.slice .reconstructed 0 targetSize) ∧
            ctx.patchPosition = patch.length ∧
            ctx.tally = JojoDiff.tally JanpatchPort.Context.start.tally patch
      | .error _ => ∀ t, t.length = targetSize →
          (JojoDiff.run source targetSize patch ⟨0, []⟩).map JojoDiff.Progress.output ≠ some t := by
  generalize hstream : (⟨source.length, patchOffset, patch.length, targetSize⟩ :
    JanpatchPort.Stream) = stream
  have hsize : stream.targetImageSize = targetSize := hstream ▸ rfl
  have hpatchSize : stream.patchSize = patch.length := hstream ▸ rfl
  have hreconstructed : 38912 ≤ ExternalPartition.reconstructed.size := by decide
  have hfits : stream.Fits := by
    subst hstream
    exact ⟨hsource.2, hpatch.2, by dsimp only; omega⟩
  have hsizes : ¬ (stream.baseImageSize = 0 ∨ stream.patchSize = 0 ∨
      stream.targetImageSize = 0) := by
    subst hstream
    simp only [List.length_eq_zero_iff, hsource.1, hpatch.1, false_or]
    omega
  have hworking : JanpatchPort.Working stream source patch [] s.device := by
    subst hstream
    exact ⟨hincoming, hbase, Nat.zero_le _, rfl, fun i _ hi => herased i (by dsimp only at hi; omega)⟩
  have hallows : JanpatchPort.AllowsTarget stream (OutsideFrame
      ExternalPartition.reconstructed.address
      (ExternalPartition.reconstructed.address + targetSize)) :=
    allows_outsideFrame le_rfl (by omega)
  have hholds := (JanpatchPort.applyStream_holds (env_calm hready hworks) (.inl rfl) hfits hsizes
    hworking).and_keeps (JanpatchPort.applyStream_keeps hallows)
  obtain ⟨r, s', hdone, -, hanswer, hframe⟩ := hholds.exists_done rfl
  refine ⟨r, s', hdone, hframe, ?_⟩
  cases r with
  | ok ctx =>
      obtain ⟨output, hmeaning, hworked, hread, -, htally⟩ := hanswer
      rw [targetOf_eq_some, hsize] at hmeaning
      refine ⟨?_, hread.trans hpatchSize, htally⟩
      rw [hmeaning.1, ← hmeaning.2, hworked.written]
  | error status =>
      intro t hlength hrun
      rw [← hsize] at hrun hlength
      have hsome := targetOf_eq_some.2 ⟨hrun, hlength⟩
      rw [hanswer.resolve_left Bool.false_ne_true] at hsome
      cases hsome

/--
On working flash and an erased target the device and the tool produce the same: the device
succeeds with `t` exactly if the tool returns `t` and `t` has the wanted size, for every
stream in which no length field encodes zero.
-/
theorem patchers_agree (source patch : List UInt8) (patchOffset targetSize : Nat)
    (hsource : source ≠ [] ∧ source.length ≤ 38912)
    (hpatch : patch ≠ [] ∧ patchOffset + patch.length ≤ ExternalPartition.incoming.size)
    (htarget : 1 ≤ targetSize ∧ targetSize ≤ 38912)
    (hzero : ∀ length ∈ JojoDiffPatch.lengthsMet source patch {}, length ≠ 0)
    (s : Machine) (hready : s.spi.initialized = true) (hworks : ∀ o ∈ s.script, o = .ok)
    (hbase : window s.device.app 0 source.length = source)
    (hincoming : s.device.slice .incoming patchOffset patch.length = patch)
    (herased : ∀ i < ExternalPartition.reconstructed.size,
      s.device.part .reconstructed i = 0xFF) (t : List UInt8) :
    (∃ result s', JanpatchPort.applyStream
        ⟨source.length, patchOffset, patch.length, targetSize⟩ s = .done (.ok result) s' ∧
        s'.device.slice .reconstructed 0 targetSize = t) ↔
      JojoDiffPatch.applyPatch source patch = .ok t ∧ t.length = targetSize := by
  obtain ⟨r, s', hdone, -, hanswer⟩ := applyStream_calm hsource hpatch htarget hready hworks hbase
    hincoming herased
  have htool := (JojoDiffPatch.applyLoop_reads targetSize {} (Nat.zero_le _) (Nat.zero_le _) hzero
    t).2 (Nat.zero_le _)
  have hmeaning : JojoDiffPatch.applyPatch source patch = .ok t ∧ t.length = targetSize ↔
      (JojoDiff.run source targetSize patch ⟨0, []⟩).map JojoDiff.Progress.output = some t ∧
        t.length = targetSize := by
    constructor
    · rintro ⟨hok, hlength⟩
      exact ⟨htool.1 ⟨hok, hlength.le⟩, hlength⟩
    · rintro ⟨hrun, hlength⟩
      exact ⟨(htool.2 hrun).1, hlength⟩
  rw [hmeaning, hdone]
  constructor
  · rintro ⟨ctx, u, hok, hslice⟩
    cases hok
    have hlength : (s'.device.slice .reconstructed 0 targetSize).length = targetSize :=
      window_length _ _ _
    exact ⟨hslice ▸ hanswer.1, hslice ▸ hlength⟩
  · rintro ⟨hrun, hlength⟩
    cases r with
    | error status => exact absurd hrun (hanswer t hlength)
    | ok ctx =>
        rw [hanswer.1, Option.some.injEq] at hrun
        exact ⟨ctx, s', rfl, hrun⟩

/-- One byte is copied from the source. -/
theorem patchers_agree_copy :
    ∃ result s', JanpatchPort.applyStream ⟨1, 140, 3, 1⟩
        ⟨⟨fun _ => 1, fun a => [0xA7, 0xA3, 0].getD (a - 0x208C) 0xFF, []⟩, ⟨true, .ok⟩, [], false,
          .bootloader⟩ = .done (.ok result) s' ∧
      s'.device.slice .reconstructed 0 1 = [1] := by
  refine (patchers_agree [1] [0xA7, 0xA3, 0] 140 1 (by decide) (by decide) (by decide)
    (by decide +kernel) ⟨⟨fun _ => 1, fun a => [0xA7, 0xA3, 0].getD (a - 0x208C) 0xFF, []⟩,
      ⟨true, .ok⟩, [], false, .bootloader⟩ rfl (fun _ h => nomatch h) rfl rfl
    (fun i _ => ?_) [1]).2 ⟨by decide +kernel, rfl⟩
  have haddress : ExternalPartition.reconstructed.address = 0x22000 := rfl
  dsimp only [Device.part]
  rw [List.getD_eq_default]
  simp only [List.length_cons, List.length_nil]
  omega

end SecureDeltaOta
