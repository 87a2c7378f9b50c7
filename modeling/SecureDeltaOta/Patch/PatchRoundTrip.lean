import SecureDeltaOta.Patch.PatchAgreement

/-!
# The patcher inverts the patch generator

The generator writes a list of operations. Each is decoded from its bytes again,
because whatever follows it is the escape of another operation, and carrying out
the list on the source gives the target.
-/

namespace SecureDeltaOta

open Memory Crash

namespace JojoDiffPatch

open JojoDiff

/-! ## What is written is read back -/

theorem toNat_toUInt8 {n : Nat} (h : n < 256) : n.toUInt8.toNat = n :=
  UInt8.toNat_ofNat_of_lt' h

theorem readLength_encodeLength {length : Nat} {payload : List UInt8}
    (h : encodeLength length = .ok payload) (rest : List UInt8) :
    readLength (payload ++ rest) = some (length, rest) := by
  unfold encodeLength at h
  split_ifs at h with hzero hone htwo hthree hfour <;> cases h
  · have hbyte : (length - 1).toUInt8.toNat = length - 1 := toNat_toUInt8 (by omega)
    have hle : (length - 1).toUInt8 ≤ 251 := by
      rw [UInt8.le_iff_toNat_le, hbyte]
      exact Nat.sub_le_of_le_add hone
    dsimp only [List.cons_append, List.nil_append, readLength]
    rw [if_pos hle, hbyte, Nat.sub_add_cancel (by omega)]
  · have hbyte : (length - 253).toUInt8.toNat = length - 253 :=
      toNat_toUInt8 (by omega)
    dsimp only [List.cons_append, List.nil_append, readLength]
    rw [if_neg (by decide), if_pos rfl, hbyte, Nat.add_sub_cancel' (by omega)]
  · have hhigh : (length >>> 8 &&& 0xFF).toUInt8.toNat = length / 256 := by
      rw [Nat.shiftRight_eq_div_pow, Nat.and_two_pow_sub_one_eq_mod _ 8, toNat_toUInt8 (by omega)]
      omega
    have hlow : (length &&& 0xFF).toUInt8.toNat = length % 256 := by
      rw [Nat.and_two_pow_sub_one_eq_mod _ 8, toNat_toUInt8 (by omega)]
    dsimp only [List.cons_append, List.nil_append, readLength]
    rw [if_neg (by decide), if_neg (by decide), if_pos (.inl rfl), if_pos rfl]
    dsimp only [readBigEndian]
    rw [hhigh, hlow, Option.filter_some, if_pos (by rw [decide_eq_true_eq]; omega)]
    congr 2
    omega
  · have hvalue : fromBytesBig ((Python.leBytes 4 length).reverse) = length := by
      rw [fromBytesBig, List.reverse_reverse, Python.leValue_leBytes]
      omega
    have hlength : ((Python.leBytes 4 length).reverse).length = 4 := by simp
    dsimp only [List.cons_append, readLength]
    rw [if_neg (by decide), if_neg (by decide), if_pos (.inr rfl), if_neg (by decide),
      readBigEndian_eq, if_pos (by simp), List.take_left' hlength, List.drop_left' hlength, hvalue,
      Option.filter_some, if_pos (by rw [decide_eq_true_eq]; omega), Nat.zero_mul, Nat.zero_add]

/-- Nothing, or an operation: what can follow an operation. -/
def Follows : List UInt8 → Prop
  | [] => True
  | [_] => False
  | first :: second :: _ => first = jdiffEsc ∧ isOpcode second = true

theorem scanLiteral_follows {rest : List UInt8} (h : Follows rest) :
    scanLiteral rest = ([], rest) := by
  match rest, h with
  | [], _ => exact scanLiteral_nil
  | _ :: _ :: _, ⟨rfl, hopcode⟩ => exact scanLiteral_opcode hopcode _

theorem escapeData_cons (byte : UInt8) (data : List UInt8) :
    escapeData (byte :: data) =
      (if byte = jdiffEsc then [jdiffEsc, jdiffEsc] else [byte]) ++ escapeData data :=
  List.flatMap_cons ..

theorem scanLiteral_escapeData (data : List UInt8) {rest : List UInt8} (h : Follows rest) :
    scanLiteral (escapeData data ++ rest) = (data, rest) := by
  induction data with
  | nil => exact scanLiteral_follows h
  | cons byte data ih =>
      rw [escapeData_cons]
      by_cases hesc : byte = jdiffEsc
      · rw [if_pos hesc, hesc, List.append_assoc]
        dsimp only [List.cons_append, List.nil_append]
        rw [scanLiteral_escaped, ih]
      · rw [if_neg hesc, List.append_assoc]
        dsimp only [List.cons_append, List.nil_append]
        rw [scanLiteral_plain hesc, ih]

/-- The bytes hold the operations, one after the other. -/
inductive Encodes : List UInt8 → List Operation → Prop
  | nil : Encodes [] []
  | cons {bytes rest : List UInt8} {operation : Operation} {operations : List Operation}
      (head : ∀ more, Follows more → Follows (bytes ++ more) ∧
        decodeNext (bytes ++ more) = some (operation, more))
      (tail : Encodes rest operations) : Encodes (bytes ++ rest) (operation :: operations)

theorem Encodes.follows {bytes : List UInt8} {operations : List Operation}
    (h : Encodes bytes operations) : Follows bytes := by
  induction h with
  | nil => exact trivial
  | cons head _ ih => exact (head _ ih).1

theorem Encodes.append {bytes bytes' : List UInt8} {operations operations' : List Operation}
    (h : Encodes bytes operations) (h' : Encodes bytes' operations') :
    Encodes (bytes ++ bytes') (operations ++ operations') := by
  induction h with
  | nil => exact h'
  | cons head _ ih =>
      rw [List.append_assoc]
      exact .cons head ih

/-- The effect of a list of operations. -/
def applyAll (source : List UInt8) (limit : Nat) (st : Progress) (operations : List Operation) :
    Option Progress :=
  operations.foldlM (fun st operation => operation.apply source limit st) st

theorem run_encoded {source bytes : List UInt8} {operations : List Operation}
    (h : Encodes bytes operations) (limit : Nat) (st : Progress) :
    run source limit bytes st = applyAll source limit st operations := by
  induction h generalizing st with
  | nil => exact run_nil ..
  | cons head tail ih =>
      rw [run_next (head _ tail.follows).2]
      exact congrArg _ (funext ih)

theorem tally_encoded {bytes : List UInt8} {operations : List Operation}
    (h : Encodes bytes operations) (t : Tally) :
    tally t bytes = operations.foldl Operation.count t := by
  induction h generalizing t with
  | nil => exact tally_nil t
  | cons head tail ih =>
      rw [tally_next (head _ tail.follows).2]
      exact ih _

/-- An operation is decoded if its opcode and what follows it are. -/
theorem encodes_op {opcode : UInt8} {payload bytes : List UInt8} {operation : Operation}
    (hemit : emitOp opcode payload = .ok bytes)
    (hdecode : ∀ more, Follows more →
      decodeOperation opcode (payload ++ more) = some (operation, more)) :
    Encodes bytes [operation] := by
  unfold emitOp at hemit
  split_ifs at hemit with hopcode
  cases hemit
  have his : isOpcode opcode = true := by simpa using hopcode
  rw [← List.append_nil ([jdiffEsc, opcode] ++ payload)]
  refine .cons (fun more hmore => ⟨⟨rfl, his⟩, ?_⟩) .nil
  simp only [List.cons_append, List.nil_append, decodeNext, decodeOpcode, ne_eq, not_true_eq_false,
    if_false, his, if_true, Option.bind_some]
  exact hdecode more hmore

/-- The operations that carry a length. -/
theorem emitLengthOp_spec {opcode : UInt8} {operation : Nat → Operation} {length : Nat}
    (hopcode : opcode = jdiffEql ∨ opcode = jdiffDel ∨ opcode = jdiffBkt)
    (hdecode : ∀ stream, decodeOperation opcode stream =
      (readLength stream).map fun r => (operation r.1, r.2))
    (hpositive : length ≠ 0) (hwide : length ≤ 0xFFFFFFFF) :
    ∃ bytes, emitLengthOp opcode length = .ok bytes ∧ Encodes bytes [operation length] := by
  obtain ⟨payload, hpayload⟩ : ∃ payload, encodeLength length = .ok payload := by
    unfold encodeLength
    rw [if_neg (by omega)]
    split_ifs <;> exact ⟨_, rfl⟩
  have his : isOpcode opcode = true := by rcases hopcode with rfl | rfl | rfl <;> rfl
  have hemit : emitLengthOp opcode length = emitOp opcode payload := by
    rw [emitLengthOp, if_neg (not_not.2 hopcode), hpayload]
  have hok : emitOp opcode payload = .ok ([jdiffEsc, opcode] ++ payload) := by
    rw [emitOp, his]
    rfl
  refine ⟨_, hemit.trans hok, encodes_op hok fun more _ => ?_⟩
  rw [hdecode, readLength_encodeLength hpayload]
  rfl

/-- The operations that carry data. -/
theorem emitDataOp_spec {opcode : UInt8} {operation : List UInt8 → Operation} {data : List UInt8}
    (hopcode : opcode = jdiffMod ∨ opcode = jdiffIns)
    (hdecode : ∀ stream, decodeOperation opcode stream =
      some (operation (scanLiteral stream).1, (scanLiteral stream).2))
    (hdata : data ≠ []) :
    ∃ bytes, emitDataOp opcode data = .ok bytes ∧ Encodes bytes [operation data] := by
  have his : isOpcode opcode = true := by rcases hopcode with rfl | rfl <;> rfl
  have hemit : emitDataOp opcode data = emitOp opcode (escapeData data) := by
    rw [emitDataOp, if_neg (not_not.2 hopcode), if_neg hdata]
  have hok : emitOp opcode (escapeData data) = .ok ([jdiffEsc, opcode] ++ escapeData data) := by
    rw [emitOp, his]
    rfl
  refine ⟨_, hemit.trans hok, encodes_op hok fun more hmore => ?_⟩
  rw [hdecode, scanLiteral_escapeData data hmore]

/-! ## The generator -/

/-- The statistics of the generator, on top of a tally. -/
def PatchStats.over (stats : PatchStats) (t : Tally) : Tally where
  operations := t.operations + stats.operations
  equal := t.equal + stats.equalBytes
  modified := t.modified + stats.modifiedBytes
  inserted := t.inserted + stats.insertedBytes
  deleted := t.deleted + stats.deletedBytes
  backward := t.backward

/-- What was written holds the operations, and they are counted. -/
structure Emitted.Holds (e : Emitted) (operations : List Operation) : Prop where
  encodes : Encodes e.output operations
  counts : ∀ t, operations.foldl Operation.count t = e.stats.over t

theorem emitted_start : Emitted.Holds {} [] :=
  ⟨.nil, fun _ => rfl⟩

/-- A stage of the generator that writes an operation under a condition. -/
theorem emitted_stage {e : Emitted} {operations : List Operation} (he : e.Holds operations)
    (c : Prop) [Decidable c] (op : Except Error (List UInt8)) (operation : Operation)
    (count : PatchStats → PatchStats)
    (hop : c → ∃ bytes, op = .ok bytes ∧ Encodes bytes [operation])
    (hcount : ∀ (stats : PatchStats) (t : Tally),
      (count { stats with operations := stats.operations + 1 }).over t =
        operation.count (stats.over t)) :
    ∃ e', (if c then e.append op count else .ok e) = .ok e' ∧
      e'.Holds (operations ++ if c then [operation] else []) := by
  by_cases h : c
  · obtain ⟨bytes, rfl, hbytes⟩ := hop h
    rw [if_pos h, if_pos h]
    refine ⟨_, rfl, he.encodes.append hbytes, fun t => ?_⟩
    rw [List.foldl_append, he.counts]
    exact (hcount e.stats t).symm
  · rw [if_neg h, if_neg h, List.append_nil]
    exact ⟨e, rfl, he⟩

/-- The operations that replace some bytes of the source by others. -/
def gapOperations (old new : List UInt8) : List Operation :=
  (if min old.length new.length ≠ 0 then [.modify (new.take (min old.length new.length))] else []) ++
    (if new.length > min old.length new.length then
      [.insert (new.drop (min old.length new.length))] else []) ++
    (if old.length > min old.length new.length then
      [.delete (old.length - min old.length new.length)] else [])

theorem emitGap_spec {source : List UInt8} (hsource : source.length ≤ 0xFFFFFFFF)
    (target : List UInt8) (sourceStart sourceEnd targetStart targetEnd : Nat) :
    ∃ e, emitGap source target sourceStart sourceEnd targetStart targetEnd = .ok e ∧
      e.Holds (gapOperations ((source.take sourceEnd).drop sourceStart)
        ((target.take targetEnd).drop targetStart)) := by
  have hold : ((source.take sourceEnd).drop sourceStart).length ≤ source.length := by
    rw [List.length_drop, List.length_take]
    omega
  unfold emitGap
  generalize (source.take sourceEnd).drop sourceStart = old at hold ⊢
  generalize (target.take targetEnd).drop targetStart = new
  dsimp only
  obtain ⟨e₁, h₁, he₁⟩ := emitted_stage emitted_start
    (min old.length new.length ≠ 0)
    (emitDataOp jdiffMod (new.take (min old.length new.length)))
    (.modify (new.take (min old.length new.length)))
    (fun s => { s with modifiedBytes := s.modifiedBytes + min old.length new.length })
    (fun hne => emitDataOp_spec (.inl rfl) (fun _ => rfl) fun hnil => hne (by
      rw [List.take_eq_nil_iff] at hnil
      rcases hnil with hzero | hnil
      · exact hzero
      · rw [hnil]
        exact Nat.min_zero _))
    (fun stats t => by simp [PatchStats.over, Operation.count, Nat.add_assoc])
  obtain ⟨e₂, h₂, he₂⟩ := emitted_stage he₁
    (new.length > min old.length new.length)
    (emitDataOp jdiffIns (new.drop (min old.length new.length)))
    (.insert (new.drop (min old.length new.length)))
    (fun s => { s with insertedBytes := s.insertedBytes +
      (new.drop (min old.length new.length)).length })
    (fun hlt => emitDataOp_spec (.inr rfl) (fun _ => rfl) fun hnil => by
      rw [List.drop_eq_nil_iff] at hnil
      omega)
    (fun stats t => by simp [PatchStats.over, Operation.count, Nat.add_assoc])
  obtain ⟨e₃, h₃, he₃⟩ := emitted_stage he₂
    (old.length > min old.length new.length)
    (emitLengthOp jdiffDel (old.length - min old.length new.length))
    (.delete (old.length - min old.length new.length))
    (fun s => { s with deletedBytes := s.deletedBytes +
      (old.length - min old.length new.length) })
    (fun hlt => emitLengthOp_spec (.inr (.inl rfl)) (fun _ => rfl) (by omega) (by omega))
    (fun stats t => by simp [PatchStats.over, Operation.count, Nat.add_assoc])
  refine ⟨e₃, ?_, he₃⟩
  rw [h₁]
  dsimp only [Bind.bind, Except.bind]
  rw [h₂]
  exact h₃

theorem applyAll_append {source : List UInt8} {limit : Nat} {st st' : Progress}
    {operations operations' : List Operation}
    (h : applyAll source limit st operations = some st') :
    applyAll source limit st (operations ++ operations') =
      applyAll source limit st' operations' := by
  rw [applyAll, List.foldlM_append]
  exact congrArg (· >>= _) h

/-- The gap takes the source over the old bytes and the target over the new ones. -/
theorem applyAll_gapOperations {source : List UInt8} {limit : Nat} {st : Progress}
    {old new : List UInt8} (hsource : st.position + old.length ≤ source.length)
    (htarget : st.output.length + new.length ≤ limit) :
    applyAll source limit st (gapOperations old new) =
      some ⟨st.position + old.length, st.output ++ new⟩ := by
  have hmodify : applyAll source limit st
      (if min old.length new.length ≠ 0 then [.modify (new.take (min old.length new.length))] else []) =
      some ⟨st.position + min old.length new.length,
        st.output ++ new.take (min old.length new.length)⟩ := by
    by_cases h : min old.length new.length ≠ 0
    · have hlength : (new.take (min old.length new.length)).length = min old.length new.length := by
        rw [List.length_take]
        omega
      rw [if_pos h]
      simp only [applyAll, List.foldlM_cons, List.foldlM_nil, Operation.apply, hlength]
      rw [if_pos (by omega)]
      rfl
    · rw [if_neg h, not_not.1 h, List.take_zero, List.append_nil]
      rfl
  have hinsert (st : Progress) (hroom : st.output.length +
        (new.length - min old.length new.length) ≤ limit) :
      applyAll source limit st (if new.length > min old.length new.length then
        [.insert (new.drop (min old.length new.length))] else []) =
      some ⟨st.position, st.output ++ new.drop (min old.length new.length)⟩ := by
    split_ifs with h
    · simp only [applyAll, List.foldlM_cons, List.foldlM_nil, Operation.apply, List.length_drop]
      rw [if_pos hroom]
      rfl
    · rw [List.drop_eq_nil_of_le (by omega), List.append_nil]
      rfl
  have hdelete (st : Progress) (hroom : st.position +
        (old.length - min old.length new.length) ≤ source.length) :
      applyAll source limit st (if old.length > min old.length new.length then
        [.delete (old.length - min old.length new.length)] else []) =
      some ⟨st.position + (old.length - min old.length new.length), st.output⟩ := by
    split_ifs with h
    · simp only [applyAll, List.foldlM_cons, List.foldlM_nil, Operation.apply]
      rw [if_pos hroom]
      rfl
    · rw [show old.length - min old.length new.length = 0 by omega]
      rfl
  have htake : (st.output ++ new.take (min old.length new.length)).length =
      st.output.length + min old.length new.length := by
    rw [List.length_append, List.length_take]
    omega
  have hgap := hdelete ⟨st.position + min old.length new.length, st.output ++ new⟩
    (by dsimp only; omega)
  rw [gapOperations, applyAll_append (applyAll_append hmodify |>.trans (hinsert _ ?_))]
  · rw [List.append_assoc, List.take_append_drop, hgap]
    congr 2
    dsimp only
    omega
  · rw [htake]
    omega

/-! ## Matching blocks -/

/-- The blocks that a matcher returns: they do not overlap, are equal in both images, and end
with the sentinel. -/
structure Matching (source target : List UInt8) (blocks : List Block) : Prop where
  increasing : blocks.IsChain fun x y => x.a + x.size ≤ y.a ∧ x.b + x.size ≤ y.b
  inRange : ∀ x ∈ blocks, x.a + x.size ≤ source.length ∧ x.b + x.size ≤ target.length
  equal : ∀ x ∈ blocks, (source.drop x.a).take x.size = (target.drop x.b).take x.size
  sentinel : blocks.getLast? = some ⟨source.length, target.length, 0⟩

/-- What the generator has written takes the source and the target to where it is. -/
structure Generated (source target : List UInt8) (g : Generator) (operations : List Operation) :
    Prop where
  holds : g.emitted.Holds operations
  reaches : applyAll source target.length ⟨0, []⟩ operations =
    some ⟨g.sourcePos, target.take g.targetPos⟩

theorem gapOperations_equal (old new : List UInt8) (t : Tally) :
    ((gapOperations old new).foldl Operation.count t).equal = t.equal := by
  unfold gapOperations
  split_ifs <;> rfl

/-- The gap before a block. -/
theorem generateBlock_gap {source target : List UInt8} {g : Generator}
    {operations : List Operation} {a b : Nat} (hwide : source.length ≤ 0xFFFFFFFF)
    (hg : Generated source target g operations) (ha : g.sourcePos ≤ a) (hb : g.targetPos ≤ b)
    (hsource : a ≤ source.length) (htarget : b ≤ target.length) :
    ∃ e operations', (if a ≠ g.sourcePos ∨ b ≠ g.targetPos then do
        let gap ← emitGap source target g.sourcePos a g.targetPos b
        .ok (⟨g.emitted.output ++ gap.output, g.emitted.stats.add gap.stats⟩ : Emitted)
      else .ok g.emitted) = .ok e ∧ e.Holds operations' ∧
      applyAll source target.length ⟨0, []⟩ operations' = some ⟨a, target.take b⟩ := by
  by_cases hgap : a ≠ g.sourcePos ∨ b ≠ g.targetPos
  · obtain ⟨gap, hemit, hholds⟩ := emitGap_spec hwide target g.sourcePos a g.targetPos b
    rw [if_pos hgap, hemit]
    refine ⟨_, _, rfl, ⟨hg.holds.encodes.append hholds.encodes, fun t => ?_⟩, ?_⟩
    · have hequal : gap.stats.equalBytes = 0 := by
        have := congrArg Tally.equal (hholds.counts t)
        rw [gapOperations_equal] at this
        exact Nat.left_eq_add.1 this
      rw [List.foldl_append, hg.holds.counts, hholds.counts]
      simp [PatchStats.over, PatchStats.add, hequal, Nat.add_assoc]
    · have hold : ((source.take a).drop g.sourcePos).length = a - g.sourcePos := by
        rw [List.length_drop, List.length_take, Nat.min_eq_left hsource]
      have hnew : ((target.take b).drop g.targetPos).length = b - g.targetPos := by
        rw [List.length_drop, List.length_take, Nat.min_eq_left htarget]
      have htaken : (target.take g.targetPos).length = g.targetPos := by
        rw [List.length_take]
        omega
      rw [applyAll_append hg.reaches, applyAll_gapOperations (by rw [hold]; dsimp only; omega)
        (by rw [hnew, htaken]; omega), hold]
      have hjoin : target.take g.targetPos ++ (target.take b).drop g.targetPos = target.take b := by
        rw [← Nat.min_eq_left hb, ← List.take_take, Nat.min_eq_left hb, List.take_append_drop]
      dsimp only
      rw [hjoin, Nat.add_sub_cancel' ha]
  · rw [if_neg hgap]
    rw [not_or, not_not, not_not] at hgap
    obtain ⟨rfl, rfl⟩ := hgap
    exact ⟨_, _, rfl, hg.holds, hg.reaches⟩

/-- One round of the loop over the blocks. -/
theorem generateBlock_spec {source target : List UInt8} {g : Generator}
    {operations : List Operation} {block : Block} (hwide : source.length ≤ 0xFFFFFFFF)
    (hg : Generated source target g operations)
    (hsource : g.sourcePos ≤ block.a) (htarget : g.targetPos ≤ block.b)
    (hrange : block.a + block.size ≤ source.length ∧ block.b + block.size ≤ target.length)
    (hequal : (source.drop block.a).take block.size = (target.drop block.b).take block.size) :
    ∃ g' operations', generateBlock source target g block = .ok g' ∧
      Generated source target g' operations' ∧
      g'.sourcePos = block.a + block.size ∧ g'.targetPos = block.b + block.size := by
  obtain ⟨e₁, operations₁, h₁, he₁, hreach⟩ := generateBlock_gap hwide hg hsource htarget
    (by omega) (by omega)
  obtain ⟨e₂, h₂, he₂⟩ := emitted_stage he₁ (block.size ≠ 0) (emitLengthOp jdiffEql block.size)
    (.equal block.size) (fun s => { s with equalBytes := s.equalBytes + block.size })
    (fun hne => emitLengthOp_spec (.inl rfl) (fun _ => rfl) hne (by omega))
    (fun stats t => by simp [PatchStats.over, Operation.count, Nat.add_assoc])
  refine ⟨⟨e₂, block.a + block.size, block.b + block.size⟩, _, ?_, ⟨he₂, ?_⟩, rfl, rfl⟩
  · unfold generateBlock
    rw [if_neg (by omega), h₁]
    dsimp only [Bind.bind, Except.bind]
    rw [h₂]
    rfl
  · have htaken : (target.take block.b).length = block.b := by
      rw [List.length_take]
      omega
    rw [applyAll_append hreach]
    split_ifs with hsize
    · simp only [applyAll, List.foldlM_cons, List.foldlM_nil, Operation.apply, htaken]
      rw [if_pos hrange, hequal, ← List.take_add]
      rfl
    · rw [not_not.1 hsize]
      rfl

/-- The rounds over all the blocks end at the last of them. -/
theorem generateBlocks_spec {source target : List UInt8} {blocks : List Block}
    (hwide : source.length ≤ 0xFFFFFFFF)
    (hincreasing : blocks.IsChain fun x y => x.a + x.size ≤ y.a ∧ x.b + x.size ≤ y.b)
    (hrange : ∀ x ∈ blocks, x.a + x.size ≤ source.length ∧ x.b + x.size ≤ target.length)
    (hequal : ∀ x ∈ blocks, (source.drop x.a).take x.size = (target.drop x.b).take x.size)
    {g : Generator} {operations : List Operation} (hg : Generated source target g operations)
    (hhead : ∀ x ∈ blocks.head?, g.sourcePos ≤ x.a ∧ g.targetPos ≤ x.b) :
    ∃ g' operations', blocks.foldlM (generateBlock source target) g = .ok g' ∧
      Generated source target g' operations' ∧
      ∀ x ∈ blocks.getLast?, g'.sourcePos = x.a + x.size ∧ g'.targetPos = x.b + x.size := by
  induction blocks generalizing g operations with
  | nil => exact ⟨g, operations, rfl, hg, fun x hx => by cases hx⟩
  | cons block blocks ih =>
      obtain ⟨ha, hb⟩ := hhead block rfl
      obtain ⟨g₁, operations₁, hblock, hg₁, hsource, htarget⟩ := generateBlock_spec hwide hg ha hb
        (hrange block List.mem_cons_self) (hequal block List.mem_cons_self)
      obtain ⟨g₂, operations₂, hrest, hg₂, hlast⟩ := ih hincreasing.tail
        (fun x hx => hrange x (List.mem_cons_of_mem _ hx))
        (fun x hx => hequal x (List.mem_cons_of_mem _ hx)) hg₁ (fun x hx => by
          rw [hsource, htarget]
          cases blocks with
          | nil => cases hx
          | cons next blocks =>
              cases hx
              exact (List.isChain_cons_cons.1 hincreasing).1)
      refine ⟨g₂, operations₂, ?_, hg₂, ?_⟩
      · rw [List.foldlM_cons, hblock]
        exact hrest
      · cases blocks with
        | nil =>
            intro x hx
            cases hx
            cases hrest
            exact ⟨hsource, htarget⟩
        | cons next blocks =>
            intro x hx
            rw [List.getLast?_cons_cons] at hx
            exact hlast x hx

/-- The generator writes a list of operations that makes the target from the source. -/
theorem generatePatch_spec {source target : List UInt8} {blocks : List Block}
    (hwide : source.length ≤ 0xFFFFFFFF) (hblocks : Matching source target blocks) :
    ∃ patch stats operations, generatePatch source target blocks = .ok (patch, stats) ∧
      Encodes patch operations ∧ (∀ t, operations.foldl Operation.count t = stats.over t) ∧
      applyAll source target.length ⟨0, []⟩ operations = some ⟨source.length, target⟩ := by
  obtain ⟨g, operations, hrun, hg, hlast⟩ := generateBlocks_spec hwide hblocks.increasing
    hblocks.inRange hblocks.equal (show Generated source target {} [] from ⟨emitted_start, rfl⟩)
    (fun _ _ => ⟨Nat.zero_le _, Nat.zero_le _⟩)
  obtain ⟨hsource, htarget⟩ := hlast _ hblocks.sentinel
  refine ⟨g.emitted.output, g.emitted.stats, operations, ?_, hg.holds.encodes, hg.holds.counts, ?_⟩
  · rw [generatePatch, hrun]
    rfl
  · rw [hg.reaches, hsource, htarget]
    simp

/-! ## The tool -/

section Tool

variable {source patch : List UInt8} {st : Applicator}

/-- A length field of zero is no operation of the stream. -/
theorem decodeNext_of_lengthField_zero (hin : st.patchPos < patch.length)
    (h : lengthField patch st.patchPos = some 0) :
    decodeNext (patch.drop st.patchPos) = none := by
  unfold lengthField at h
  rcases nextOpcode_reads hin with ⟨⟨error, herror⟩, -⟩ | ⟨opcode, hopcode, -, -, hdecode⟩ |
    ⟨opcode, hopcode, hnot, -⟩ | ⟨hopcode, -⟩
  · rw [herror] at h
    cases h
  · rw [hopcode] at h
    dsimp only at h
    split_ifs at h with hop
    have hread := decodeLength_spec patch (st.patchPos + 2)
    cases hlength : decodeLength patch (st.patchPos + 2) with
    | error error =>
        rw [hlength] at h
        cases h
    | ok r =>
        rw [hlength] at h hread
        obtain ⟨length, offset⟩ := r
        cases h
        obtain ⟨-, -, hnone⟩ := hread
        rw [if_pos rfl] at hnone
        rw [decodeNext, hdecode, Option.bind_some, decodeOperation, hnone]
        rcases hop with rfl | rfl | rfl <;> rfl
  · rw [hopcode] at h
    dsimp only at h
    split_ifs at h with hop
    rcases hop with rfl | rfl | rfl <;> cases hnot
  · rw [hopcode] at h
    dsimp only at h
    rw [if_neg (by decide)] at h
    cases h

/-- A stream that has a meaning has no length field of zero. -/
theorem lengthsMet_of_run (limit : Nat) (st : Applicator) (hsource : st.sourcePos ≤ source.length)
    (hroom : st.target.length ≤ limit)
    (hrun : run source limit (patch.drop st.patchPos) st.progress ≠ none) :
    ∀ length ∈ lengthsMet source patch st, length ≠ 0 := by
  -- by induction on what is left of the patch
  induction hleft : patch.length - st.patchPos using Nat.strong_induction_on generalizing st with
  | _ left ih =>
      by_cases hin : st.patchPos < patch.length
      swap
      · rw [lengthsMet, dif_neg hin]
        exact fun _ hmem => absurd hmem List.not_mem_nil
      have hne : patch.drop st.patchPos ≠ [] := by
        rw [Ne, List.drop_eq_nil_iff]
        omega
      have hfield : lengthField patch st.patchPos ≠ some 0 := fun hzero =>
        hrun (run_undecodable hne (decodeNext_of_lengthField_zero hin hzero) _)
      have hreads := applyStep_reads hin hsource hfield
      rw [JanpatchPort.run_eq_step hne] at hrun
      rw [lengthsMet, dif_pos hin]
      intro length hlength
      rcases List.mem_append.1 hlength with hhere | hlater
      · rintro rfl
        exact hfield (Option.mem_toList.1 hhere)
      · split at hlater
        · cases hlater
        · next st' hstep =>
            rw [hstep] at hreads
            obtain ⟨-, hsource', -, hspec⟩ := hreads
            have hspec' : JanpatchPort.stepSpec source limit st.progress
              (patch.drop st.patchPos) = _ := hspec limit hroom
            have hmore := applyStep_progress hin hstep
            rw [hspec'] at hrun
            split_ifs at hrun with hroom'
            · exact ih (patch.length - st'.patchPos) (by omega) st' hsource' hroom' hrun rfl length
                hlater
            · exact absurd rfl hrun

end Tool

end JojoDiffPatch

/--
The device patcher inverts the patch generator: from any list of matching blocks the generator
writes a stream that the tool and, on working flash and an erased target, the device turn into
the target. The device reads all of the stream, writes nothing else, and counts what the
generator has counted.
-/
theorem patcher_inverts_generator (source target : List UInt8) (blocks : List JojoDiffPatch.Block)
    (hsource : source ≠ [] ∧ source.length ≤ 38912) (htarget : target ≠ [] ∧ target.length ≤ 38912)
    (hblocks : JojoDiffPatch.Matching source target blocks) :
    ∃ patch stats, JojoDiffPatch.generatePatch source target blocks = .ok (patch, stats) ∧
      JojoDiffPatch.applyPatch source patch = .ok target ∧
      ∀ (patchOffset : Nat) (s : Machine),
        patchOffset + patch.length ≤ ExternalPartition.incoming.size →
        s.spi.initialized = true → (∀ o ∈ s.script, o = .ok) →
        window s.device.app 0 source.length = source →
        s.device.slice .incoming patchOffset patch.length = patch →
        (∀ i < ExternalPartition.reconstructed.size, s.device.part .reconstructed i = 0xFF) →
        ∃ result s', JanpatchPort.applyStream
            ⟨source.length, patchOffset, patch.length, target.length⟩ s = .done (.ok result) s' ∧
          s'.device.slice .reconstructed 0 target.length = target ∧
          OutsideFrame ExternalPartition.reconstructed.address
            (ExternalPartition.reconstructed.address + target.length) s.device s'.device ∧
          result.patchPosition = patch.length ∧
          result.equalBytes = stats.equalBytes ∧ result.modifiedBytes = stats.modifiedBytes ∧
          result.insertedBytes = stats.insertedBytes ∧ result.deletedBytes = stats.deletedBytes := by
  obtain ⟨patch, stats, operations, hgenerate, hencodes, hcounts, happly⟩ :=
    JojoDiffPatch.generatePatch_spec (by omega) hblocks
  have hrun : JojoDiff.run source target.length patch ⟨0, []⟩ = some ⟨source.length, target⟩ := by
    rw [JojoDiffPatch.run_encoded hencodes, happly]
  have hpatch : patch ≠ [] := by
    rintro rfl
    rw [JojoDiff.run_nil] at hrun
    exact htarget.1 (congrArg JojoDiff.Progress.output (Option.some.inj hrun)).symm
  refine ⟨patch, stats, hgenerate, ?_, ?_⟩
  · have hzero : ∀ length ∈ JojoDiffPatch.lengthsMet source patch {}, length ≠ 0 := by
      refine JojoDiffPatch.lengthsMet_of_run target.length {} (Nat.zero_le _) (Nat.zero_le _) ?_
      rw [show patch.drop 0 = patch from rfl, hrun]
      exact nofun
    have htool := (JojoDiffPatch.applyLoop_reads target.length {} (Nat.zero_le _) (Nat.zero_le _)
      hzero target).2 (Nat.zero_le _)
    refine (htool.2 ?_).1
    rw [show patch.drop 0 = patch from rfl, hrun]
    rfl
  · intro patchOffset s hfit hready hworks hbase hincoming herased
    have hpositive : 1 ≤ target.length := List.length_pos_iff.2 htarget.1
    obtain ⟨r, s', hdone, hframe, hanswer⟩ := applyStream_calm hsource ⟨hpatch, hfit⟩
      ⟨hpositive, htarget.2⟩ hready hworks hbase hincoming herased
    rw [hrun] at hanswer
    cases r with
    | error status => exact absurd rfl (hanswer target rfl)
    | ok result =>
        obtain ⟨hwritten, hread, htally⟩ := hanswer
        rw [JojoDiffPatch.tally_encoded hencodes, hcounts] at htally
        have hequal : 0 + stats.equalBytes = _ := (congrArg JojoDiff.Tally.equal htally).symm
        have hmodified : 0 + stats.modifiedBytes = _ :=
          (congrArg JojoDiff.Tally.modified htally).symm
        have hinserted : 0 + stats.insertedBytes = _ :=
          (congrArg JojoDiff.Tally.inserted htally).symm
        have hdeleted : 0 + stats.deletedBytes = _ :=
          (congrArg JojoDiff.Tally.deleted htally).symm
        rw [Nat.zero_add] at hequal hmodified hinserted hdeleted
        exact ⟨result, s', hdone, (Option.some.inj hwritten).symm, hframe, hread, hequal.symm,
          hmodified.symm, hinserted.symm, hdeleted.symm⟩

/-- One byte is copied and another one inserted. -/
theorem patcher_inverts_generator_insert :
    ∃ result s', JanpatchPort.applyStream ⟨1, 140, 6, 2⟩
        ⟨⟨fun _ => 1, fun a => [0xA7, 0xA3, 0, 0xA7, 0xA5, 2].getD (a - 0x208C) 0xFF, []⟩,
          ⟨true, .ok⟩, [], false, .bootloader⟩ = .done (.ok result) s' ∧
      s'.device.slice .reconstructed 0 2 = [1, 2] ∧ result.insertedBytes = 1 := by
  obtain ⟨patch, stats, hgenerate, -, hdevice⟩ := patcher_inverts_generator [1] [1, 2]
    [⟨0, 0, 1⟩, ⟨1, 2, 0⟩] (by decide) (by decide)
    ⟨by decide, by decide, by decide, by decide⟩
  have hpatch : JojoDiffPatch.generatePatch [1] [1, 2] [⟨0, 0, 1⟩, ⟨1, 2, 0⟩] =
      .ok ([0xA7, 0xA3, 0, 0xA7, 0xA5, 2], ⟨1, 0, 1, 0, 2⟩) := by decide +kernel
  rw [hpatch] at hgenerate
  cases hgenerate
  obtain ⟨result, s', hdone, hwritten, -, -, -, -, hinserted, -⟩ := hdevice 140
    ⟨⟨fun _ => 1, fun a => [0xA7, 0xA3, 0, 0xA7, 0xA5, 2].getD (a - 0x208C) 0xFF, []⟩,
      ⟨true, .ok⟩, [], false, .bootloader⟩ (by decide) rfl (fun _ h => nomatch h) rfl rfl
    (fun i _ => by
      have haddress : ExternalPartition.reconstructed.address = 0x22000 := rfl
      dsimp only [Device.part]
      rw [List.getD_eq_default]
      simp only [List.length_cons, List.length_nil]
      omega)
  exact ⟨result, s', hdone, hwritten, hinserted⟩

end SecureDeltaOta
