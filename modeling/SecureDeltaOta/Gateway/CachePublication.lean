import SecureDeltaOta.Gateway.CacheFlash

/-!
# Only complete artifacts are published

A session is what an observer of the calls remembers of the last write that
erased the header: its parameters, the bytes streamed since, and whether it came
to a commit. While a writer is active the header is erased. A header that passes
its checks is the complete header of the session, and the artifact behind it is
what was streamed.
-/

namespace SecureDeltaOta

open Memory Crash

namespace CacheGateway

open EspPartition ArtifactCache

/-! ## Sessions -/

/-- The last write whose header erase took effect. -/
structure Session where
  expectedSize : UInt32
  updateId : UInt32
  targetVersion : UInt32
  streamed : List UInt8
  commitReached : Bool
  deriving DecidableEq, Repr

/-- Whether the first flash step of a call took effect, if there is one. -/
def firstStepDone : List Step → Bool
  | .cut _ :: _ => false
  | _ => true

/-- Whether a `BeginWrite` with this answer has erased the header, which is its first step. -/
def erasedHeader (script : List Step) (answer : Answer) : Bool :=
  answer = .returned .ok ∨ answer = .lost ∧ firstStepDone script

/-- The session after a call. -/
def watch (session : Option Session) (call : Call) (script : List Step) (answer : Answer) :
    Option Session :=
  match call with
  | .beginWrite expectedSize updateId targetVersion =>
      if erasedHeader script answer then
        some
          { expectedSize := expectedSize
            updateId := updateId
            targetVersion := targetVersion
            streamed := []
            commitReached := false }
      else session
  | .write data =>
      if answer = .returned .ok then
        session.map fun s => { s with streamed := s.streamed ++ data }
      else session
  | .commit => session.map fun s => { s with commitReached := true }
  | .abort => session

/-- The session after a run. -/
def watched (g : CacheGateway) (session : Option Session) : List (Call × List Step) →
    Option Session
  | [] => session
  | (call, script) :: calls =>
      (g.step call script).1.watched (watch session call script (g.step call script).2) calls

/-! ## The invariant -/

/-- A write that `BeginWrite` accepts. -/
structure Acceptable (expectedSize updateId targetVersion : UInt32) : Prop where
  expectedSize_ne : expectedSize ≠ 0
  updateId_ne : updateId ≠ 0
  targetVersion_ne : targetVersion ≠ 0
  size_le : expectedSize.toNat ≤ size - dataOffset.toNat

/-- The state of an active writer. -/
structure Writing (flash : Nat → UInt8) (writer : ArtifactCacheWriter) (session : Session) :
    Prop where
  hasPartition : writer.hasPartition = true
  expectedSize : session.expectedSize = writer.expectedSize
  updateId : session.updateId = writer.updateId
  targetVersion : session.targetVersion = writer.targetVersion
  acceptable : Acceptable writer.expectedSize writer.updateId writer.targetVersion
  headerErased : ∀ i < headerSize, flash i = 0xFF
  written : writer.writtenSize.toNat = session.streamed.length
  room : session.streamed.length ≤ writer.expectedSize.toNat
  data : window flash dataOffset.toNat session.streamed.length = session.streamed
  crc : writer.runningCrc32 = crcUpdate 0xFFFFFFFF session.streamed

/-- The writer with the parameters of a session, as far as its header shows them. -/
def Session.writer (session : Session) : ArtifactCacheWriter :=
  { noWriter with
    expectedSize := session.expectedSize
    updateId := session.updateId
    targetVersion := session.targetVersion }

def Session.header (session : Session) : ArtifactCacheHeader :=
  headerOf session.writer (UartOta.crc32 session.streamed)

/-- The artifact of a session is in the partition, with its header. -/
structure Published (flash : Nat → UInt8) (session : Session) : Prop where
  commitReached : session.commitReached = true
  acceptable : Acceptable session.expectedSize session.updateId session.targetVersion
  complete : session.streamed.length = session.expectedSize.toNat
  header : window flash 0 headerSize = layout.encode session.header
  data : window flash dataOffset.toNat session.streamed.length = session.streamed

structure Inv (g : CacheGateway) (session : Option Session) : Prop where
  writing : g.writer.active = true → ∃ s, session = some s ∧ Writing g.flash g.writer s
  published : headerValid (storedHeader g.flash) = true →
    ∃ s, session = some s ∧ Published g.flash s

variable {flash : Nat → UInt8} {writer : ArtifactCacheWriter} {session : Option Session}

theorem header_of_erased (h : ∀ i < headerSize, flash i = 0xFF) :
    headerValid (storedHeader flash) = false := by
  apply headerValid_of_erased
  rw [window_getD (by decide), Nat.zero_add]
  exact h 31 (by decide)

/-- An inactive writer with an erased header satisfies everything. -/
theorem Inv.of_erased (h : ∀ i < headerSize, flash i = 0xFF) (hactive : writer.active = false) :
    Inv { flash := flash, writer := writer } session := by
  constructor
  · intro hon
    rw [hactive] at hon
    cases hon
  · intro hvalid
    rw [header_of_erased h] at hvalid
    cases hvalid

theorem Inv.of_published {s : Session} (h : Published flash s) (hactive : writer.active = false) :
    Inv { flash := flash, writer := writer } (some s) := by
  constructor
  · intro hon
    rw [hactive] at hon
    cases hon
  · exact fun _ => ⟨s, rfl, h⟩

theorem Inv.of_writing {s : Session} (h : Writing flash writer s) :
    Inv { flash := flash, writer := writer } (some s) := by
  constructor
  · exact fun _ => ⟨s, rfl, h⟩
  · intro hvalid
    rw [header_of_erased h.headerErased] at hvalid
    cases hvalid

/-- A restart forgets the writer. -/
theorem Inv.restart (h : Inv { flash := flash, writer := writer } session) :
    Inv { flash := flash, writer := noWriter } session :=
  ⟨fun hon => (by cases hon), h.published⟩

theorem Inv.erased : Inv erased none :=
  Inv.of_erased (fun _ _ => rfl) rfl

/-! ## What each call does -/

/-- A call keeps the invariant, whether it returns or power is lost in it. -/
def Keeps (g : CacheGateway) (session : Option Session) (call : Call) (script : List Step) :
    Prop :=
  (perform g.writer call { flash := g.flash, script := script }).Ensures
    (fun r t => Inv { flash := t.flash, writer := r.1 }
      (watch session call script (.returned r.2)))
    (fun t => Inv { flash := t.flash, writer := noWriter } (watch session call script .lost))

/-- The header is erased in one step; nothing else is touched. -/
theorem eraseHeader_ensures (s : Contents) :
    (eraseRange 0 eraseSize.toNat s).Ensures
      (fun r t => r = .ok ∧ firstStepDone s.script = true ∧ ∀ i < headerSize, t.flash i = 0xFF)
      (fun t => firstStepDone s.script = false ∧ t.flash = s.flash) := by
  have hprogram : eraseRange 0 eraseSize.toNat = (do
      eraseSectors 0 1
      pure .ok) := rfl
  have herased (flash : Nat → UInt8) : ∀ i < headerSize,
      overlay flash 0 sectorSize (fun _ => 0xFF) i = 0xFF := by
    intro i hi
    unfold headerSize at hi
    exact overlay_inside (by unfold sectorSize; omega)
  rw [hprogram]
  obtain ⟨flash, script⟩ := s
  match script with
  | [] => exact ⟨rfl, rfl, herased flash⟩
  | .ok :: rest => exact ⟨rfl, rfl, herased flash⟩
  | .cut n :: rest => exact ⟨rfl, rfl⟩

theorem keeps_abort {g : CacheGateway} (h : Inv g session) (script : List Step) :
    Keeps g session .abort script := by
  rw [Keeps, perform, ArtifactCache.abort]
  by_cases hon : (g.writer.hasPartition && g.writer.active) = true
  · rw [if_pos hon]
    refine Ensures.bind (eraseHeader_ensures _) ?_ ?_
    · rintro r t ⟨rfl, -, herased⟩
      exact Inv.of_erased herased rfl
    · rintro t ⟨-, hflash⟩
      rw [hflash]
      exact h.restart
  · rw [if_neg hon]
    exact ⟨fun hactive => (by cases hactive), h.published⟩

/-- The erased range is made of whole sectors and stays in the partition. -/
theorem erasedSize_toNat {expectedSize : UInt32}
    (h : expectedSize.toNat ≤ size - dataOffset.toNat) :
    (erasedSize expectedSize).toNat = (expectedSize.toNat + 4095) / 4096 * sectorSize := by
  have hbound : expectedSize.toNat ≤ 0x2F000 := h
  have hround : ∀ w : UInt32, w &&& ~~~(eraseSize - 1) = (w >>> 12) <<< 12 := by
    intro w
    have hmask : ∀ i (_ : i < 32), (~~~(eraseSize - 1) : UInt32).toBitVec[i] = decide (12 ≤ i) := by
      decide
    apply UInt32.toBitVec_inj.1
    ext i hi
    rw [UInt32.toBitVec_and, BitVec.getElem_and, hmask i hi]
    simp
    grind
  have hsum : (expectedSize + eraseSize - 1).toNat = expectedSize.toNat + 4095 := by
    have hone : expectedSize + eraseSize - 1 = expectedSize + 4095 := by
      rw [UInt32.sub_eq_add_neg, UInt32.add_assoc]
      rfl
    rw [hone, UInt32.toNat_add]
    change (expectedSize.toNat + 4095) % 2 ^ 32 = _
    omega
  have hshift : ((expectedSize + eraseSize - 1) >>> 12).toNat = (expectedSize.toNat + 4095) / 4096 := by
    rw [UInt32.toNat_shiftRight, hsum]
    exact Nat.shiftRight_eq_div_pow _ _
  rw [erasedSize, hround, UInt32.toNat_shiftLeft, hshift]
  change ((expectedSize.toNat + 4095) / 4096) <<< 12 % 2 ^ 32 = _ * 4096
  rw [Nat.shiftLeft_eq]
  omega

/-- The session of a write that has just begun. -/
def Session.new (expectedSize updateId targetVersion : UInt32) : Session where
  expectedSize := expectedSize
  updateId := updateId
  targetVersion := targetVersion
  streamed := []
  commitReached := false

/-- How `BeginWrite` ends: it is refused and nothing changes, or the writer is ready. -/
def Begins (g : CacheGateway) (new : Session) (r : ArtifactCacheWriter × EspErr) (t : Contents) :
    Prop :=
  (r.2 ≠ .ok ∧ t.flash = g.flash ∧ r.1 = g.writer) ∨ (r.2 = .ok ∧ Writing t.flash r.1 new)

theorem beginWrite_ensures (g : CacheGateway) (expectedSize updateId targetVersion : UInt32)
    (script : List Step) :
    (perform g.writer (.beginWrite expectedSize updateId targetVersion)
      { flash := g.flash, script := script }).Ensures
      (Begins g (.new expectedSize updateId targetVersion))
      (fun t => (firstStepDone script = false ∧ t.flash = g.flash) ∨
        (firstStepDone script = true ∧ ∀ i < headerSize, t.flash i = 0xFF)) := by
  rw [perform, ArtifactCache.beginWrite]
  by_cases hargs : expectedSize = 0 ∨ updateId = 0 ∨ targetVersion = 0
  · rw [if_pos hargs]
    exact .inl ⟨nofun, rfl, rfl⟩
  by_cases hsize : expectedSize.toNat > size - dataOffset.toNat
  · rw [if_neg hargs, if_pos hsize]
    exact .inl ⟨nofun, rfl, rfl⟩
  rw [if_neg hargs, if_neg hsize]
  refine Ensures.bind (eraseHeader_ensures _) ?_ (fun t ht => .inl ht)
  rintro r t ⟨rfl, hdone, herased⟩
  have hdata := not_lt.1 hsize
  have hrange : dataOffset.toNat + (expectedSize.toNat + 4095) / 4096 * sectorSize ≤ size := by
    have hbound : expectedSize.toNat ≤ 0x2F000 := hdata
    change 4096 + (expectedSize.toNat + 4095) / 4096 * 4096 ≤ 0x30000
    omega
  -- the data sectors come after the header
  have hkeep (k : Nat) : ∀ i < headerSize, cleared t.flash dataOffset.toNat k i = 0xFF := by
    intro i hi
    have hbelow : i < dataOffset.toNat := lt_of_lt_of_le hi (by decide)
    rw [cleared, overlay_outside (.inl hbelow)]
    exact herased i hi
  dsimp only
  rw [erasedSize_toNat hdata]
  refine Ensures.bind (eraseRange_ensures rfl hrange) ?_ ?_
  · rintro r u ⟨rfl, hflash⟩
    rw [not_or, not_or] at hargs
    refine .inr ⟨rfl,
      { hasPartition := rfl
        expectedSize := rfl
        updateId := rfl
        targetVersion := rfl
        acceptable := ⟨hargs.1, hargs.2.1, hargs.2.2, hdata⟩
        headerErased := ?_
        written := rfl
        room := Nat.zero_le _
        data := rfl
        crc := rfl }⟩
    rw [hflash]
    exact hkeep _
  · rintro u ⟨k, -, hflash⟩
    refine .inr ⟨hdone, ?_⟩
    rw [hflash]
    exact hkeep k

theorem keeps_beginWrite {g : CacheGateway} (h : Inv g session)
    (expectedSize updateId targetVersion : UInt32) (script : List Step) :
    Keeps g session (.beginWrite expectedSize updateId targetVersion) script := by
  refine (beginWrite_ensures g expectedSize updateId targetVersion script).mono ?_ ?_
  · rintro ⟨writer, status⟩ t (⟨hstatus, hflash, hwriter⟩ | ⟨hstatus, hwriting⟩)
    · have hwatch : watch session (.beginWrite expectedSize updateId targetVersion) script
          (.returned status) = session := by
        rw [watch, if_neg]
        simpa [erasedHeader] using hstatus
      dsimp only at hwriter ⊢
      rw [hwatch, hflash, hwriter]
      exact h
    · dsimp only at hstatus hwriting ⊢
      rw [hstatus]
      exact Inv.of_writing hwriting
  · rintro t (⟨hdone, hflash⟩ | ⟨hdone, herased⟩)
    · have hwatch : watch session (.beginWrite expectedSize updateId targetVersion) script .lost =
          session := by
        rw [watch, if_neg]
        simpa [erasedHeader] using hdone
      rw [hflash, hwatch]
      exact h.restart
    · exact Inv.of_erased herased rfl

/-- The address of the next byte of a writer. -/
theorem Writing.address {s : Session} (h : Writing flash writer s) :
    (dataOffset + writer.writtenSize).toNat = dataOffset.toNat + s.streamed.length := by
  have hroom := h.room
  have hsize : writer.expectedSize.toNat ≤ 0x2F000 := h.acceptable.size_le
  rw [UInt32.toNat_add, h.written]
  change (4096 + s.streamed.length) % 2 ^ 32 = 4096 + s.streamed.length
  omega

/-- A part of a write below the data does not touch the header. -/
theorem Writing.stored_header {s : Session} (h : Writing flash writer s) (data : List UInt8)
    (n : Nat) : ∀ i < headerSize,
      stored flash (dataOffset.toNat + s.streamed.length) data n i = 0xFF := by
  intro i hi
  have hbelow : i < dataOffset.toNat := lt_of_lt_of_le hi (by decide)
  rw [stored, overlay_outside (by omega)]
  exact h.headerErased i hi

/-- A chunk that was written follows what was streamed before. -/
theorem Writing.append {s : Session} (h : Writing flash writer s) {data : List UInt8}
    (hdata : data.length ≤ writer.expectedSize.toNat - writer.writtenSize.toNat) :
    Writing (stored flash (dataOffset.toNat + s.streamed.length) data data.length)
      { writer with
        runningCrc32 := crcUpdate writer.runningCrc32 data
        writtenSize := writer.writtenSize + UInt32.ofNat data.length }
      { s with streamed := s.streamed ++ data } := by
  have hroom := h.room
  have hsize : writer.expectedSize.toNat ≤ 0x2F000 := h.acceptable.size_le
  rw [h.written] at hdata
  refine
    { hasPartition := h.hasPartition
      expectedSize := h.expectedSize
      updateId := h.updateId
      targetVersion := h.targetVersion
      acceptable := h.acceptable
      headerErased := h.stored_header data data.length
      written := ?_
      room := ?_
      data := ?_
      crc := ?_ }
  · rw [List.length_append]
    change (writer.writtenSize + UInt32.ofNat data.length).toNat = _
    rw [UInt32.toNat_add, h.written, UInt32.toNat_ofNat']
    omega
  · rw [List.length_append]
    change s.streamed.length + data.length ≤ writer.expectedSize.toNat
    omega
  · have hold : window (stored flash (dataOffset.toNat + s.streamed.length) data data.length)
        dataOffset.toNat s.streamed.length = s.streamed := by
      rw [← h.data, window_length, window_eq_iff]
      intro i hi
      exact overlay_outside (by omega)
    have hnew : window (stored flash (dataOffset.toNat + s.streamed.length) data data.length)
        (dataOffset.toNat + s.streamed.length) data.length = data := by
      rw [window_eq_list_iff]
      intro i hi
      rw [stored, overlay_inside (by omega), Nat.add_sub_cancel_left]
    rw [List.length_append, window_add, hold, hnew]
  · change crcUpdate writer.runningCrc32 data = _
    rw [h.crc, crcUpdate_append]

theorem keeps_write {g : CacheGateway} (h : Inv g session) (data : List UInt8)
    (script : List Step) : Keeps g session (.write data) script := by
  have hkept {answer : Answer} (hanswer : answer ≠ .returned .ok) :
      watch session (.write data) script answer = session := by
    rw [watch, if_neg hanswer]
  rw [Keeps, perform, writeData]
  by_cases hactive : g.writer.active = false
  · rw [if_pos hactive, ensures_pure]
    dsimp only
    rw [hkept (by decide)]
    exact h
  rw [if_neg hactive]
  by_cases hlong : data.length > g.writer.expectedSize.toNat - g.writer.writtenSize.toNat
  · rw [if_pos hlong, ensures_pure]
    dsimp only
    rw [hkept (by decide)]
    exact h
  rw [if_neg hlong]
  obtain ⟨s, rfl, hwriting⟩ := h.writing (Bool.eq_true_of_not_eq_false hactive)
  have hnext : watch (some s) (.write data) script (.returned .ok) =
      some { s with streamed := s.streamed ++ data } := rfl
  by_cases hempty : data.length = 0
  · rw [if_pos hempty, ensures_pure]
    dsimp only
    rw [hnext, List.length_eq_zero_iff.1 hempty, List.append_nil]
    exact h
  have hpartition : ¬ g.writer.hasPartition = false := by rw [hwriting.hasPartition]; decide
  have hfits : dataOffset.toNat + s.streamed.length + data.length ≤ size := by
    have hsize : g.writer.expectedSize.toNat ≤ 0x2F000 := hwriting.acceptable.size_le
    have hroom := hwriting.room
    rw [hwriting.written] at hlong
    change 4096 + s.streamed.length + data.length ≤ 0x30000
    omega
  rw [if_neg hempty, if_neg hpartition, hwriting.address]
  refine Ensures.bind (write_ensures hfits) ?_ ?_
  · rintro r t ⟨rfl, hflash⟩
    dsimp only
    rw [ensures_pure, hflash]
    dsimp only
    rw [hnext]
    exact Inv.of_writing (hwriting.append (not_lt.1 hlong))
  · rintro t ⟨n, -, hflash⟩
    rw [hflash]
    exact Inv.of_erased (hwriting.stored_header data n) rfl

theorem Published.reach {s : Session} (h : Published flash s) :
    Published flash { s with commitReached := true } :=
  ⟨rfl, h.acceptable, h.complete, h.header, h.data⟩

theorem Writing.reach {s : Session} (h : Writing flash writer s) :
    Writing flash writer { s with commitReached := true } :=
  ⟨h.hasPartition, h.expectedSize, h.updateId, h.targetVersion, h.acceptable, h.headerErased,
    h.written, h.room, h.data, h.crc⟩

theorem Inv.reach {g : CacheGateway} (h : Inv g session) :
    Inv g (session.map fun s => { s with commitReached := true }) := by
  constructor
  · intro hactive
    obtain ⟨s, rfl, hwriting⟩ := h.writing hactive
    exact ⟨_, rfl, hwriting.reach⟩
  · intro hvalid
    obtain ⟨s, rfl, hpublished⟩ := h.published hvalid
    exact ⟨_, rfl, hpublished.reach⟩

/-- A published artifact is opened. -/
theorem Published.openResult_eq {s : Session} (h : Published flash s) :
    openResult flash = .ok s.header := by
  have hstored : storedHeader flash = s.header := by
    rw [storedHeader, h.header, layout.decode_encode]
  have hvalid : headerValid s.header = true :=
    headerValid_iff.2 ⟨rfl, rfl, rfl, h.acceptable.updateId_ne, h.acceptable.targetVersion_ne,
      h.acceptable.expectedSize_ne, rfl, rfl, h.acceptable.size_le⟩
  have hsize : s.header.imageSize.toNat = s.streamed.length := h.complete.symm
  have hcrc : s.header.imageCrc32 = UartOta.crc32 s.streamed := rfl
  rw [openResult, hstored, if_pos hvalid, hsize, h.data, hcrc, if_neg (by simp)]

theorem Writing.header_eq {s : Session} (h : Writing flash writer s) :
    headerOf writer (UartOta.crc32 s.streamed) = s.header := by
  simp only [headerOf, Session.header, Session.writer, h.expectedSize, h.updateId,
    h.targetVersion]

/-- A header that is valid after any part of its write is published. -/
theorem Writing.publish {s : Session} (h : Writing flash writer s)
    (hreached : s.commitReached = true) (hcomplete : writer.writtenSize = writer.expectedSize)
    {n : Nat} (hn : n ≤ headerSize)
    (hheader : window (stored flash 0 (layout.encode s.header) n) 0 headerSize =
      layout.encode s.header) :
    Published (stored flash 0 (layout.encode s.header) n) s := by
  refine ⟨hreached, ?_, ?_, hheader, ?_⟩
  · rw [h.expectedSize, h.updateId, h.targetVersion]
    exact h.acceptable
  · rw [h.expectedSize, ← hcomplete, h.written]
  · have hbelow : headerSize ≤ dataOffset.toNat := by decide
    refine Eq.trans ?_ h.data
    rw [window_eq_iff]
    intro i hi
    exact overlay_outside (by omega)

/-- How a commit ends: it is refused and nothing changes, or the artifact is published. -/
def Commits (g : CacheGateway) (session : Option Session) (r : ArtifactCacheWriter × EspErr)
    (t : Contents) : Prop :=
  (r.2 ≠ .ok ∧ t.flash = g.flash ∧ r.1 = g.writer) ∨
  (r.2 = .ok ∧ r.1.active = false ∧ ∃ s, session = some s ∧ Published t.flash s)

theorem commit_ensures {g : CacheGateway} (h : Inv g session) (script : List Step) :
    (perform g.writer .commit { flash := g.flash, script := script }).Ensures
      (Commits g (session.map fun s => { s with commitReached := true }))
      (fun t => Inv { flash := t.flash, writer := noWriter }
        (session.map fun s => { s with commitReached := true })) := by
  have hreach := h.reach
  rw [perform]
  change ((ArtifactCache.commit g.writer >>= fun r => pure (r.1, statusOf r.2)) _).Ensures _ _
  rw [ArtifactCache.commit]
  by_cases hactive : g.writer.active = false
  · rw [if_pos hactive]
    exact .inl ⟨nofun, rfl, rfl⟩
  rw [if_neg hactive]
  by_cases hsize : g.writer.writtenSize ≠ g.writer.expectedSize
  · rw [if_pos hsize]
    exact .inl ⟨nofun, rfl, rfl⟩
  rw [if_neg hsize]
  obtain ⟨s, rfl, hwriting⟩ := h.writing (Bool.eq_true_of_not_eq_false hactive)
  have hpartition : ¬ g.writer.hasPartition = false := by rw [hwriting.hasPartition]; decide
  have hlength : g.writer.expectedSize.toNat = s.streamed.length := by
    rw [← not_not.1 hsize, hwriting.written]
  have hdata : window g.flash dataOffset.toNat g.writer.expectedSize.toNat = s.streamed := by
    rw [hlength, hwriting.data]
  have hstreamed : UartOta.crc32 s.streamed = g.writer.runningCrc32 ^^^ 0xFFFFFFFF := by
    rw [hwriting.crc]
    rfl
  have hheader := hwriting.header_eq
  rw [if_neg hpartition, ensures_bind]
  refine Ensures.bind (calculateStoredImageCrc_ensures hwriting.acceptable.size_le) ?_ ?_
  · rintro r t ⟨rfl, hflash, -⟩
    change ((if UartOta.crc32 (window g.flash _ _) ≠ _ then _ else _ : Prog Contents _) t).Ensures
      _ _
    rw [hdata, if_neg (not_not.2 hstreamed), hheader]
    have hroom : 0 + (layout.encode s.header).length ≤ size := by
      rw [encode_length]
      decide
    refine Ensures.bind (write_ensures hroom) ?_ ?_
    · rintro r u ⟨rfl, huflash⟩
      rw [hflash, encode_length] at huflash
      have hall : window (stored g.flash 0 (layout.encode s.header) headerSize) 0 headerSize =
          layout.encode s.header := by
        rw [← encode_length s.header, window_eq_list_iff]
        intro i hi
        rw [stored, overlay_inside (by omega)]
        simp
      have hpublished : Published u.flash { s with commitReached := true } := by
        rw [huflash]
        exact hwriting.reach.publish rfl (not_not.1 hsize) le_rfl hall
      refine Ensures.bind openCache_ensures ?_ ?_
      · rintro r v ⟨rfl, hvflash, -⟩
        rw [hpublished.openResult_eq]
        exact .inr ⟨rfl, rfl, _, rfl, by rwa [hvflash]⟩
      · rintro v ⟨hvflash, -⟩
        rw [hvflash]
        exact Inv.of_published hpublished rfl
    · rintro u ⟨n, hn, huflash⟩
      rw [encode_length] at hn
      refine ⟨fun hon => (by cases hon), fun hvalid => ⟨_, rfl, ?_⟩⟩
      rw [huflash, hflash] at hvalid ⊢
      exact hwriting.reach.publish rfl (not_not.1 hsize) hn
        (torn_header hwriting.headerErased (headerOf_crc _ _) hvalid)
  · rintro t ⟨hflash, -⟩
    rw [hflash]
    exact hreach.restart

theorem keeps_commit {g : CacheGateway} (h : Inv g session) (script : List Step) :
    Keeps g session .commit script := by
  refine (commit_ensures h script).mono (fun r t ht => ?_) (fun t ht => ht)
  rcases ht with ⟨-, hflash, hwriter⟩ | ⟨-, hactive, s, hs, hpublished⟩
  · rw [hflash, hwriter]
    exact h.reach
  · change Inv _ (session.map _)
    rw [hs]
    exact Inv.of_published hpublished hactive

/-! ## Runs -/

theorem keeps {g : CacheGateway} (h : Inv g session) (call : Call) (script : List Step) :
    Keeps g session call script := by
  cases call with
  | beginWrite expectedSize updateId targetVersion =>
      exact keeps_beginWrite h expectedSize updateId targetVersion script
  | write data => exact keeps_write h data script
  | commit => exact keeps_commit h script
  | abort => exact keeps_abort h script

theorem step_inv {g : CacheGateway} (h : Inv g session) (call : Call) (script : List Step) :
    Inv (g.step call script).1 (watch session call script (g.step call script).2) := by
  have hkeeps := keeps h call script
  unfold Keeps at hkeeps
  rw [step]
  generalize perform g.writer call { flash := g.flash, script := script } = r at hkeeps ⊢
  cases r with
  | done value s => exact hkeeps
  | cut s => exact hkeeps
  | spin s => exact hkeeps.elim

theorem run_inv {g : CacheGateway} (h : Inv g session) (calls : List (Call × List Step)) :
    Inv (g.run calls) (g.watched session calls) := by
  induction calls generalizing g session with
  | nil => exact h
  | cons call calls ih => exact ih (step_inv h call.1 call.2)

/-- Without a loss of power `Open` reports what is in the partition. -/
theorem opened_eq (g : CacheGateway) : g.opened = some (openResult g.flash) := by
  have hopen := openCache_ensures (s := { flash := g.flash, script := [] })
  unfold opened
  generalize openCache { flash := g.flash, script := [] } = r at hopen ⊢
  cases r with
  | done value s => exact congrArg some hopen.1
  | cut s => exact absurd rfl hopen.2
  | spin s => exact hopen.elim

theorem headerValid_of_openResult {header : ArtifactCacheHeader}
    (h : openResult flash = .ok header) : headerValid (storedHeader flash) = true := by
  by_contra hvalid
  rw [openResult, if_neg hvalid] at h
  cases h

/-- Without a loss of power a read inside the partition returns its bytes. -/
theorem read_value {offset length : Nat} (h : offset + length ≤ size) :
    (EspPartition.read offset length { flash := flash, script := [] }).value? =
      some (.ok (window flash offset length)) := by
  have hread := read_ensures (s := { flash := flash, script := [] }) h
  generalize EspPartition.read offset length { flash := flash, script := [] } = r at hread ⊢
  cases r with
  | done value s => exact congrArg some hread.1
  | cut s => exact absurd rfl hread.2
  | spin s => exact hread.elim

/-- What `Read` returns of a published artifact. -/
theorem Published.bytesAt_eq {g : CacheGateway} {s : Session} (h : Published g.flash s)
    (offset : UInt32) (length : Nat) :
    g.bytesAt s.header offset length =
      some (if offset.toNat + length ≤ s.streamed.length then
        .ok ((s.streamed.drop offset.toNat).take length) else .error .invalidSize) := by
  have hsize : s.header.imageSize.toNat = s.streamed.length := h.complete.symm
  have hbound : s.streamed.length ≤ 0x2F000 := by
    rw [h.complete]
    exact h.acceptable.size_le
  have hrange : (offset > s.header.imageSize ∨
      length > s.header.imageSize.toNat - offset.toNat) ↔
      ¬ offset.toNat + length ≤ s.streamed.length := by
    rw [gt_iff_lt, UInt32.lt_iff_toNat_lt, hsize]
    omega
  rw [bytesAt, readCache]
  by_cases hfits : offset.toNat + length ≤ s.streamed.length
  · have haddress : (s.header.dataOffset + offset).toNat = dataOffset.toNat + offset.toNat := by
      rw [UInt32.toNat_add]
      change (4096 + offset.toNat) % 2 ^ 32 = 4096 + offset.toNat
      omega
    have hinside : dataOffset.toNat + offset.toNat + length ≤ size := by
      change 4096 + offset.toNat + length ≤ 0x30000
      omega
    rw [if_neg (mt hrange.1 (not_not.2 hfits)), if_pos hfits, haddress, read_value hinside]
    rw [← h.data, window_drop (by omega), window_take (by omega)]
  · rw [if_pos (hrange.2 hfits), if_neg hfits]
    rfl

/-! ## Publication -/

/-- Whether a call erases the header: a write that begins, or the end of an active one. -/
def erasesHeader (g : CacheGateway) (call : Call) (script : List Step) : Bool :=
  match call with
  | .beginWrite _ _ _ => erasedHeader script (g.step call script).2
  | .abort => g.writer.active && firstStepDone script
  | .write _ => false
  | .commit => false

/-- No call of a run erases the header. -/
def sparesHeader : CacheGateway → List (Call × List Step) → Bool
  | _, [] => true
  | g, (call, script) :: calls =>
      !g.erasesHeader call script && (g.step call script).1.sparesHeader calls

theorem step_spares {g : CacheGateway} (hactive : g.writer.active = false) {call : Call}
    {script : List Step} (h : g.erasesHeader call script = false) :
    (g.step call script).1.flash = g.flash ∧ (g.step call script).1.writer.active = false := by
  cases call with
  | write data =>
      rw [step, perform, writeData, if_pos hactive]
      exact ⟨rfl, hactive⟩
  | commit =>
      rw [step, perform, ArtifactCache.commit, if_pos hactive]
      exact ⟨rfl, hactive⟩
  | abort =>
      have hoff : ¬ (g.writer.hasPartition && g.writer.active) = true := by
        rw [hactive, Bool.and_false]
        decide
      rw [step, perform, ArtifactCache.abort, if_neg hoff]
      exact ⟨rfl, rfl⟩
  | beginWrite expectedSize updateId targetVersion =>
      have hbegins := beginWrite_ensures g expectedSize updateId targetVersion script
      rw [erasesHeader, step] at h
      rw [step]
      generalize perform g.writer (.beginWrite expectedSize updateId targetVersion)
        { flash := g.flash, script := script } = r at hbegins h ⊢
      cases r with
      | done value s =>
          rcases hbegins with ⟨-, hflash, hwriter⟩ | ⟨hstatus, -⟩
          · refine ⟨hflash, ?_⟩
            change value.1.active = false
            rw [hwriter, hactive]
          · have herases : erasedHeader script (.returned value.2) = false := h
            simp [erasedHeader, hstatus] at herases
      | cut s =>
          rcases hbegins with ⟨-, hflash⟩ | ⟨hdone, -⟩
          · exact ⟨hflash, rfl⟩
          · have herases : erasedHeader script .lost = false := h
            simp [erasedHeader, hdone] at herases
      | spin s => exact hbegins.elim

theorem run_spares {g : CacheGateway} (hactive : g.writer.active = false)
    {calls : List (Call × List Step)} (h : g.sparesHeader calls = true) :
    (g.run calls).flash = g.flash := by
  induction calls generalizing g with
  | nil => rfl
  | cons call calls ih =>
      rw [sparesHeader, Bool.and_eq_true, Bool.not_eq_true'] at h
      obtain ⟨hflash, hinactive⟩ := step_spares hactive h.1
      rw [run, ih hinactive h.2, hflash]

theorem run_append (g : CacheGateway) (xs ys : List (Call × List Step)) :
    g.run (xs ++ ys) = (g.run xs).run ys := by
  induction xs generalizing g with
  | nil => rfl
  | cons x xs ih => exact ih _

/-- A commit that returned success has published. -/
theorem step_commit_ok {g : CacheGateway} (h : Inv g session) {script : List Step}
    (hok : (g.step .commit script).2 = .returned .ok) :
    (g.step .commit script).1.writer.active = false ∧
      ∃ s, Published (g.step .commit script).1.flash s := by
  have hcommits := commit_ensures h script
  rw [step] at hok ⊢
  generalize perform g.writer .commit { flash := g.flash, script := script } = r at hcommits hok ⊢
  cases r with
  | done value s =>
      have hstatus : value.2 = .ok := Answer.returned.inj hok
      rcases hcommits with ⟨hfailed, -⟩ | ⟨-, hactive, session, -, hpublished⟩
      · exact absurd hstatus hfailed
      · exact ⟨hactive, session, hpublished⟩
  | cut s => cases hok
  | spin s => cases hok

/--
An artifact that can be opened is the complete one of the last write whose header
erase took effect, and what a commit has published can be opened until the header
is erased.
-/
theorem only_complete_artifacts_published (calls : List (Call × List Step)) :
    (∀ header, (erased.run calls).opened = some (.ok header) →
      ∃ s, erased.watched none calls = some s ∧ header.updateId = s.updateId ∧
        header.targetVersion = s.targetVersion ∧ header.imageSize = s.expectedSize ∧
        s.streamed.length = s.expectedSize.toNat ∧ s.commitReached = true ∧
        window (erased.run calls).flash 0 headerSize = layout.encode header ∧
        ∀ offset length, (erased.run calls).bytesAt header offset length =
          some (if offset.toNat + length ≤ s.streamed.length then
            .ok ((s.streamed.drop offset.toNat).take length) else .error .invalidSize)) ∧
    (∀ before script after, calls = before ++ (.commit, script) :: after →
      ((erased.run before).step .commit script).2 = .returned .ok →
      ((erased.run before).step .commit script).1.sparesHeader after = true →
      ∃ header, (erased.run calls).opened = some (.ok header)) := by
  constructor
  · intro header hopened
    have hopen : openResult (erased.run calls).flash = .ok header := by
      rw [opened_eq] at hopened
      exact Option.some.inj hopened
    obtain ⟨s, hsession, hpublished⟩ :=
      (run_inv Inv.erased calls).published (headerValid_of_openResult hopen)
    obtain rfl : s.header = header := by
      rw [hpublished.openResult_eq] at hopen
      exact Except.ok.inj hopen
    exact ⟨s, hsession, rfl, rfl, rfl, hpublished.complete, hpublished.commitReached,
      hpublished.header, hpublished.bytesAt_eq⟩
  · rintro before script after rfl hok hspared
    obtain ⟨hactive, s, hpublished⟩ := step_commit_ok (run_inv Inv.erased before) hok
    refine ⟨s.header, ?_⟩
    rw [opened_eq, run_append]
    change some (openResult ((((erased.run before).step .commit script).1.run after).flash)) = _
    rw [run_spares hactive hspared, hpublished.openResult_eq]

/-- A download of three bytes, with what happens to the flash steps of its commit. -/
def smallDownload (script : List Step) : List (Call × List Step) :=
  [(.beginWrite 3 7 2, []), (.write [0x11, 0x22], []), (.write [0x33], []), (.commit, script)]

example : ((erased.run (smallDownload [])).opened.map Except.isOk) = some true := by
  decide +kernel

-- the header write, which follows one read of the data, is cut after 33 bytes
example : ((erased.run (smallDownload [.ok, .cut 33])).opened.map Except.isOk) = some false := by
  decide +kernel

end CacheGateway

end SecureDeltaOta
