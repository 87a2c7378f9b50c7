import SecureDeltaOta.Storage.MetadataStorage

/-!
# Commits in any environment

A commit that reports success has persisted its record whatever the internal
flash did. Where the internal flash works and commits are atomic, the history
accounts for every change of the persisted record: a program moves the log of
the node by the requests it makes.
-/

namespace SecureDeltaOta

open Memory Crash

namespace MetadataStorage

open BootMetadata (recordSize)

section Slots

variable {μ : Mode} {up : Bool} {s : Machine}

/-- Everything but one page of the internal flash is kept. -/
abbrev PageFrame (address : Nat) : Device → Device → Prop :=
  Frame (fun a => a < address ∨ address + internalFlashPageSize ≤ a) fun _ => True

theorem programSlot_keeps {R : Device → Device → Prop} [IsPreorder Device R] {slot : Slot}
    {m : BootMetadata} (h : ∀ d start len bytes, slotAddress slot ≤ start →
      start + len ≤ slotAddress slot + internalFlashPageSize → R d (d.withInternal start len bytes)) :
    Keeps R (programSlot slot m) := by
  unfold programSlot
  refine Keeps.ite (Keeps.pure _) ?_
  refine Keeps.bind (Keeps.erasePage fun d bytes => h d _ _ bytes le_rfl le_rfl) fun erased => ?_
  refine Keeps.ite (Keeps.pure _) (Keeps.loopThen ?_ (fun _ => Keeps.pure _) _ _)
  intro offset hoffset
  have hroom : offset + 2 ≤ internalFlashPageSize := by
    have hlt : offset < recordSize := of_decide_eq_true hoffset
    unfold recordSize at hlt
    unfold internalFlashPageSize
    omega
  refine Keeps.bind (Keeps.programHalfWord fun d bytes => h d _ _ bytes (by omega) (by omega))
    fun complete => ?_
  exact Keeps.ite (Keeps.pure _) (Keeps.pure _)

theorem programSlot_frame (slot : Slot) (m : BootMetadata) :
    Keeps (PageFrame (slotAddress slot)) (programSlot slot m) :=
  programSlot_keeps fun _ _ _ _ hlow hhigh =>
    ⟨fun _ ha => Device.withInternal_outside (by omega), fun _ _ => rfl⟩

/-- A commit changes the metadata pages only. -/
theorem commit_frame (requested : BootMetadata) : Keeps MetadataFrame (commit requested) := by
  have hrecord : ∀ (d : Device) (e : Event), MetadataFrame d (d.record e) :=
    fun _ _ => ⟨fun _ _ => rfl, fun _ _ => rfl⟩
  have hslot : ∀ slot m, Keeps MetadataFrame (programSlot slot m) := by
    intro slot m
    cases slot with
    | none =>
        unfold programSlot
        dsimp only
        rw [if_pos (by decide)]
        exact Keeps.pure _
    | a =>
        refine (programSlot_frame .a m).mono fun d d' h => h.mono (fun a ha => ?_) fun _ ha => ha
        have haddress : slotAddress .a = bootMetadataAAddress := rfl
        have hpages : bootMetadataAAddress ≤ bootMetadataBAddress := by decide
        unfold Page at ha
        omega
    | b =>
        refine (programSlot_frame .b m).mono fun d d' h => h.mono (fun a ha => ?_) fun _ ha => ha
        have haddress : slotAddress .b = bootMetadataBAddress := rfl
        have hpages : bootMetadataAAddress ≤ bootMetadataBAddress := by decide
        unfold Page at ha
        omega
  have hsteps : Keeps MetadataFrame (commitSteps requested) := by
    refine Keeps.bind (Keeps.read _) fun before => ?_
    refine Keeps.ite (Keeps.bind (Keeps.read _) fun writer =>
      Keeps.bind (Keeps.update fun d => hrecord d _) fun _ => Keeps.pure _) ?_
    refine Keeps.bind (hslot _ _) fun status => Keeps.ite (Keeps.pure _) ?_
    refine Keeps.bind (Keeps.read _) fun verification => Keeps.ite (Keeps.pure _) ?_
    exact Keeps.bind (Keeps.read _) fun writer =>
      Keeps.bind (Keeps.update fun d => hrecord d _) fun _ => Keeps.pure _
  exact Keeps.bind (Keeps.read _) fun atomic => Keeps.ite (Keeps.atomic hsteps) hsteps

theorem programSlot_history (slot : Slot) (m : BootMetadata) :
    Keeps SameHistory (programSlot slot m) :=
  programSlot_keeps fun _ _ _ _ _ _ => rfl

theorem programSlot_returns (hs : Env μ up s) (slot : Slot) (m : BootMetadata) :
    Holds μ up (programSlot slot m s) (fun _ _ => True) (fun _ => True) := by
  unfold programSlot
  split
  · exact Holds.pure hs trivial
  refine Holds.bind (erasePage_returns hs _) ?_ (fun _ h => h)
  intro erased t ht _
  split
  · exact Holds.pure ht trivial
  refine Holds.loopThen (I := fun _ _ => True) (fun offset => recordSize - offset) ?_ ?_
    (fun _ u hu _ _ => Holds.pure hu trivial) ht le_rfl trivial
  · intro offset d hoffset _
    simpa using hoffset
  · intro offset u hu hoffset _
    simp only [decide_eq_true_eq] at hoffset
    refine Holds.bind (programHalfWord_returns hu _ _ _) ?_ (fun _ h => h)
    intro complete v hv _
    split
    · exact Holds.pure hv trivial
    · exact Holds.pure hv ⟨trivial, by omega⟩

theorem persisted_of_slots {d d' : Device}
    (hA : copyFromFlash d' bootMetadataAAddress = copyFromFlash d bootMetadataAAddress)
    (hB : copyFromFlash d' bootMetadataBAddress = copyFromFlash d bootMetadataBAddress) :
    persisted d' = persisted d := by
  unfold persisted
  rw [hA, hB]

theorem copyFromFlash_outside {d d' : Device} {here there : Nat} (hframe : PageFrame here d d')
    (h : here + internalFlashPageSize ≤ there ∨ there + internalFlashPageSize ≤ here) :
    copyFromFlash d' there = copyFromFlash d there := by
  have hsize : recordSize ≤ internalFlashPageSize := by decide
  exact copyFromFlash_congr fun i hi => hframe.internal _ (by omega)

/-- A slot that reads back as the candidate makes it the current record. -/
theorem persisted_of_target {d d' : Device} {requested : BootMetadata}
    (hframe : PageFrame (slotAddress (targetSlot d)) d d') (h : requested.Acceptable)
    (hread : copyFromFlash d' (slotAddress (targetSlot d)) = candidateFor d requested) :
    persisted d' = some (candidateFor d requested) := by
  -- the same two slots as after the steps of an undisturbed commit
  rw [← persisted_complete h]
  have hprogrammed : PageFrame (slotAddress (targetSlot d)) d
      (programmedSlot d (slotAddress (targetSlot d)) (candidateFor d requested) recordSize) :=
    ⟨fun _ ha => programmedSlot_outside ha, fun _ _ => programmedSlot_external _ _ _ _ _⟩
  have hwritten : copyFromFlash (programmedSlot d (slotAddress (targetSlot d))
      (candidateFor d requested) recordSize) (slotAddress (targetSlot d)) =
      candidateFor d requested := by
    rw [copyFromFlash_programmedSlot, BootMetadata.torn_of_complete le_rfl]
  have hAB : bootMetadataAAddress + internalFlashPageSize ≤ bootMetadataBAddress := by decide
  cases hslot : targetSlot d with
  | none => exact absurd hslot (targetSlot_ne_none d)
  | a =>
      rw [hslot] at hframe hread hprogrammed hwritten
      exact persisted_of_slots (hread.trans hwritten.symm)
        ((copyFromFlash_outside hframe (.inl hAB)).trans
          (copyFromFlash_outside hprogrammed (.inl hAB)).symm)
  | b =>
      rw [hslot] at hframe hread hprogrammed hwritten
      exact persisted_of_slots
        ((copyFromFlash_outside hframe (.inr hAB)).trans
          (copyFromFlash_outside hprogrammed (.inr hAB)).symm) (hread.trans hwritten.symm)

theorem pageFrame_metadata {d d' : Device} (h : PageFrame (slotAddress (targetSlot d)) d d') :
    MetadataFrame d d' :=
  h.mono (fun _ ha => slotAddress_page ha) fun _ ha => ha

end Slots

section Commit

variable {μ : Mode} {up : Bool} {s : Machine}

/-- How a commit ends, whatever the internal flash does. -/
structure CommitEnd (μ : Mode) (requested : BootMetadata) (d : Device)
    (r : Except MetadataStorageStatus BootMetadata) (d' : Device) : Prop where
  frame : MetadataFrame d d'
  cases : (∃ c, r = .ok c ∧ c.Stores requested ∧ Persisted d' c ∧
      d'.history = .commit μ.writer (persisted d) c :: d.history) ∨
    (∃ e, r = .error e) ∧ (¬ requested.Acceptable ∧
        d' = d.record (.refused μ.writer (persisted d) requested) ∨
      μ.internalFaults = true)

theorem commitSteps_refused (hs : Env μ up s) {requested : BootMetadata}
    (h : ¬ requested.Acceptable) :
    Holds μ up (commitSteps requested s) (CommitEnd μ requested s.device) (fun _ => False) :=
  (commitSteps_refuses hs h).mono
    (fun _ _ hr => ⟨hr.2 ▸ ⟨fun _ _ => rfl, fun _ _ => rfl⟩, .inr ⟨⟨_, hr.1⟩, .inl ⟨h, hr.2⟩⟩⟩)
    (fun _ hd => hd)

theorem commitSteps_accepted (hs : Env μ up s) {requested : BootMetadata}
    (h : requested.Acceptable) (hfault : μ.internalFaults = true) :
    Holds μ up (commitSteps requested s) (CommitEnd μ requested s.device)
      (fun d => MetadataFrame s.device d ∧ d.history = s.device.history) := by
  have hvalid : (candidateFor s.device requested).Valid := candidateFor_valid.2 h
  refine Holds.read_bind ?_
  rw [if_neg (not_not.2 (BootMetadata.validate_eq_valid.2 hvalid))]
  refine Holds.bind (((programSlot_returns hs _ _).and_keeps
    (programSlot_frame (targetSlot s.device) _)).and_keeps (programSlot_history _ _)) ?_
    (fun d hd => ⟨pageFrame_metadata hd.1.2, hd.2⟩)
  rintro status t ht ⟨⟨-, hframe⟩, hhistory⟩
  have hfailed : ∀ e, Holds μ up ((pure (.error e) : Prog Machine _) t)
      (CommitEnd μ requested s.device)
      (fun d => MetadataFrame s.device d ∧ d.history = s.device.history) :=
    fun e => Holds.pure ht ⟨pageFrame_metadata hframe, .inr ⟨⟨e, rfl⟩, .inr hfault⟩⟩
  split
  · exact hfailed _
  refine Holds.read_bind ?_
  split
  · exact hfailed _
  next hverified =>
  -- the record read back is the candidate, byte for byte
  have hequal : recordsEqual (candidateFor s.device requested)
      (copyFromFlash t.device (slotAddress (targetSlot s.device))) = true :=
    eq_true_of_ne_false (not_or.1 hverified).2
  have hread : copyFromFlash t.device (slotAddress (targetSlot s.device)) =
      candidateFor s.device requested :=
    (BootMetadata.layout.encode_injective (of_decide_eq_true hequal)).symm
  have hread' : copyFromFlash t.device (slotAddress (BootMetadata.selectWriteSlot
      (copyFromFlash s.device bootMetadataAAddress)
      (copyFromFlash s.device bootMetadataBAddress))) = candidateFor s.device requested := hread
  rw [hread']
  refine Holds.read_bind (Holds.update_bind (Holds.pure (ht.withDevice _) ⟨?_, .inl ⟨_, rfl,
    candidateFor_stores _ _, ?_, ?_⟩⟩))
  · exact ⟨(pageFrame_metadata hframe).internal, (pageFrame_metadata hframe).external⟩
  · exact (persisted_record _ _).trans (persisted_of_target hframe h hread)
  · rw [Device.record_history, ht.writer, hhistory]

theorem commitSteps_ends (hs : Env μ up s) (requested : BootMetadata) :
    Holds μ up (commitSteps requested s) (CommitEnd μ requested s.device)
      (fun d => MetadataFrame s.device d ∧ d.history = s.device.history) := by
  by_cases h : requested.Acceptable
  · cases hfault : μ.internalFaults with
    | true => exact commitSteps_accepted hs h hfault
    | false =>
        have hsound : μ.Sound := ⟨hfault⟩
        refine (commitSteps_holds hs h).mono ?_ ?_
        · rintro r d ⟨rfl, rfl⟩
          exact ⟨committedDevice_frame _ _ _, .inl ⟨_, rfl, candidateFor_stores _ _,
            committedDevice_persisted h, committedDevice_history _ _ _⟩⟩
        · rintro d (rfl | ⟨n, -, -, rfl⟩)
          · exact ⟨refl_of MetadataFrame _, rfl⟩
          · exact ⟨programmedSlot_frame _ _ _, programmedSlot_history _ _ _ _⟩
  · exact (commitSteps_refused hs h).mono (fun _ _ hr => hr) fun _ hd => hd.elim

/-- A commit in any environment; a cut leaves the device alone where commits are atomic. -/
theorem commit_ends (hs : Env μ up s) (requested : BootMetadata) :
    Holds μ up (commit requested s) (CommitEnd μ requested s.device)
      (fun d => MetadataFrame s.device d ∧ d.history = s.device.history ∧
        (μ.atomicCommit = true → d = s.device)) := by
  refine Holds.read_bind ?_
  rw [hs.atomicCommit]
  cases hatomic : μ.atomicCommit with
  | true =>
      simp only [if_true]
      exact Holds.atomic (commitSteps_ends hs requested)
        ⟨refl_of MetadataFrame _, rfl, fun _ => rfl⟩
  | false =>
      simp only [Bool.false_eq_true, if_false]
      exact (commitSteps_ends hs requested).mono (fun _ _ hr => hr)
        fun _ hd => ⟨hd.1, hd.2, fun h => h.elim⟩

end Commit

end MetadataStorage

/-! ## The log of the node -/

/-- What an observer of the metadata knows: the current record and the history. -/
structure Log where
  record : Option BootMetadata
  history : List Event

def Device.log (d : Device) : Log :=
  ⟨MetadataStorage.persisted d, d.history⟩

theorem Device.log_record (d : Device) (e : Event) :
    (d.record e).log = ⟨d.log.record, e :: d.log.history⟩ := by
  unfold log
  rw [MetadataStorage.persisted_record]
  rfl

/-- One request of a program: it is committed, or refused as unacceptable. -/
inductive Log.Step (writer : Writer) (R : Option BootMetadata → BootMetadata → Prop) :
    Log → Log → Prop
  | commit {l : Log} {requested c : BootMetadata} (hrequest : R l.record requested)
      (hstores : c.Stores requested) (hvalid : c.Valid) :
      Step writer R l ⟨some c, .commit writer l.record c :: l.history⟩
  | refused {l : Log} {requested : BootMetadata} (hrequest : R l.record requested)
      (hrefused : ¬ requested.Acceptable) :
      Step writer R l ⟨l.record, .refused writer l.record requested :: l.history⟩

/-- Any number of requests. -/
abbrev Log.Steps (writer : Writer) (R : Option BootMetadata → BootMetadata → Prop) :
    Log → Log → Prop :=
  Relation.ReflTransGen (Log.Step writer R)

/-- The history accounts for every change of the persisted record. -/
structure Mode.Logged (μ : Mode) : Prop where
  internal : μ.internalFaults = false
  atomic : μ.atomicCommit = true

namespace MetadataStorage

theorem CommitEnd.step {μ : Mode} {requested : BootMetadata} {d d' : Device}
    {r : Except MetadataStorageStatus BootMetadata} (h : CommitEnd μ requested d r d')
    (hlogged : μ.Logged) {R : Option BootMetadata → BootMetadata → Prop}
    (hrequest : R (persisted d) requested) : Log.Step μ.writer R d.log d'.log := by
  rcases h.cases with ⟨c, -, hstores, hpersisted, hhistory⟩ | ⟨-, ⟨hrefused, rfl⟩ | hfault⟩
  · have hlog : d'.log = ⟨some c, .commit μ.writer d.log.record c :: d.log.history⟩ := by
      unfold Device.log
      rw [hpersisted, hhistory]
    rw [hlog]
    exact .commit hrequest hstores hpersisted.valid
  · rw [Device.log_record]
    exact .refused (l := d.log) hrequest hrefused
  · rw [hlogged.internal] at hfault
    cases hfault

end MetadataStorage

end SecureDeltaOta
