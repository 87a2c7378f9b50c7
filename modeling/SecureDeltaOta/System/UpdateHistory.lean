import SecureDeltaOta.System.CommitHistory

/-!
# What histories look like

Properties of every history of a node whose internal flash works and whose
commits are atomic: no request is refused, the persisted state changes by a
fixed table, trials are bounded and confirmed only by the version under trial.
-/

namespace SecureDeltaOta

open Memory Crash MetadataStorage

/-! ## Requests are acceptable -/

namespace BootMetadata

/--
While an image is being installed its version is known and its attempts can
still be stored in a rollback, which validation does not ask for.
-/
def Pursued (m : BootMetadata) : Prop :=
  m.state = UpdateState.installing.code ∨ m.state = UpdateState.verifyingInstall.code →
    m.pendingVersion ≠ 0 ∧ m.bootAttempts.toNat ≤ 3

theorem pursued_of_state {m : BootMetadata} (st : UpdateState) (h : m.state = st.code)
    (hst : st ≠ .installing ∧ st ≠ .verifyingInstall) : m.Pursued := by
  intro hstate
  rw [h, UpdateState.code_inj, UpdateState.code_inj] at hstate
  exact (hstate.elim hst.1 hst.2).elim

/-- A record a node can work with. -/
structure Sustained (m : BootMetadata) : Prop where
  valid : m.Valid
  pursued : m.Pursued

theorem Stores.pursued {c m : BootMetadata} (h : c.Stores m) (hm : m.Pursued) : c.Pursued := by
  unfold Pursued at hm ⊢
  rw [h.state, h.pendingVersion, h.bootAttempts]
  exact hm

end BootMetadata

open BootMetadata (Sustained Pursued pursued_of_state)

namespace BootManager

variable {m : BootMetadata}

/-- From the states of an installation on, the version is known. -/
theorem copy_pursued {st : UpdateState} (hm : m.Sustained) (hstate : m.state = st.code)
    (hst : st ∈ [UpdateState.backingUp, .installing, .verifyingInstall, .trialBoot, .rollback]) :
    m.pendingVersion ≠ 0 ∧ m.bootAttempts.toNat ≤ 3 := by
  have hfields := hm.valid.fieldsOf hstate
  fin_cases hst
  · obtain ⟨-, hpending, hattempts, -⟩ := hfields
    exact ⟨hpending, by simp [hattempts]⟩
  · exact hm.pursued (.inl hstate)
  · exact hm.pursued (.inr hstate)
  · exact ⟨hfields.2.1, hfields.2.2.2⟩
  · exact ⟨hfields.2.1, hfields.2.2.1⟩

theorem installing_complete {st : UpdateState} (hm : m.Valid) (hstate : m.state = st.code)
    (hst : st ∈ [UpdateState.imageReady, .installing, .verifyingInstall, .trialBoot]) :
    m.Complete := by
  have hfields := hm.fieldsOf hstate
  fin_cases hst
  · have hready : m.stateFieldsAreConsistent = true := hfields
    unfold BootMetadata.stateFieldsAreConsistent at hready
    rw [hstate, UpdateState.ofCode_code] at hready
    exact BootMetadata.updatePayloadIsComplete_iff.1 hready
  · exact hfields.1
  · exact hfields.1
  · exact hfields.1

/-- Every record the bootloader asks for is acceptable, and the installation stays pursued. -/
theorem Request.acceptable {before : Option BootMetadata} {requested : BootMetadata}
    (h : Request before requested) (hbefore : ∀ m, before = some m → m.Sustained) :
    requested.Acceptable ∧ requested.Pursued := by
  cases h with
  | factory version =>
      exact ⟨⟨rfl, UInt32.le_refl _, Nat.zero_le _, Nat.zero_le _, rfl⟩,
        pursued_of_state .idle rfl (by decide)⟩
  | @rejected m st hst hstate reason =>
      exact ⟨SecureContainer.rejected_acceptable m reason,
        pursued_of_state .idle rfl (by decide)⟩
  | @entering m st st' hst hstate hst' =>
      have hm := hbefore m rfl
      refine ⟨SecureContainer.entering_acceptable ⟨⟨st, hst, hstate⟩, .refl m⟩ hm.valid hst',
        pursued_of_state st' rfl ?_⟩
      fin_cases hst' <;> decide
  | @imageReady m info hstate hw hpolicy =>
      have hm := hbefore m rfl
      exact ⟨SecureContainer.imageReady_acceptable ⟨⟨.patching, by decide, hstate⟩, .refl m⟩
        hm.valid hw, pursued_of_state .imageReady rfl (by decide)⟩
  | @reverted m hstate reason =>
      exact ⟨ImageInstaller.reverted_acceptable m reason,
        pursued_of_state .idle rfl (by decide)⟩
  | @failed m st hst hstate reason =>
      exact ⟨moved_acceptable (hbefore m rfl).valid (hbefore m rfl).valid.copied rfl,
        pursued_of_state .failed rfl (by decide)⟩
  | @backup m hstate hpending =>
      have hm := hbefore m rfl
      obtain ⟨hid, hsize, hreceived⟩ := installing_complete hm.valid hstate (by decide)
      exact ⟨BootMetadata.acceptable_of (s := .backingUp) rfl hm.valid.received hm.valid.expected
        (Nat.zero_le _) ⟨⟨hid, hsize, hreceived⟩, hpending, rfl, Nat.zero_le _, .inr rfl⟩,
        pursued_of_state .backingUp rfl (by decide)⟩
  | @copy m st st' copyOffset lastError hst hstate hacceptable =>
      have hpursued : m.pendingVersion ≠ 0 ∧ m.bootAttempts.toNat ≤ 3 := by
        refine copy_pursued (hbefore m rfl) hstate ?_
        fin_cases hst <;> decide
      exact ⟨hacceptable, fun _ => hpursued⟩
  | @trial m hstate hpending =>
      have hm := hbefore m rfl
      obtain ⟨hid, hsize, hreceived⟩ := installing_complete hm.valid hstate (by decide)
      exact ⟨BootMetadata.acceptable_of (s := .trialBoot) rfl hm.valid.received hm.valid.expected
        (Nat.zero_le _) ⟨⟨hid, hsize, hreceived⟩, hpending, rfl, Nat.zero_le _⟩,
        pursued_of_state .trialBoot rfl (by decide)⟩
  | @rollback m st hst hstate diagnostic =>
      have hm := hbefore m rfl
      have hpursued : m.pendingVersion ≠ 0 ∧ m.bootAttempts.toNat ≤ 3 := by
        refine copy_pursued hm hstate ?_
        fin_cases hst <;> decide
      have hcomplete : m.Complete := by
        refine installing_complete hm.valid hstate ?_
        fin_cases hst <;> decide
      exact ⟨moved_acceptable hm.valid (Nat.zero_le _)
        ⟨⟨hcomplete.updateId, hcomplete.size, hcomplete.received⟩, hpursued.1, hpursued.2,
          Nat.zero_le _, .inr rfl⟩, pursued_of_state .rollback rfl (by decide)⟩
  | @rolledBack m hstate backup diagnostic =>
      exact ⟨ImageInstaller.rolledBack_acceptable m backup diagnostic,
        pursued_of_state .idle rfl (by decide)⟩
  | @attempt m hstate hattempts =>
      exact ⟨attempt_acceptable (hbefore m rfl).valid hstate hattempts,
        pursued_of_state .trialBoot hstate (by decide)⟩
  | @finalized m hstate hpending =>
      exact ⟨⟨rfl, UInt32.le_refl _, Nat.zero_le _, Nat.zero_le _, rfl⟩,
        pursued_of_state .idle rfl (by decide)⟩

end BootManager

namespace OtaReceiver

/-- Every record the application asks for is acceptable. -/
theorem Request.acceptable {version : UInt32} {g : Session} {before : Option BootMetadata}
    {requested : BootMetadata} (h : Request version g before requested) (hg : Servable g)
    (hbefore : ∀ m, before = some m → m.Sustained) :
    requested.Acceptable ∧ requested.Pursued := by
  cases h with
  | install hstate htarget =>
      obtain ⟨hid, hne, hsize, -⟩ := hg.ready hstate
      refine ⟨⟨rfl, UInt32.le_refl _, hsize, Nat.zero_le _, ?_⟩,
        pursued_of_state .artifactReady rfl (by decide)⟩
      unfold BootMetadata.stateFieldsAreConsistent installRequest
      dsimp only
      rw [UpdateState.ofCode_code]
      simp [BootMetadata.updatePayloadIsComplete, hid, hne]
  | @confirm m hstate hpending hpos hle =>
      have hm := (hbefore m rfl).valid
      obtain ⟨hcomplete, hversion, -, hattempts⟩ := hm.fieldsOf hstate
      refine ⟨BootMetadata.acceptable_of (s := .confirmed) rfl hm.received hm.expected
        (Nat.zero_le _) ⟨⟨hcomplete.updateId, hcomplete.size, hcomplete.received⟩, hversion, rfl,
          ?_, hattempts⟩, pursued_of_state .confirmed rfl (by decide)⟩
      exact UInt32.lt_iff_toNat_lt.1 hpos

end OtaReceiver

/-! ## Lawful commits -/

open SecureContainer (unprocessed)
open BootManager (startStates activeStates attempted)

/-- The states that may follow a persisted state, by the program that commits them. -/
def successors : Writer → UpdateState → List UpdateState
  | .bootloader, .artifactReady | .bootloader, .verifyingContainer
  | .bootloader, .verifyingBase => .idle :: unprocessed
  | .bootloader, .patching => .idle :: .imageReady :: unprocessed
  | .bootloader, .imageReady => [.idle, .backingUp, .failed]
  | .bootloader, .backingUp => [.idle, .backingUp, .installing, .failed]
  | .bootloader, .installing => [.installing, .verifyingInstall, .rollback, .failed]
  | .bootloader, .verifyingInstall => [.installing, .trialBoot, .rollback, .failed]
  | .bootloader, .trialBoot => [.trialBoot, .rollback, .failed]
  | .bootloader, .confirmed => [.idle]
  | .bootloader, .rollback => [.rollback, .idle, .failed]
  | .application _, .idle | .application _, .receiving => [.artifactReady]
  | .application _, .trialBoot => [.artifactReady, .confirmed]
  | _, _ => []

/-- How the attempts of a trial are counted. -/
def CountsAttempts (st st' : UpdateState) (m c : BootMetadata) : Prop :=
  st' = .trialBoot → (st = .trialBoot ∧ c.bootAttempts.toNat = m.bootAttempts.toNat + 1 ∨
    st ≠ .trialBoot ∧ c.bootAttempts = 0) ∧ c.bootAttempts.toNat ≤ 3

/-- A trial is confirmed by the version under trial, after it was started. -/
def ConfirmsTrial (writer : Writer) (st' : UpdateState) (m : BootMetadata) : Prop :=
  st' = .confirmed → writer = .application m.pendingVersion ∧ 0 < m.bootAttempts.toNat ∧
    m.bootAttempts.toNat ≤ 3

/-- The active version changes when an update is closed. -/
def KeepsVersion (st st' : UpdateState) (m c : BootMetadata) : Prop :=
  c.activeVersion = m.activeVersion ∨
    st' = .idle ∧ (st = .confirmed ∧ c.activeVersion = m.pendingVersion ∨ st = .rollback)

/-- What may be committed over a record. -/
inductive Lawful (writer : Writer) : Option BootMetadata → BootMetadata → Prop
  | factory {c : BootMetadata} (hwriter : writer = .bootloader)
      (hstate : c.state = UpdateState.idle.code) : Lawful writer none c
  | next {m c : BootMetadata} {st : UpdateState} (st' : UpdateState) (hstate : m.state = st.code)
      (hstate' : c.state = st'.code) (hnext : st' ∈ successors writer st)
      (hattempts : CountsAttempts st st' m c) (hconfirms : ConfirmsTrial writer st' m)
      (hversion : KeepsVersion st st' m c) : Lawful writer (some m) c

/-- A step that neither starts nor confirms a trial, nor closes an update. -/
theorem lawful_of_kept {writer : Writer} {m c requested : BootMetadata} {st : UpdateState}
    (st' : UpdateState) (hstate : m.state = st.code) (hstores : c.Stores requested)
    (hstate' : requested.state = st'.code) (hnext : st' ∈ successors writer st)
    (hother : st' ≠ .trialBoot ∧ st' ≠ .confirmed)
    (hversion : requested.activeVersion = m.activeVersion) : Lawful writer (some m) c :=
  .next st' hstate (hstores.state.trans hstate') hnext (fun h => absurd h hother.1)
    (fun h => absurd h hother.2) (.inl (hstores.activeVersion.trans hversion))

theorem BootManager.Request.lawful {before : Option BootMetadata} {requested c : BootMetadata}
    (h : Request before requested) (hstores : c.Stores requested) :
    Lawful .bootloader before c := by
  cases h with
  | factory version => exact .factory rfl hstores.state
  | @rejected m st hst hstate reason =>
      refine lawful_of_kept .idle hstate hstores rfl ?_ (by decide) rfl
      fin_cases hst <;> decide
  | @entering m st st' hst hstate hst' =>
      refine lawful_of_kept st' hstate hstores rfl ?_ ?_ rfl
      · fin_cases hst <;> fin_cases hst' <;> decide
      · fin_cases hst' <;> decide
  | @imageReady m info hstate hw hpolicy =>
      exact lawful_of_kept .imageReady hstate hstores rfl (by decide) (by decide) rfl
  | @reverted m hstate reason =>
      rcases hstate with hstate | hstate
      · exact lawful_of_kept .idle hstate hstores rfl (by decide) (by decide) rfl
      · exact lawful_of_kept .idle hstate hstores rfl (by decide) (by decide) rfl
  | @failed m st hst hstate reason =>
      refine lawful_of_kept .failed hstate hstores rfl ?_ (by decide) rfl
      fin_cases hst <;> decide
  | @backup m hstate hpending =>
      exact lawful_of_kept .backingUp hstate hstores rfl (by decide) (by decide) rfl
  | @copy m st st' copyOffset lastError hst hstate hacceptable =>
      refine lawful_of_kept st' hstate hstores rfl ?_ ?_ rfl
      · fin_cases hst <;> decide
      · fin_cases hst <;> decide
  | @trial m hstate hpending =>
      refine .next .trialBoot hstate hstores.state (by decide) ?_ (fun h => by cases h)
        (.inl hstores.activeVersion)
      intro _
      have hzero : c.bootAttempts = 0 := hstores.bootAttempts
      exact ⟨.inr ⟨by decide, hzero⟩, by simp [hzero]⟩
  | @rollback m st hst hstate diagnostic =>
      refine lawful_of_kept .rollback hstate hstores rfl ?_ (by decide) rfl
      fin_cases hst <;> decide
  | @rolledBack m hstate backup diagnostic =>
      exact .next .idle hstate hstores.state (by decide) (fun h => by cases h)
        (fun h => by cases h) (.inr ⟨rfl, .inr rfl⟩)
  | @attempt m hstate hattempts =>
      have hstate' : c.state = UpdateState.trialBoot.code := hstores.state.trans hstate
      refine .next .trialBoot hstate hstate' (by decide) ?_ (fun h => by cases h)
        (.inl hstores.activeVersion)
      intro _
      have hlt : m.bootAttempts.toNat < 3 := by
        have hnot := UInt32.not_le.1 hattempts
        rwa [UInt32.lt_iff_toNat_lt] at hnot
      have hcount : c.bootAttempts.toNat = m.bootAttempts.toNat + 1 := by
        rw [hstores.bootAttempts, UInt32.toNat_add]
        have hone : (1 : UInt32).toNat = 1 := rfl
        omega
      exact ⟨.inl ⟨rfl, hcount⟩, by omega⟩
  | @finalized m hstate hpending =>
      exact .next .idle hstate hstores.state (by decide) (fun h => by cases h)
        (fun h => by cases h) (.inr ⟨rfl, .inl ⟨rfl, hstores.activeVersion⟩⟩)

theorem OtaReceiver.Request.lawful {version : UInt32} {g : Session} {m requested c : BootMetadata}
    {st : UpdateState} (h : Request version g (some m) requested) (hst : st ∈ startStates)
    (hstate : m.state = st.code) (hstores : c.Stores requested) :
    Lawful (.application version) (some m) c := by
  cases h with
  | install hready htarget =>
      refine lawful_of_kept .artifactReady hstate hstores rfl ?_ (by decide) rfl
      fin_cases hst <;> simp [successors]
  | confirm htrial hpending hpos hle =>
      refine .next .confirmed htrial hstores.state (by simp [successors])
        (fun h => by cases h) ?_ (.inl hstores.activeVersion)
      intro _
      exact ⟨by rw [hpending], UInt32.lt_iff_toNat_lt.1 hpos, UInt32.le_iff_toNat_le.1 hle⟩

/-- A lawful commit of a trial counts the attempt, or begins a new trial. -/
theorem Lawful.trial_attempts {writer : Writer} {before : Option BootMetadata} {c : BootMetadata}
    (h : Lawful writer before c) (hc : c.state = UpdateState.trialBoot.code) :
    c.bootAttempts.toNat ≤ 3 ∧ ∃ m, before = some m ∧
      (m.state = UpdateState.trialBoot.code → c.bootAttempts.toNat = m.bootAttempts.toNat + 1) := by
  cases h with
  | factory _ hstate =>
      rw [hc, UpdateState.code_inj] at hstate
      cases hstate
  | @next m _ st st' hstate hstate' _ hattempts _ _ =>
      rw [hc, UpdateState.code_inj] at hstate'
      obtain ⟨hcount, hle⟩ := hattempts hstate'.symm
      refine ⟨hle, m, rfl, ?_⟩
      intro htrial
      rw [hstate, UpdateState.code_inj] at htrial
      rcases hcount with ⟨-, hcount⟩ | ⟨hother, -⟩
      · exact hcount
      · exact absurd htrial hother

/-! ## Histories -/

namespace Log

/-- The record that is current after a history that began with the record `r`. -/
def current (r : Option BootMetadata) : List Event → Option BootMetadata
  | [] => r
  | .commit _ _ c :: _ => some c
  | _ :: earlier => current r earlier

/-- The application may be started after a history. -/
def Startable (r : Option BootMetadata) (earlier : List Event) : Prop :=
  (∃ m st, current r earlier = some m ∧ st ∈ activeStates ∧ m.state = st.code) ∨
    ∃ m c before, earlier = .commit .bootloader (some m) c :: before ∧
      m.state = UpdateState.trialBoot.code ∧ c.state = UpdateState.trialBoot.code

/-- The histories of an update protocol that keeps to its rules. -/
def Orderly (r : Option BootMetadata) : List Event → Prop
  | [] => True
  | .boot :: earlier => Orderly r earlier
  | .commit writer before c :: earlier =>
      before = current r earlier ∧ Lawful writer before c ∧ Orderly r earlier
  | .refused _ _ _ :: _ => False
  | .jump :: earlier => Startable r earlier ∧ Orderly r earlier

/-- A log whose history is orderly and accounts for a record that can be worked with. -/
structure Consistent (r : Option BootMetadata) (l : Log) : Prop where
  record : l.record = current r l.history
  sustained : ∀ m, l.record = some m → m.Sustained
  orderly : Orderly r l.history

theorem consistent_commit {r : Option BootMetadata} {l : Log} (hl : Consistent r l)
    {writer : Writer} {c : BootMetadata} (hc : c.Sustained) (hlawful : Lawful writer l.record c) :
    Consistent r ⟨some c, .commit writer l.record c :: l.history⟩ := by
  refine ⟨rfl, ?_, hl.record, hlawful, hl.orderly⟩
  intro m hm
  cases hm
  exact hc

/-- One request, if it is acceptable and lawful. -/
theorem Step.consistent {r : Option BootMetadata} {writer : Writer}
    {R : Option BootMetadata → BootMetadata → Prop} {l l' : Log} (h : Step writer R l l')
    (hl : Consistent r l)
    (hacceptable : ∀ requested, R l.record requested → requested.Acceptable ∧ requested.Pursued)
    (hlawful : ∀ requested c, R l.record requested → c.Stores requested →
      Lawful writer l.record c) : Consistent r l' := by
  cases h with
  | @commit requested c hrequest hstores hvalid =>
      exact consistent_commit hl ⟨hvalid, hstores.pursued (hacceptable requested hrequest).2⟩
        (hlawful requested c hrequest hstores)
  | @refused requested hrequest hrefused => exact absurd (hacceptable requested hrequest).1 hrefused

theorem Move.consistent {r : Option BootMetadata} {l l' : Log} (h : Move l l')
    (hl : Consistent r l) : Consistent r l' := by
  cases h with
  | boot => exact ⟨hl.record, hl.sustained, hl.orderly⟩
  | bootloader hstep =>
      exact hstep.consistent hl (fun _ hrequest => hrequest.acceptable hl.sustained)
        fun _ _ hrequest hstores => hrequest.lawful hstores
  | @application _ m st version g hm hst hstate hg hstep =>
      refine hstep.consistent hl (fun _ hrequest => hrequest.acceptable hg hl.sustained) ?_
      intro requested c hrequest hstores
      rw [hm] at hrequest ⊢
      exact hrequest.lawful hst hstate hstores
  | @active m st hm hst hstate =>
      exact ⟨hl.record, hl.sustained, .inl ⟨m, st, hl.record ▸ hm, hst, hstate⟩, hl.orderly⟩
  | @trial m c hm hstate hattempts hstores hvalid =>
      have hstate' : c.state = UpdateState.trialBoot.code := hstores.state.trans hstate
      have hlawful : Lawful .bootloader l.record c := by
        rw [hm]
        exact (BootManager.Request.attempt hstate hattempts).lawful hstores
      have hcommitted := consistent_commit hl
        ⟨hvalid, pursued_of_state .trialBoot hstate' (by decide)⟩ hlawful
      refine ⟨hcommitted.record, hcommitted.sustained, .inr ⟨m, c, l.history, ?_, hstate, hstate'⟩,
        hcommitted.orderly⟩
      rw [hm]

theorem Moves.consistent {r : Option BootMetadata} {l l' : Log} (h : Moves l l')
    (hl : Consistent r l) : Consistent r l' := by
  induction h with
  | refl => exact hl
  | tail _ hmove ih => exact hmove.consistent ih

/-! ### Trials -/

/-- The starts of the application since the trial was entered. -/
def trialJumps : List Event → Nat
  | [] => 0
  | .jump :: earlier => trialJumps earlier + 1
  | .commit _ before _ :: earlier =>
      if before.map BootMetadata.state = some UpdateState.trialBoot.code then trialJumps earlier
      else 0
  | _ :: earlier => trialJumps earlier

theorem Orderly.of_suffix {r : Option BootMetadata} {moment history : List Event}
    (h : Orderly r history) (hsuffix : moment <:+ history) : Orderly r moment := by
  induction history with
  | nil =>
      rw [List.suffix_nil.1 hsuffix]
      trivial
  | cons e earlier ih =>
      rcases List.suffix_cons_iff.1 hsuffix with rfl | hearlier
      · exact h
      · refine ih ?_ hearlier
        cases e with
        | boot => exact h
        | commit writer before c => exact h.2.2
        | refused writer before requested => exact h.elim
        | jump => exact h.2

/-- The application is started under trial only after its attempt was counted. -/
theorem Orderly.started_attempt {r : Option BootMetadata} {earlier : List Event}
    (h : Orderly r (.jump :: earlier)) {m : BootMetadata} (hm : current r earlier = some m)
    (htrial : m.state = UpdateState.trialBoot.code) :
    ∃ m' before, earlier = .commit .bootloader (some m') m :: before ∧
      m'.state = UpdateState.trialBoot.code ∧
      m.bootAttempts.toNat = m'.bootAttempts.toNat + 1 := by
  obtain ⟨hstart, horderly⟩ := h
  rcases hstart with ⟨m', st, hm', hst, hstate⟩ | ⟨m', c, before, rfl, htrial', hc⟩
  · have hsame : m' = m := Option.some.inj (hm'.symm.trans hm)
    subst hsame
    rw [htrial, UpdateState.code_inj] at hstate
    subst hstate
    exact absurd hst (by decide)
  · cases hm
    obtain ⟨-, m'', hm'', hcount⟩ := horderly.2.1.trial_attempts hc
    cases hm''
    exact ⟨m', before, rfl, htrial', hcount htrial'⟩

/-- The starts of a trial are counted. -/
theorem Orderly.trialJumps_le {r : Option BootMetadata} {history : List Event}
    (h : Orderly r history)
    (hr : ∀ m, r = some m → m.state = UpdateState.trialBoot.code → m.bootAttempts.toNat ≤ 3) :
    ∀ moment, moment <:+ history → ∀ m, current r moment = some m →
      m.state = UpdateState.trialBoot.code →
      trialJumps moment ≤ m.bootAttempts.toNat ∧ m.bootAttempts.toNat ≤ 3 := by
  induction history with
  | nil =>
      intro moment hmoment m hm htrial
      rw [List.suffix_nil.1 hmoment] at hm ⊢
      exact ⟨Nat.zero_le _, hr m hm htrial⟩
  | cons e earlier ih =>
      have hbefore := ih (h.of_suffix (List.suffix_cons e earlier))
      intro moment hmoment m hm htrial
      rcases List.suffix_cons_iff.1 hmoment with rfl | hearlier
      swap
      · exact hbefore moment hearlier m hm htrial
      cases e with
      | boot => exact hbefore earlier List.suffix_rfl m hm htrial
      | refused writer before requested => exact h.elim
      | commit writer before c =>
          cases hm
          obtain ⟨hle, m', hm', hcount⟩ := h.2.1.trial_attempts htrial
          refine ⟨?_, hle⟩
          rw [trialJumps]
          split
          · next hstate =>
            rw [hm', Option.map_some, Option.some_inj] at hstate
            have hjumps := (hbefore earlier List.suffix_rfl m' (h.1 ▸ hm') hstate).1
            rw [hcount hstate]
            omega
          · exact Nat.zero_le _
      | jump =>
          -- the start follows the commit that counts it
          obtain ⟨m', before, rfl, htrial', hcount⟩ := h.started_attempt hm htrial
          have hjumps := (hbefore before (List.suffix_cons _ _) m' h.2.1.symm htrial').1
          refine ⟨?_, (hbefore _ List.suffix_rfl m hm htrial).2⟩
          rw [trialJumps, trialJumps, if_pos (by rw [Option.map_some, htrial'])]
          omega

/-- Every commit of a history is lawful, over the record that was current. -/
def CommitsLawfully (r : Option BootMetadata) (history : List Event) : Prop :=
  ∀ later earlier writer before c, history = later ++ .commit writer before c :: earlier →
    before = current r earlier ∧ Lawful writer before c

/--
At every moment of a trial the application was started at most as often as
attempts are persisted, which is three times at most, and each start comes right
after the commit that counts it.
-/
def BoundsTrials (r : Option BootMetadata) (history : List Event) : Prop :=
  ∀ moment, moment <:+ history → ∀ m, current r moment = some m →
    m.state = UpdateState.trialBoot.code →
    trialJumps moment ≤ m.bootAttempts.toNat ∧ m.bootAttempts.toNat ≤ 3 ∧
      ∀ earlier, moment = .jump :: earlier → ∃ m' before,
        earlier = .commit .bootloader (some m') m :: before ∧
        m'.state = UpdateState.trialBoot.code ∧
        m.bootAttempts.toNat = m'.bootAttempts.toNat + 1

end Log

/-! ## Nodes -/

namespace Node

/-- Power may be lost anywhere and the external flash may fail; commits are atomic and work. -/
def disturbed : Mode where
  cuts := true
  tornPrograms := true
  externalFaults := true
  atomicCommit := true
  writer := .bootloader

/-- A node that is powered off, with an empty history and a record it can work with. -/
structure Fresh (n : Node) : Prop where
  off : n.app = none
  history : n.device.history = []
  record : ∀ m, Persisted n.device m → m.Sustained

section Histories

variable (build : Build) {n : Node} {actions : List Action}

theorem run_orderly (h : n.Fresh) (hadmitted : ∀ a ∈ actions, a.Admitted disturbed) :
    Log.Orderly (persisted n.device) (n.run build true actions).device.history := by
  have hstart : Log.Consistent (persisted n.device) n.device.log := by
    refine ⟨?_, fun m hm => h.record m hm, ?_⟩
    · unfold Device.log
      rw [h.history]
      rfl
    · unfold Device.log
      rw [h.history]
      trivial
  refine (Log.Moves.consistent (run_moved (μ := disturbed) ⟨rfl, rfl⟩ rfl (sessions_off h.off) ?_
    hadmitted) hstart).orderly
  intro app happ
  rw [h.off] at happ
  cases happ

/--
No program of the node asks for a record that validation would refuse, so a
commit can fail only where the internal flash does.
-/
theorem no_request_refused (h : n.Fresh) (hadmitted : ∀ a ∈ actions, a.Admitted disturbed)
    (writer : Writer) (before : Option BootMetadata) (requested : BootMetadata) :
    .refused writer before requested ∉ (n.run build true actions).device.history := by
  intro hrefused
  obtain ⟨later, earlier, hhistory⟩ := List.append_of_mem hrefused
  exact (run_orderly build h hadmitted).of_suffix ⟨later, hhistory.symm⟩

/-- The record of a trial that was started once. -/
def startedRecord : BootMetadata :=
  BootMetadata.finalize
    { BootMetadata.init 1 with
      generation := 1
      state := UpdateState.trialBoot.code
      pendingVersion := 2
      activeUpdateId := 7
      receivedSize := 8
      expectedSize := 8
      bootAttempts := 1 }

theorem startedRecord_valid : startedRecord.Valid :=
  (BootMetadata.finalize_valid (by decide)).2
    ⟨by decide, by decide, by decide, by decide, by decide⟩

/-- A node whose trial was started once. -/
def startedNode : Node := ⟨holding startedRecord (fun _ => 0) fun _ => 0xFF, none⟩

theorem startedNode_fresh : startedNode.Fresh := by
  have hstate : startedRecord.state = UpdateState.trialBoot.code := rfl
  refine ⟨rfl, rfl, ?_⟩
  intro m hm
  have hsame : m = startedRecord := Option.some.inj (hm.symm.trans
    (persisted_holding startedRecord_valid (fun _ => 0) fun _ => 0xFF))
  subst hsame
  exact ⟨startedRecord_valid, pursued_of_state .trialBoot hstate (by decide)⟩

/-- It loses power, the flash fails, and a command arrives after the third boot. -/
def startedActions : List Action :=
  [.powerUp [.ok, .cut 0] 2 0 [], .powerUp [.ok, .externalFault .transferTimeout fun _ => 0] 2 0 [],
    .powerUp [] 2 0 [], .packet ⟨9, 1, 0, 0, []⟩ []]

theorem startedActions_admitted : ∀ a ∈ startedActions, a.Admitted disturbed := by
  simp [startedActions, Action.Admitted, Action.outcomes, Mode.Admits, disturbed]

theorem no_request_refused_started :
    .refused .bootloader none startedRecord ∉
      (startedNode.run ⟨⟨true, 1, []⟩, 1⟩ true startedActions).device.history :=
  no_request_refused _ startedNode_fresh startedActions_admitted _ _ _

/-- The persisted state changes by the table of successors, whatever the node goes through. -/
theorem commits_are_lawful (h : n.Fresh) (hadmitted : ∀ a ∈ actions, a.Admitted disturbed) :
    Log.CommitsLawfully (persisted n.device) (n.run build true actions).device.history := by
  intro later earlier writer before c hhistory
  obtain ⟨hbefore, hlawful, -⟩ :=
    (run_orderly build h hadmitted).of_suffix ⟨later, hhistory.symm⟩
  exact ⟨hbefore, hlawful⟩

theorem commits_are_lawful_started :
    Log.CommitsLawfully (persisted startedNode.device)
      (startedNode.run ⟨⟨true, 1, []⟩, 1⟩ true startedActions).device.history :=
  commits_are_lawful _ startedNode_fresh startedActions_admitted

/-- A trial is bounded by its persisted attempts. -/
theorem trial_is_bounded (h : n.Fresh) (hadmitted : ∀ a ∈ actions, a.Admitted disturbed) :
    Log.BoundsTrials (persisted n.device) (n.run build true actions).device.history := by
  intro moment hmoment m hm htrial
  have horderly := run_orderly build h hadmitted
  obtain ⟨hjumps, hthree⟩ := horderly.trialJumps_le
    (fun r hr hstate => ((h.record r hr).valid.fieldsOf hstate).2.2.2) moment hmoment m hm htrial
  refine ⟨hjumps, hthree, ?_⟩
  intro earlier hearlier
  subst hearlier
  exact (horderly.of_suffix hmoment).started_attempt hm htrial

theorem trial_is_bounded_started :
    Log.BoundsTrials (persisted startedNode.device)
      (startedNode.run ⟨⟨true, 1, []⟩, 1⟩ true startedActions).device.history :=
  trial_is_bounded _ startedNode_fresh startedActions_admitted

end Histories

end Node

end SecureDeltaOta
