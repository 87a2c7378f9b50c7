import SecureDeltaOta.Gateway.MqttOrchestrator

/-!
# Reassembly of MQTT commands

Over any sequence of events the parser is only called with the bytes of one
command message, brought by consecutive events. A message that comes as its
fragments is handed over once if it is a command, whatever came before it.
-/

namespace SecureDeltaOta.Mqtt

/-! ## Runs of fragments -/

/--
The events of one message, in order, and the bytes they have brought so far: the first is at offset
zero and for the command topic, each of the others continues where the one before it ended, and all
announce the same total.
-/
inductive Fragments (commandTopic : List UInt8) (total : Nat) :
    List MqttEvent → List UInt8 → Prop where
  | first {event : MqttEvent} {data : List UInt8} (hdata : event.data = some data)
      (hoffset : event.currentDataOffset.toInt = 0)
      (htopic : topicMatches commandTopic event.topic event.topicLen = true)
      (htotal : event.totalDataLen.toInt = total) : Fragments commandTopic total [event] data
  | next {events : List MqttEvent} {payload : List UInt8}
      (hbefore : Fragments commandTopic total events payload) {event : MqttEvent}
      {data : List UInt8} (hdata : event.data = some data)
      (hoffset : event.currentDataOffset.toInt = payload.length)
      (htotal : event.totalDataLen.toInt = total) :
      Fragments commandTopic total (events ++ [event]) (payload ++ data)

/-! ## Any sequence of events -/

/-- The events of a message among the last ones; those that were ignored do not count. -/
def acceptedEvents (history : List (MqttEvent × Handled)) : List MqttEvent :=
  (history.filter (·.2 ≠ .ignored)).map Prod.fst

/-- The events since some point are those of a message that is not complete yet. -/
def Pending (commandTopic : List UInt8) (total : Nat) (history : List (MqttEvent × Handled))
    (payload : List UInt8) : Prop :=
  ∃ earlier fragments, history = earlier ++ fragments ∧
    (∀ p ∈ fragments, p.2 = .ignored ∨ p.2 = .stored) ∧
    Fragments commandTopic total (acceptedEvents fragments) payload

/-- The event completes a message. -/
def Completes (commandTopic : List UInt8) (history : List (MqttEvent × Handled))
    (event : MqttEvent) (payload : List UInt8) : Prop :=
  ∃ earlier fragments, history = earlier ++ fragments ∧
    (∀ p ∈ fragments, p.2 = .ignored ∨ p.2 = .stored) ∧
    Fragments commandTopic payload.length (acceptedEvents fragments ++ [event]) payload ∧
    payload.length ≤ maxPayloadLength

theorem acceptedEvents_append (xs ys : List (MqttEvent × Handled)) :
    acceptedEvents (xs ++ ys) = acceptedEvents xs ++ acceptedEvents ys := by
  rw [acceptedEvents, List.filter_append, List.map_append]
  rfl

theorem acceptedEvents_stored (event : MqttEvent) :
    acceptedEvents [(event, .stored)] = [event] := by
  simp [acceptedEvents]

theorem acceptedEvents_ignored (event : MqttEvent) : acceptedEvents [(event, .ignored)] = [] := by
  simp [acceptedEvents]

section History

variable {commandTopic : List UInt8} {total : Nat} {history : List (MqttEvent × Handled)}
  {payload : List UInt8}

theorem Pending.ignored (h : Pending commandTopic total history payload) (event : MqttEvent) :
    Pending commandTopic total (history ++ [(event, .ignored)]) payload := by
  obtain ⟨earlier, fragments, hhistory, hhandled, hfragments⟩ := h
  refine ⟨earlier, fragments ++ [(event, .ignored)], by rw [hhistory, List.append_assoc], ?_, ?_⟩
  · intro p hp
    rw [List.mem_append, List.mem_singleton] at hp
    cases hp with
    | inl hp => exact hhandled p hp
    | inr hp => rw [hp]; exact .inl rfl
  · rwa [acceptedEvents_append, acceptedEvents_ignored, List.append_nil]

/-- The next event of the message, or the first one of another. -/
theorem fragments_extend {event : MqttEvent} {data : List UInt8} (hdata : event.data = some data)
    (hoffset : event.currentDataOffset.toInt = payload.length)
    (htotal : event.totalDataLen.toInt = total)
    (h : (payload = [] ∧ topicMatches commandTopic event.topic event.topicLen = true) ∨
      Pending commandTopic total history payload) :
    ∃ earlier fragments, history = earlier ++ fragments ∧
      (∀ p ∈ fragments, p.2 = .ignored ∨ p.2 = .stored) ∧
      Fragments commandTopic total (acceptedEvents fragments ++ [event]) (payload ++ data) := by
  cases h with
  | inl hfirst =>
      obtain ⟨rfl, htopic⟩ := hfirst
      exact ⟨history, [], (List.append_nil _).symm, fun p hp => absurd hp List.not_mem_nil,
        .first hdata hoffset htopic htotal⟩
  | inr hpending =>
      obtain ⟨earlier, fragments, hhistory, hhandled, hfragments⟩ := hpending
      exact ⟨earlier, fragments, hhistory, hhandled, .next hfragments hdata hoffset htotal⟩

end History

namespace MqttOrchestrator

variable {κ : Type} (parse : List UInt8 → Option κ) {commandTopic : List UInt8}

/-- The state fits the events so far. -/
structure Holds (commandTopic : List UInt8) (history : List (MqttEvent × Handled))
    (orchestrator : MqttOrchestrator κ) : Prop where
  topic : orchestrator.commandTopic = commandTopic
  pending : orchestrator.fragmentActive = true → ∃ total payload,
    orchestrator.Collects total payload ∧ Pending commandTopic total history payload

theorem handleData_holds {history : List (MqttEvent × Handled)} {orchestrator : MqttOrchestrator κ}
    (h : orchestrator.Holds commandTopic history) (event : MqttEvent) :
    ∃ after handled, orchestrator.handleData parse event = some (after, handled) ∧
      after.Holds commandTopic (history ++ [(event, handled)]) ∧
      ∀ payload, handled = .parsed payload → Completes commandTopic history event payload := by
  obtain ⟨total, payload, hcollects⟩ : ∃ total payload, orchestrator.fragmentActive = true →
      orchestrator.Collects total payload ∧ Pending commandTopic total history payload := by
    by_cases hactive : orchestrator.fragmentActive = true
    · obtain ⟨total, payload, hboth⟩ := h.pending hactive
      exact ⟨total, payload, fun _ => hboth⟩
    · exact ⟨0, [], fun hyes => absurd hyes hactive⟩
  obtain ⟨after, handled, hresult, htopic, hcases⟩ :=
    handleData_cases parse (fun hactive => (hcollects hactive).1) event
  have hsame : after.commandTopic = commandTopic := htopic.trans h.topic
  refine ⟨after, handled, hresult, ?_⟩
  obtain ⟨rfl, rfl⟩ | ⟨rfl, hidle⟩ | ⟨data, before, announced, hdata, htotal, hle, hoffset, hstart,
    hend⟩ := hcases
  · refine ⟨⟨hsame, fun hactive => ?_⟩, fun payload hparsed => by cases hparsed⟩
    obtain ⟨htake, hpending⟩ := hcollects hactive
    exact ⟨total, payload, htake, hpending.ignored event⟩
  · exact ⟨⟨hsame, fun hactive => absurd (hidle.symm.trans hactive) Bool.false_ne_true⟩,
      fun payload hparsed => by cases hparsed⟩
  · have hextends : (before = [] ∧ topicMatches commandTopic event.topic event.topicLen = true) ∨
        Pending commandTopic announced history before := by
      obtain ⟨hnil, hmatches⟩ | ⟨hactive, rfl, rfl⟩ := hstart
      · rw [h.topic] at hmatches
        exact .inl ⟨hnil, hmatches⟩
      · exact .inr (hcollects hactive).2
    obtain ⟨earlier, fragments, hhistory, hhandled, hfragments⟩ :=
      fragments_extend hdata hoffset htotal hextends
    obtain ⟨rfl, hafter⟩ | ⟨rfl, hidle, hcomplete⟩ := hend
    · refine ⟨⟨hsame, fun _ => ⟨announced, before ++ data, hafter, earlier,
        fragments ++ [(event, .stored)], by rw [hhistory, List.append_assoc], ?_, ?_⟩⟩,
        fun payload hparsed => by cases hparsed⟩
      · intro p hp
        rw [List.mem_append, List.mem_singleton] at hp
        cases hp with
        | inl hp => exact hhandled p hp
        | inr hp => rw [hp]; exact .inr rfl
      · rwa [acceptedEvents_append, acceptedEvents_stored]
    · refine ⟨⟨hsame, fun hactive => absurd (hidle.symm.trans hactive) Bool.false_ne_true⟩,
        fun payload hparsed => ?_⟩
      cases hparsed
      have hlength : (before ++ data).length = announced := by
        rw [List.length_append, hcomplete]
      exact ⟨earlier, fragments, hhistory, hhandled, by rwa [hlength], by rwa [hlength]⟩

/-- A whole sequence: every call of the parser completes a message. -/
theorem handleEvents_holds {history : List (MqttEvent × Handled)}
    {orchestrator : MqttOrchestrator κ} (h : orchestrator.Holds commandTopic history)
    (events : List MqttEvent) :
    ∃ after handled, orchestrator.handleEvents parse events = some (after, handled) ∧
      handled.length = events.length ∧
      after.Holds commandTopic (history ++ events.zip handled) ∧
      ∀ before event payload later,
        events.zip handled = before ++ (event, .parsed payload) :: later →
        Completes commandTopic (history ++ before) event payload := by
  induction events generalizing orchestrator history with
  | nil =>
      refine ⟨orchestrator, [], rfl, rfl, by rwa [List.zip_nil_left, List.append_nil], ?_⟩
      intro before event payload later hsplit
      cases before <;> cases hsplit
  | cons first events ih =>
      obtain ⟨middle, handled, hfirst, hmiddle, hcompletes⟩ := handleData_holds parse h first
      obtain ⟨after, rest, hrest, hlength, hafter, hlater⟩ := ih hmiddle
      refine ⟨after, handled :: rest, ?_, by rw [List.length_cons, List.length_cons, hlength], ?_,
        ?_⟩
      · simp only [handleEvents, hfirst, hrest, Option.bind_eq_bind, Option.bind_some,
          Option.pure_def]
      · rwa [List.zip_cons_cons, ← List.singleton_append, ← List.append_assoc]
      · intro before event payload later hsplit
        rw [List.zip_cons_cons] at hsplit
        cases before with
        | nil =>
            obtain ⟨hhead, -⟩ := List.cons.inj hsplit
            cases hhead
            rw [List.append_nil]
            exact hcompletes payload rfl
        | cons p before =>
            obtain ⟨hhead, htail⟩ := List.cons.inj hsplit
            have hcomplete := hlater before event payload later htail
            rwa [hhead, List.append_assoc, List.singleton_append] at hcomplete

theorem handleEvents_append (orchestrator : MqttOrchestrator κ) (xs ys : List MqttEvent) :
    orchestrator.handleEvents parse (xs ++ ys) =
      (orchestrator.handleEvents parse xs).bind fun first =>
        (first.1.handleEvents parse ys).bind fun rest => some (rest.1, first.2 ++ rest.2) := by
  induction xs generalizing orchestrator with
  | nil =>
      simp only [List.nil_append, handleEvents, Option.bind_some]
      cases orchestrator.handleEvents parse ys <;> rfl
  | cons x xs ih =>
      simp only [List.cons_append, handleEvents, Option.bind_eq_bind, Option.pure_def,
        Option.bind_assoc, ih, Option.bind_some]

end MqttOrchestrator

/-! ## Messages delivered in fragments -/

structure Message where
  topic : List UInt8
  payload : List UInt8

/-- The messages the parser is meant for. -/
def Message.IsCommand (commandTopic : List UInt8) (message : Message) : Prop :=
  message.topic = commandTopic ∧ 1 ≤ message.payload.length ∧
    message.payload.length ≤ maxPayloadLength

instance (commandTopic : List UInt8) : DecidablePred (Message.IsCommand commandTopic) :=
  fun _ => inferInstanceAs (Decidable (_ ∧ _ ∧ _))

/-- Events with the rest of a message of `total` bytes from an offset on, none of them empty. -/
inductive Carries (total : Nat) : Nat → List UInt8 → List MqttEvent → Prop where
  | nil {offset : Nat} : Carries total offset [] []
  | cons {offset : Nat} {event : MqttEvent} {events : List MqttEvent} {data rest : List UInt8}
      (hdata : event.data = some data) (hne : data ≠ [])
      (hoffset : event.currentDataOffset.toInt = offset)
      (htotal : event.totalDataLen.toInt = total)
      (hrest : Carries total (offset + data.length) rest events) :
      Carries total offset (data ++ rest) (event :: events)

/-- Nothing follows the last byte. -/
theorem Carries.eq_nil {total offset : Nat} {events : List MqttEvent}
    (h : Carries total offset [] events) : events = [] := by
  generalize hrest : ([] : List UInt8) = rest at h
  cases h with
  | nil => rfl
  | cons hdata hne hoffset htotal hcarries =>
      exact absurd (List.append_eq_nil_iff.1 hrest.symm).1 hne

/-- The events are the consecutive fragments of the message; the first one names the topic. -/
def Message.DeliveredAs (message : Message) (events : List MqttEvent) : Prop :=
  Carries message.payload.length 0 message.payload events ∧
    ∀ event ∈ events.head?, event.topic = some message.topic ∧
      event.topicLen.toInt = message.topic.length

/-- The calls of the parser. -/
def Handled.call : Handled → Option (List UInt8)
  | .parsed payload => some payload
  | .ignored => none
  | .refused => none
  | .stored => none

theorem topicMatches_iff {expected topic : List UInt8} {topicLen : Int32}
    (h : topicLen.toInt = topic.length) :
    topicMatches expected (some topic) topicLen = true ↔ topic = expected := by
  have hnonneg : ¬ topicLen < 0 := by
    rw [Int32.lt_iff_toInt_lt, Int32.toInt_zero]
    omega
  unfold topicMatches
  dsimp only
  rw [if_neg hnonneg, decide_eq_true_eq, h, Int.toNat_natCast]
  constructor
  · intro hboth
    rw [← hboth.2, hboth.1, List.take_length]
  · intro hequal
    rw [hequal, List.take_length]
    exact ⟨rfl, rfl⟩

namespace MqttOrchestrator

variable {κ : Type} (parse : List UInt8 → Option κ)

/-- The rest of a message that is not collected. -/
theorem handleEvents_skips {total offset : Nat} {rest : List UInt8} {events : List MqttEvent}
    (h : Carries total offset rest events) (hoffset : 0 < offset) (htotal : 0 < total)
    {orchestrator : MqttOrchestrator κ} (hidle : orchestrator.fragmentActive = false) :
    ∃ after handled, orchestrator.handleEvents parse events = some (after, handled) ∧
      after.commandTopic = orchestrator.commandTopic ∧ handled.filterMap Handled.call = [] := by
  induction h generalizing orchestrator with
  | nil => exact ⟨orchestrator, [], rfl, rfl, rfl⟩
  | @cons offset event events data rest hdata hne hat hannounced hrest ih =>
      have hfirst : orchestrator.handleData parse event =
          some (orchestrator.resetFragment, .refused) := by
        rw [handleData_of_later hdata (by omega) (by omega),
          storeFragment_inactive hidle event data]
      obtain ⟨after, handled, hevents, htopic, hcalls⟩ := ih (by omega)
        (show orchestrator.resetFragment.fragmentActive = false from rfl)
      refine ⟨after, .refused :: handled, ?_, htopic, hcalls⟩
      simp only [handleEvents, hfirst, hevents, Option.bind_eq_bind, Option.bind_some,
        Option.pure_def]

/-- The calls while some events are handled. -/
def Calls (orchestrator : MqttOrchestrator κ) (events : List MqttEvent)
    (calls : List (List UInt8)) : Prop :=
  ∃ after handled, orchestrator.handleEvents parse events = some (after, handled) ∧
    after.commandTopic = orchestrator.commandTopic ∧ handled.filterMap Handled.call = calls

/-- An event of the message that is being collected, before the rest of it. -/
theorem calls_cons {orchestrator collecting : MqttOrchestrator κ} {event : MqttEvent}
    {events : List MqttEvent} {total : Nat} {payload data rest : List UInt8}
    (hfirst : orchestrator.handleData parse event = collecting.storeFragment parse event data)
    (htopic : collecting.commandTopic = orchestrator.commandTopic)
    (hcollects : collecting.Collects total payload) (hdata : event.data = some data)
    (hoffset : event.currentDataOffset.toInt = payload.length)
    (htotal : event.totalDataLen.toInt = total)
    (hrest : Carries total (payload.length + data.length) rest events)
    (hlength : payload.length + (data.length + rest.length) = total)
    (hlater : rest ≠ [] → ∀ next : MqttOrchestrator κ, next.Collects total (payload ++ data) →
      next.Calls parse events [payload ++ data ++ rest]) :
    orchestrator.Calls parse (event :: events) [payload ++ (data ++ rest)] := by
  obtain ⟨next, hnext, hstored | hparsed⟩ := storeFragment_accepted hcollects hdata parse hoffset
    htotal (by omega)
  · have hmissing : rest ≠ [] := by
      intro hnil
      rw [hnil, List.length_nil] at hlength
      omega
    obtain ⟨after, handled, hevents, hsame, hcalls⟩ := hlater hmissing next hstored.2.1
    refine ⟨after, .stored :: handled, ?_, hsame.trans (hnext.trans htopic), ?_⟩
    · simp only [handleEvents, hfirst, hstored.2.2, hevents, Option.bind_eq_bind,
        Option.bind_some, Option.pure_def]
    · rw [← List.append_assoc]
      exact hcalls
  · have hnil : rest = [] := List.length_eq_zero_iff.1 (by omega)
    rw [hnil] at hrest
    refine ⟨next, [.parsed (payload ++ data)], ?_, hnext.trans htopic, ?_⟩
    · rw [hrest.eq_nil]
      simp only [handleEvents, hfirst, hparsed.2.2, Option.bind_eq_bind, Option.bind_some,
        Option.pure_def]
    · rw [hnil, List.append_nil]
      rfl

/-- The rest of the message that is being collected: one call, at its end. -/
theorem calls_rest {total offset : Nat} {rest : List UInt8} {events : List MqttEvent}
    (h : Carries total offset rest events) {orchestrator : MqttOrchestrator κ}
    {payload : List UInt8} (hcollects : orchestrator.Collects total payload)
    (hoffset : offset = payload.length) (hpositive : 0 < offset)
    (hlength : payload.length + rest.length = total) (hmissing : rest ≠ []) :
    orchestrator.Calls parse events [payload ++ rest] := by
  induction h generalizing orchestrator payload with
  | nil => exact absurd rfl hmissing
  | @cons offset event events data rest hdata hne hat hannounced hrest ih =>
      subst hoffset
      rw [List.length_append] at hlength
      refine calls_cons parse (handleData_of_later hdata (by omega) (by omega)) rfl hcollects hdata
        hat hannounced hrest hlength fun hmore next hnext => ?_
      exact ih hnext (by rw [List.length_append]) (by omega)
        (by rw [List.length_append]; omega) hmore

/-- A whole message, whatever was received before: one call for a command, none for another. -/
theorem calls_message (orchestrator : MqttOrchestrator κ) {message : Message}
    {events : List MqttEvent} (h : message.DeliveredAs events) :
    orchestrator.Calls parse events
      (if message.IsCommand orchestrator.commandTopic then [message.payload] else []) := by
  obtain ⟨topic, payload⟩ := message
  obtain ⟨hcarries, htopic⟩ := h
  dsimp only at hcarries htopic ⊢
  generalize htotal : payload.length = total at hcarries
  generalize hzero : 0 = offset at hcarries
  cases hcarries with
  | nil =>
      rw [if_neg (fun hcommand => Nat.not_succ_le_zero 0 hcommand.2.1)]
      exact ⟨orchestrator, [], rfl, rfl, rfl⟩
  | @cons _ event events data rest hdata hne hat hannounced hrest =>
      subst hzero
      have hpositive := List.length_pos_iff.2 hne
      rw [List.length_append] at htotal
      obtain ⟨hname, hnameLen⟩ := htopic event rfl
      have hmatches : topicMatches orchestrator.commandTopic event.topic event.topicLen = true ↔
          topic = orchestrator.commandTopic := by
        rw [hname]
        exact topicMatches_iff hnameLen
      have hfirst := handleData_of_first parse orchestrator hdata (by omega) hat
      have hsize : (data ++ rest).length = total := by rw [List.length_append, htotal]
      by_cases hcommand : topic = orchestrator.commandTopic ∧ total ≤ maxPayloadLength
      · rw [if_pos ⟨hmatches.2 hcommand.1, by omega⟩] at hfirst
        rw [if_pos ⟨hcommand.1, by rw [hsize]; omega, by rw [hsize]; exact hcommand.2⟩]
        have hcollects := beginMessage_collects orchestrator hannounced hcommand.2
        refine calls_cons parse hfirst rfl hcollects hdata hat hannounced hrest
          (by rw [List.length_nil]; omega) fun hmore next hnext => ?_
        exact calls_rest parse hrest hnext (by rw [List.length_append]; rfl) (by omega)
          (by rw [List.length_append, List.length_nil]; omega) hmore
      · rw [if_neg (fun hboth => hcommand ⟨hmatches.1 hboth.1, by omega⟩)] at hfirst
        rw [if_neg (fun hboth => hcommand ⟨hboth.1, hsize.symm.trans_le hboth.2.2⟩)]
        obtain ⟨after, handled, hevents, hsame, hcalls⟩ := handleEvents_skips parse hrest
          (by omega) (by omega) (show orchestrator.resetFragment.fragmentActive = false from rfl)
        refine ⟨after, .refused :: handled, ?_, hsame, hcalls⟩
        simp only [handleEvents, hfirst, hevents, Option.bind_eq_bind, Option.bind_some,
          Option.pure_def]

/-- Any number of messages. -/
theorem calls_messages (orchestrator : MqttOrchestrator κ)
    {deliveries : List (Message × List MqttEvent)} (h : ∀ d ∈ deliveries, d.1.DeliveredAs d.2) :
    orchestrator.Calls parse (deliveries.flatMap Prod.snd)
      ((deliveries.filter fun d => d.1.IsCommand orchestrator.commandTopic).map
        fun d => d.1.payload) := by
  induction deliveries generalizing orchestrator with
  | nil => exact ⟨orchestrator, [], rfl, rfl, rfl⟩
  | cons d deliveries ih =>
      obtain ⟨middle, handled, hfirst, hmiddle, hcalls⟩ :=
        calls_message parse orchestrator (h d List.mem_cons_self)
      obtain ⟨after, rest, hrest, hafter, hlater⟩ :=
        ih middle (fun d' hd' => h d' (List.mem_cons_of_mem d hd'))
      refine ⟨after, handled ++ rest, ?_, hafter.trans hmiddle, ?_⟩
      · rw [List.flatMap_cons, handleEvents_append, hfirst, Option.bind_some, hrest,
          Option.bind_some]
      · rw [List.filterMap_append, hcalls, hlater, hmiddle, List.filter_cons]
        split
        · next hyes => rw [if_pos (by simpa using hyes)]; rfl
        · next hno => rw [if_neg (by simpa using hno)]; rfl

end MqttOrchestrator

/--
Reassembly never mixes messages. For every sequence of events the buffer is never overrun; the
parser is only called with the bytes of consecutive accepted events of one message of at most 767
bytes. After them, if messages come as their consecutive fragments, there is one call for each
command and no other.
-/
theorem reassembly_exact {κ : Type} (parse : List UInt8 → Option κ) (commandTopic : List UInt8)
    (events : List MqttEvent) :
    ∃ orchestrator handled,
      (MqttOrchestrator.start commandTopic).handleEvents parse events =
        some (orchestrator, handled) ∧
      (∀ before event payload later,
        events.zip handled = before ++ (event, .parsed payload) :: later →
        Completes commandTopic before event payload) ∧
      ∀ deliveries : List (Message × List MqttEvent), (∀ d ∈ deliveries, d.1.DeliveredAs d.2) →
        ∃ after more, orchestrator.handleEvents parse (deliveries.flatMap Prod.snd) =
            some (after, more) ∧
          more.filterMap Handled.call =
            (deliveries.filter fun d => d.1.IsCommand commandTopic).map fun d => d.1.payload := by
  have hstart : (MqttOrchestrator.start commandTopic : MqttOrchestrator κ).Holds commandTopic [] :=
    ⟨rfl, fun hactive => absurd hactive Bool.false_ne_true⟩
  obtain ⟨orchestrator, handled, hevents, -, hholds, hcompletes⟩ :=
    MqttOrchestrator.handleEvents_holds parse hstart events
  refine ⟨orchestrator, handled, hevents, hcompletes, fun deliveries hdeliveries => ?_⟩
  obtain ⟨after, more, hmore, -, hcalls⟩ :=
    MqttOrchestrator.calls_messages parse orchestrator hdeliveries
  refine ⟨after, more, hmore, ?_⟩
  rw [hcalls, hholds.topic]

/-- One byte of a message of two. -/
def sampleFragment (byte : UInt8) (offset : Int32) : MqttEvent where
  topic := some [99]
  topicLen := 1
  data := some [byte]
  dataLen := 1
  totalDataLen := 2
  currentDataOffset := offset
  dataLen_eq := by
    intro bytes h
    cases h
    rfl

/-- A stray second byte, then both bytes of a command. -/
theorem reassembly_exact_command :
    ∃ orchestrator handled after more,
      (MqttOrchestrator.start [99]).handleEvents (fun _ => (none : Option Unit))
        [sampleFragment 7 1] = some (orchestrator, handled) ∧
      orchestrator.handleEvents (fun _ => none) [sampleFragment 104 0, sampleFragment 105 1] =
        some (after, more) ∧
      more.filterMap Handled.call = [[104, 105]] := by
  obtain ⟨orchestrator, handled, hevents, -, hdelivered⟩ :=
    reassembly_exact (fun _ => (none : Option Unit)) [99] [sampleFragment 7 1]
  have hmessage : Message.DeliveredAs ⟨[99], [104, 105]⟩
      [sampleFragment 104 0, sampleFragment 105 1] := by
    have hlast : Carries 2 1 ([105] ++ []) [sampleFragment 105 1] :=
      .cons rfl (by decide) rfl rfl .nil
    have hboth : Carries 2 0 ([104] ++ [105]) [sampleFragment 104 0, sampleFragment 105 1] :=
      .cons rfl (by decide) rfl rfl hlast
    refine ⟨hboth, fun event hevent => ?_⟩
    cases hevent
    exact ⟨rfl, rfl⟩
  obtain ⟨after, more, hmore, hcalls⟩ := hdelivered
    [(⟨[99], [104, 105]⟩, [sampleFragment 104 0, sampleFragment 105 1])]
    (fun d hd => by rw [List.mem_singleton] at hd; rw [hd]; exact hmessage)
  exact ⟨orchestrator, handled, after, more, hevents, hmore, hcalls⟩

end SecureDeltaOta.Mqtt
