import Mathlib.Tactic

/-!
# MQTT data events

`HandleData` of `mqtt_orchestrator.c`. The client delivers a message as data
events, each with its offset and the announced total. The gateway collects the
events of one command message in a buffer and hands the buffer to the parser of
commands once it is complete.
-/

namespace SecureDeltaOta.Mqtt

/-! ## The model -/

def maxPayloadLength : Nat := 767

/-- `fragment_buffer`. -/
structure FragmentBuffer where
  bytes : List UInt8
  bytes_length : bytes.length = maxPayloadLength + 1

namespace FragmentBuffer

def zeros : FragmentBuffer := ⟨List.replicate (maxPayloadLength + 1) 0, List.length_replicate⟩

/-- A store to the array; nothing is said of one that goes beyond its end. -/
def store (buffer : FragmentBuffer) (index : Nat) (data : List UInt8) : Option FragmentBuffer :=
  if h : index + data.length ≤ maxPayloadLength + 1 then
    some
      { bytes := buffer.bytes.take index ++ data ++ buffer.bytes.drop (index + data.length)
        bytes_length := by
          have hlength := buffer.bytes_length
          simp only [List.length_append, List.length_take, List.length_drop]
          omega }
  else none

end FragmentBuffer

/--
The fields of `esp_mqtt_event_t` that are read. A null pointer is `none`; otherwise the data are as
many bytes as `data_len` says.
-/
structure MqttEvent where
  topic : Option (List UInt8)
  topicLen : Int32
  data : Option (List UInt8)
  dataLen : Int32
  totalDataLen : Int32
  currentDataOffset : Int32
  dataLen_eq : ∀ bytes, data = some bytes → dataLen.toInt = bytes.length

/-- The fields for the reassembly; commands are of a type the parser determines. -/
structure MqttOrchestrator (κ : Type) where
  commandTopic : List UInt8
  commandQueue : List κ
  fragmentBuffer : FragmentBuffer
  fragmentTotal : UInt32
  fragmentReceived : UInt32
  fragmentActive : Bool

/-- What becomes of an event. -/
inductive Handled where
  | ignored
  | refused
  | stored
  /-- The parser is called with these bytes. -/
  | parsed (payload : List UInt8)
  deriving DecidableEq, Repr

def topicMatches (expected : List UInt8) (actual : Option (List UInt8)) (actualLength : Int32) :
    Bool :=
  match actual with
  | none => false
  | some bytes =>
      if actualLength < 0 then false
      else decide (expected.length = actualLength.toInt.toNat ∧
        bytes.take expected.length = expected)

namespace MqttOrchestrator

variable {κ : Type} (parse : List UInt8 → Option κ)

def commandQueueLength : Nat := 1

/-- The state that `MqttOrchestrator_Start` leaves. -/
def start (commandTopic : List UInt8) : MqttOrchestrator κ where
  commandTopic := commandTopic
  commandQueue := []
  fragmentBuffer := .zeros
  fragmentTotal := 0
  fragmentReceived := 0
  fragmentActive := false

def resetFragment (orchestrator : MqttOrchestrator κ) : MqttOrchestrator κ :=
  { orchestrator with
    fragmentTotal := 0
    fragmentReceived := 0
    fragmentActive := false
    fragmentBuffer :=
      { bytes := orchestrator.fragmentBuffer.bytes.set 0 0
        bytes_length := by rw [List.length_set, orchestrator.fragmentBuffer.bytes_length] } }

/-- A valid command is queued if there is room. -/
def queueCommand (orchestrator : MqttOrchestrator κ) (payload : List UInt8) :
    MqttOrchestrator κ :=
  match parse payload with
  | none => orchestrator
  | some command =>
      if orchestrator.commandQueue.length < commandQueueLength then
        { orchestrator with commandQueue := orchestrator.commandQueue ++ [command] }
      else orchestrator

/-- The second half of `HandleData`, once the first event of a message has been looked at. -/
def storeFragment (orchestrator : MqttOrchestrator κ) (event : MqttEvent) (data : List UInt8) :
    Option (MqttOrchestrator κ × Handled) :=
  if orchestrator.fragmentActive = false ∨
      event.totalDataLen.toUInt32 ≠ orchestrator.fragmentTotal ∨
      event.currentDataOffset.toUInt32 ≠ orchestrator.fragmentReceived ∨
      event.dataLen.toUInt32 > orchestrator.fragmentTotal - orchestrator.fragmentReceived then
    some (orchestrator.resetFragment, .refused)
  else do
    let buffer ← orchestrator.fragmentBuffer.store orchestrator.fragmentReceived.toNat data
    let received := orchestrator.fragmentReceived + event.dataLen.toUInt32
    if received ≠ orchestrator.fragmentTotal then
      some ({ orchestrator with fragmentBuffer := buffer, fragmentReceived := received }, .stored)
    else do
      let buffer ← buffer.store orchestrator.fragmentTotal.toNat [0]
      let payload := buffer.bytes.take orchestrator.fragmentTotal.toNat
      let orchestrator :=
        { orchestrator with fragmentBuffer := buffer, fragmentReceived := received }
      some ((orchestrator.queueCommand parse payload).resetFragment, .parsed payload)

/-- `HandleData`; there is no result if the buffer would be overrun. -/
def handleData (orchestrator : MqttOrchestrator κ) (event : MqttEvent) :
    Option (MqttOrchestrator κ × Handled) :=
  match event.data with
  | none => some (orchestrator, .ignored)
  | some data =>
      if event.dataLen < 0 ∨ event.totalDataLen ≤ 0 ∨ event.currentDataOffset < 0 then
        some (orchestrator, .ignored)
      else if event.currentDataOffset = 0 then
        if topicMatches orchestrator.commandTopic event.topic event.topicLen = false then
          some (orchestrator.resetFragment, .refused)
        else if event.totalDataLen > Int32.ofNat maxPayloadLength then
          some (orchestrator.resetFragment, .refused)
        else
          storeFragment parse
            { orchestrator.resetFragment with
              fragmentTotal := event.totalDataLen.toUInt32
              fragmentActive := true }
            event data
      else storeFragment parse orchestrator event data

/-- A sequence of data events. -/
def handleEvents : MqttOrchestrator κ → List MqttEvent →
    Option (MqttOrchestrator κ × List Handled)
  | orchestrator, [] => some (orchestrator, [])
  | orchestrator, event :: events => do
      let first ← orchestrator.handleData parse event
      let rest ← first.1.handleEvents events
      return (rest.1, first.2 :: rest.2)

end MqttOrchestrator

/-! ## One event -/

/-- The conversion of a value that is not negative. -/
theorem toNat_toUInt32 {x : Int32} (h : 0 ≤ x.toInt) : (x.toUInt32.toNat : Int) = x.toInt := by
  have hint : x.toInt = x.toBitVec.toInt := rfl
  have hnat : x.toUInt32.toNat = x.toBitVec.toNat := rfl
  have hlt := x.toBitVec.isLt
  rw [hint, BitVec.toInt_eq_toNat_cond] at h ⊢
  rw [hnat]
  split at h
  · next hlow => rw [if_pos hlow]
  · omega

namespace FragmentBuffer

theorem store_eq_some (buffer : FragmentBuffer) {index : Nat} {data : List UInt8}
    (h : index + data.length ≤ maxPayloadLength + 1) :
    ∃ stored, buffer.store index data = some stored ∧
      stored.bytes.take (index + data.length) = buffer.bytes.take index ++ data := by
  have hlength := buffer.bytes_length
  refine ⟨_, dif_pos h, ?_⟩
  refine List.take_left' ?_
  rw [List.length_append, List.length_take]
  omega

end FragmentBuffer

namespace MqttOrchestrator

variable {κ : Type} {parse : List UInt8 → Option κ}

/-- The message that is being collected: its total and the bytes that are there. -/
structure Collects (orchestrator : MqttOrchestrator κ) (total : Nat) (payload : List UInt8) :
    Prop where
  active : orchestrator.fragmentActive = true
  total_eq : orchestrator.fragmentTotal.toNat = total
  total_le : total ≤ maxPayloadLength
  received : orchestrator.fragmentReceived.toNat = payload.length
  room : payload.length ≤ total
  buffer : orchestrator.fragmentBuffer.bytes.take payload.length = payload

theorem queueCommand_topic (orchestrator : MqttOrchestrator κ) (payload : List UInt8) :
    (orchestrator.queueCommand parse payload).commandTopic = orchestrator.commandTopic := by
  unfold queueCommand
  split
  · rfl
  · split <;> rfl

theorem storeFragment_inactive {orchestrator : MqttOrchestrator κ}
    (h : orchestrator.fragmentActive = false) (event : MqttEvent) (data : List UInt8) :
    orchestrator.storeFragment parse event data =
      some (orchestrator.resetFragment, .refused) :=
  if_pos (.inl h)

section Collecting

variable {orchestrator : MqttOrchestrator κ} {total : Nat} {payload : List UInt8}
  (h : orchestrator.Collects total payload) {event : MqttEvent} {data : List UInt8}
  (hdata : event.data = some data)

include h hdata

/-- The event continues the message. -/
theorem refused_iff (hoffset : 0 ≤ event.currentDataOffset.toInt)
    (htotal : 0 ≤ event.totalDataLen.toInt) :
    (orchestrator.fragmentActive = false ∨
      event.totalDataLen.toUInt32 ≠ orchestrator.fragmentTotal ∨
      event.currentDataOffset.toUInt32 ≠ orchestrator.fragmentReceived ∨
      event.dataLen.toUInt32 > orchestrator.fragmentTotal - orchestrator.fragmentReceived) ↔
    ¬ (event.currentDataOffset.toInt = payload.length ∧ event.totalDataLen.toInt = total ∧
      payload.length + data.length ≤ total) := by
  obtain ⟨hactive, htotalEq, -, hreceived, hroom, -⟩ := h
  have hlength := event.dataLen_eq data hdata
  have hlengthNat := toNat_toUInt32 (show 0 ≤ event.dataLen.toInt by omega)
  have hoffsetNat := toNat_toUInt32 hoffset
  have htotalNat := toNat_toUInt32 htotal
  have hleft : (orchestrator.fragmentTotal - orchestrator.fragmentReceived).toNat =
      total - payload.length := by
    rw [UInt32.toNat_sub_of_le _ _ (UInt32.le_iff_toNat_le.2 (by omega)), htotalEq, hreceived]
  rw [hactive, ne_eq, ne_eq, gt_iff_lt, UInt32.lt_iff_toNat_lt, ← UInt32.toNat_inj,
    ← UInt32.toNat_inj, hleft, htotalEq, hreceived]
  simp only [Bool.true_eq_false, false_or]
  omega

theorem storeFragment_refused (hoffset : 0 ≤ event.currentDataOffset.toInt)
    (htotal : 0 ≤ event.totalDataLen.toInt)
    (hrefused : ¬ (event.currentDataOffset.toInt = payload.length ∧
      event.totalDataLen.toInt = total ∧ payload.length + data.length ≤ total)) :
    orchestrator.storeFragment parse event data =
      some (orchestrator.resetFragment, .refused) :=
  if_pos ((refused_iff h hdata hoffset htotal).2 hrefused)

/-- The bytes of an event that continues the message are appended; the last ones complete it. -/
theorem storeFragment_accepted (parse : List UInt8 → Option κ)
    (hoffset : event.currentDataOffset.toInt = payload.length)
    (htotal : event.totalDataLen.toInt = total) (hroom : payload.length + data.length ≤ total) :
    ∃ after, after.commandTopic = orchestrator.commandTopic ∧
      ((payload.length + data.length < total ∧ after.Collects total (payload ++ data) ∧
        orchestrator.storeFragment parse event data = some (after, .stored)) ∨
      (payload.length + data.length = total ∧ after.fragmentActive = false ∧
        orchestrator.storeFragment parse event data = some (after, .parsed (payload ++ data)))) := by
  have hguard := mt (refused_iff h hdata (by omega) (by omega)).1
    (not_not.2 ⟨hoffset, htotal, hroom⟩)
  obtain ⟨hactive, htotalEq, hmax, hreceived, -, hbuffer⟩ := h
  have hlength := event.dataLen_eq data hdata
  have hlengthNat := toNat_toUInt32 (show 0 ≤ event.dataLen.toInt by omega)
  have hsum : (orchestrator.fragmentReceived + event.dataLen.toUInt32).toNat =
      payload.length + data.length := by
    unfold maxPayloadLength at hmax
    rw [UInt32.toNat_add, hreceived, Nat.mod_eq_of_lt (by omega)]
    omega
  obtain ⟨stored, hstore, hbytes⟩ := orchestrator.fragmentBuffer.store_eq_some
    (show payload.length + data.length ≤ maxPayloadLength + 1 by omega)
  rw [hbuffer] at hbytes
  unfold storeFragment
  rw [if_neg hguard, hreceived, hstore]
  dsimp only [bind, Option.bind]
  by_cases hcomplete : payload.length + data.length = total
  · have hall : orchestrator.fragmentReceived + event.dataLen.toUInt32 =
        orchestrator.fragmentTotal := UInt32.toNat_inj.1 (by omega)
    obtain ⟨ended, hend, hpayload⟩ := stored.store_eq_some
      (show total + [(0 : UInt8)].length ≤ maxPayloadLength + 1 by
        rw [List.length_singleton]; omega)
    have htake : ended.bytes.take total = payload ++ data := by
      have hprefix := congrArg (List.take total) hpayload
      rwa [List.take_take, List.length_singleton, Nat.min_eq_left (Nat.le_succ _),
        ← hcomplete, hbytes, List.take_left' List.length_append, hcomplete] at hprefix
    refine ⟨resetFragment (queueCommand parse { orchestrator with
      fragmentBuffer := ended
      fragmentReceived := orchestrator.fragmentReceived + event.dataLen.toUInt32 }
      (payload ++ data)), queueCommand_topic _ _, .inr ⟨hcomplete, rfl, ?_⟩⟩
    rw [if_neg (not_not.2 hall), htotalEq, hend]
    dsimp only
    rw [htake]
  · refine ⟨{ orchestrator with
      fragmentBuffer := stored
      fragmentReceived := orchestrator.fragmentReceived + event.dataLen.toUInt32 },
      rfl, .inl ⟨by omega, ?_, if_pos ?_⟩⟩
    · refine ⟨hactive, htotalEq, hmax, ?_, ?_, ?_⟩
      · rw [List.length_append]
        exact hsum
      · rw [List.length_append]
        exact hroom
      · rw [List.length_append]
        exact hbytes
    · intro hall
      have hequal := congrArg UInt32.toNat hall
      omega

end Collecting

/-- What `HandleData` does with an event that it does not ignore and that begins no message. -/
theorem handleData_of_later {orchestrator : MqttOrchestrator κ} {event : MqttEvent}
    {data : List UInt8} (hdata : event.data = some data) (htotal : 0 < event.totalDataLen.toInt)
    (hoffset : 0 < event.currentDataOffset.toInt) :
    orchestrator.handleData parse event = orchestrator.storeFragment parse event data := by
  have hlength := event.dataLen_eq data hdata
  unfold handleData
  rw [hdata]
  dsimp only
  rw [if_neg, if_neg]
  · rw [← Int32.toInt_inj, Int32.toInt_zero]
    omega
  · rw [Int32.lt_iff_toInt_lt, Int32.le_iff_toInt_le, Int32.lt_iff_toInt_lt, Int32.toInt_zero]
    omega

/-- The state in which the bytes of the first event of a message are stored. -/
def beginMessage (orchestrator : MqttOrchestrator κ) (event : MqttEvent) : MqttOrchestrator κ :=
  { orchestrator.resetFragment with
    fragmentTotal := event.totalDataLen.toUInt32
    fragmentActive := true }

theorem beginMessage_collects (orchestrator : MqttOrchestrator κ) {event : MqttEvent} {total : Nat}
    (htotal : event.totalDataLen.toInt = total) (hle : total ≤ maxPayloadLength) :
    (orchestrator.beginMessage event).Collects total [] := by
  have hnat := toNat_toUInt32 (show 0 ≤ event.totalDataLen.toInt by omega)
  have hequal : event.totalDataLen.toUInt32.toNat = total := by omega
  exact ⟨rfl, hequal, hle, rfl, Nat.zero_le _, rfl⟩

/-- What it does with the first event of a message. -/
theorem handleData_of_first (parse : List UInt8 → Option κ) (orchestrator : MqttOrchestrator κ)
    {event : MqttEvent} {data : List UInt8} (hdata : event.data = some data) (htotal : 0 < event.totalDataLen.toInt)
    (hoffset : event.currentDataOffset.toInt = 0) :
    orchestrator.handleData parse event =
      if topicMatches orchestrator.commandTopic event.topic event.topicLen = true ∧
          event.totalDataLen.toInt ≤ maxPayloadLength then
        (orchestrator.beginMessage event).storeFragment parse event data
      else some (orchestrator.resetFragment, .refused) := by
  have hlength := event.dataLen_eq data hdata
  have hzero : event.currentDataOffset = 0 := Int32.toInt_inj.1 (by rw [hoffset]; rfl)
  have hmax : event.totalDataLen > Int32.ofNat maxPayloadLength ↔
      ¬ event.totalDataLen.toInt ≤ maxPayloadLength := by
    rw [gt_iff_lt, Int32.lt_iff_toInt_lt, not_le]
    rfl
  unfold handleData
  rw [hdata]
  dsimp only
  rw [if_neg, if_pos hzero]
  · by_cases htopic : topicMatches orchestrator.commandTopic event.topic event.topicLen = true
    · by_cases hle : event.totalDataLen.toInt ≤ maxPayloadLength
      · rw [if_neg (by rw [htopic]; exact Bool.true_eq_false.mp), if_neg (mt hmax.1 (not_not.2 hle)),
          if_pos ⟨htopic, hle⟩]
        rfl
      · rw [if_neg (by rw [htopic]; exact Bool.true_eq_false.mp), if_pos (hmax.2 hle),
          if_neg (fun hboth => hle hboth.2)]
    · rw [if_pos (Bool.eq_false_of_not_eq_true htopic), if_neg (fun hboth => htopic hboth.1)]
  · rw [Int32.lt_iff_toInt_lt, Int32.le_iff_toInt_le, Int32.lt_iff_toInt_lt, Int32.toInt_zero]
    omega

theorem handleData_ignored {orchestrator : MqttOrchestrator κ} {event : MqttEvent}
    (h : ¬ ∃ data, event.data = some data ∧ 0 < event.totalDataLen.toInt ∧
      0 ≤ event.currentDataOffset.toInt) :
    orchestrator.handleData parse event = some (orchestrator, .ignored) := by
  unfold handleData
  cases hdata : event.data with
  | none => rfl
  | some data =>
      refine if_pos ?_
      rw [Int32.lt_iff_toInt_lt, Int32.le_iff_toInt_le, Int32.lt_iff_toInt_lt, Int32.toInt_zero]
      by_contra hfields
      exact h ⟨data, hdata, by omega, by omega⟩

/--
Everything an event can do: nothing, end the message that was being collected, or bring the next
bytes of a message, which is that one or a new one.
-/
theorem handleData_cases (parse : List UInt8 → Option κ) {orchestrator : MqttOrchestrator κ}
    {total : Nat} {payload : List UInt8}
    (h : orchestrator.fragmentActive = true → orchestrator.Collects total payload)
    (event : MqttEvent) :
    ∃ after handled, orchestrator.handleData parse event = some (after, handled) ∧
      after.commandTopic = orchestrator.commandTopic ∧
      ((handled = .ignored ∧ after = orchestrator) ∨
      (handled = .refused ∧ after.fragmentActive = false) ∨
      ∃ (data before : List UInt8) (announced : Nat), event.data = some data ∧ event.totalDataLen.toInt = announced ∧
        announced ≤ maxPayloadLength ∧ event.currentDataOffset.toInt = before.length ∧
        ((before = [] ∧
            topicMatches orchestrator.commandTopic event.topic event.topicLen = true) ∨
          (orchestrator.fragmentActive = true ∧ before = payload ∧ announced = total)) ∧
        ((handled = .stored ∧ after.Collects announced (before ++ data)) ∨
          (handled = .parsed (before ++ data) ∧ after.fragmentActive = false ∧
            before.length + data.length = announced))) := by
  by_cases hfields : ∃ data, event.data = some data ∧ 0 < event.totalDataLen.toInt ∧
      0 ≤ event.currentDataOffset.toInt
  swap
  · exact ⟨_, _, handleData_ignored hfields, rfl, .inl ⟨rfl, rfl⟩⟩
  obtain ⟨data, hdata, htotal, hoffset⟩ := hfields
  by_cases hfirst : event.currentDataOffset.toInt = 0
  · -- the first event of a message
    rw [handleData_of_first parse orchestrator hdata htotal hfirst]
    by_cases hcommand : topicMatches orchestrator.commandTopic event.topic event.topicLen = true ∧
        event.totalDataLen.toInt ≤ maxPayloadLength
    swap
    · exact ⟨_, _, if_neg hcommand, rfl, .inr (.inl ⟨rfl, rfl⟩)⟩
    rw [if_pos hcommand]
    obtain ⟨announced, hannounced⟩ := Int.eq_ofNat_of_zero_le htotal.le
    have hle : announced ≤ maxPayloadLength := by omega
    have hcollects := beginMessage_collects orchestrator hannounced hle
    by_cases hroom : data.length ≤ announced
    · obtain ⟨after, htopic, hstored | hparsed⟩ := storeFragment_accepted hcollects hdata parse
        hfirst hannounced (by rw [List.length_nil]; omega)
      · exact ⟨after, _, hstored.2.2, htopic, .inr (.inr ⟨data, [], announced, hdata, hannounced,
          hle, hfirst, .inl ⟨rfl, hcommand.1⟩, .inl ⟨rfl, hstored.2.1⟩⟩)⟩
      · exact ⟨after, _, hparsed.2.2, htopic, .inr (.inr ⟨data, [], announced, hdata, hannounced,
          hle, hfirst, .inl ⟨rfl, hcommand.1⟩, .inr ⟨rfl, hparsed.2.1, hparsed.1⟩⟩)⟩
    · refine ⟨_, _, storeFragment_refused hcollects hdata hoffset htotal.le ?_, rfl,
        .inr (.inl ⟨rfl, rfl⟩)⟩
      rw [List.length_nil]
      omega
  · -- a later one
    rw [handleData_of_later hdata htotal (by omega)]
    by_cases hactive : orchestrator.fragmentActive = true
    swap
    · exact ⟨_, _, storeFragment_inactive (Bool.eq_false_of_not_eq_true hactive) event data, rfl,
        .inr (.inl ⟨rfl, rfl⟩)⟩
    have hcollects := h hactive
    by_cases hnext : event.currentDataOffset.toInt = payload.length ∧
        event.totalDataLen.toInt = total ∧ payload.length + data.length ≤ total
    swap
    · exact ⟨_, _, storeFragment_refused hcollects hdata hoffset htotal.le hnext, rfl,
        .inr (.inl ⟨rfl, rfl⟩)⟩
    obtain ⟨after, htopic, hstored | hparsed⟩ := storeFragment_accepted hcollects hdata parse
      hnext.1 hnext.2.1 hnext.2.2
    · exact ⟨after, _, hstored.2.2, htopic, .inr (.inr ⟨data, payload, total, hdata, hnext.2.1,
        hcollects.total_le, hnext.1, .inr ⟨hactive, rfl, rfl⟩, .inl ⟨rfl, hstored.2.1⟩⟩)⟩
    · exact ⟨after, _, hparsed.2.2, htopic, .inr (.inr ⟨data, payload, total, hdata, hnext.2.1,
        hcollects.total_le, hnext.1, .inr ⟨hactive, rfl, rfl⟩,
        .inr ⟨rfl, hparsed.2.1, hparsed.1⟩⟩)⟩

end MqttOrchestrator

end SecureDeltaOta.Mqtt
