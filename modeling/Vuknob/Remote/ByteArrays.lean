import Vuknob.Midi.EventBuilder
import Vuknob.Remote.Shortcut

/-!
# Byte arrays in messages

`RIMachine::enqueue_midi_data` on a client, `src_jni/remote_interface.cc:2361–2374`, and the branch
for it on the server, `src_jni/remote_interface.cc:2452–2469`. The bytes travel as letters,
`src_jni/remote_interface.hh:165–197`, two for each of them, in one value of a message.
-/

namespace Vuknob

open Message

/-- The two letters of a byte, `src_jni/remote_interface.hh:169–173`. -/
def encodeByte (byte : UInt8) : StdString :=
  let high : UInt8 := (byte &&& 0xf0) >>> 4
  let low : UInt8 := byte &&& 0x0f
  [high + 97, low + 97]

/-- `encode_byte_array`, `src_jni/remote_interface.hh:165–181`. -/
def encodeByteArray (data : List UInt8) : StdString := data.flatMap encodeByte

/-- `decode_byte_array`, `src_jni/remote_interface.hh:183–197`: the bytes behind `*data`, of which
there are `len`. What is computed is an `int`, of which the low byte is kept. -/
def decodeByteArray : StdString → List UInt8
  | high :: low :: encoded => ((high - 97) <<< 4 ||| (low - 97)) :: decodeByteArray encoded
  | _ => []

/-- A `RIMachine` of a client, with the name it has got from the server,
`src_jni/remote_interface.cc:1831`. -/
structure ClientMachine where
  objId : Int32
  name : StdString
  received : ∃ value, deliverText value = some name

namespace ClientMachine

/-- The calls of `set_value` on the message, `src_jni/remote_interface.cc:453–512,2361–2374`. -/
def midiCalls (m : ClientMachine) (data : List UInt8) : List (StdString × StdString) :=
  [(str "id", decimalInt m.objId.toInt), (str "command", str "midi"), (str "ignored", m.name),
    (str "data", encodeByteArray data)]

/-- `enqueue_midi_data`, `src_jni/remote_interface.cc:2361–2374`, with the message that
`acquire_message` returns. -/
def enqueueMidiData (m : ClientMachine) (acquired : Message) (data : List UInt8) :
    Except Error Message :=
  acquired.setValues (m.midiCalls data)

end ClientMachine

/-- The branch for `midi` of `process_message_server`, `src_jni/remote_interface.cc:2452–2469`: the
bytes that are passed to `MachineSequencer::enqueue_midi_data`. Without letters `malloc` is asked
for no bytes, and there is no call or one without bytes. -/
def Message.processMidi (msg : Message) : Except Error (Option (List UInt8)) := do
  let command ← msg.getValue (str "command")
  if command = str "midi" then
    return some (decodeByteArray (← msg.getValue (str "data")))
  else
    return none

/-! ### Letters -/

/-- The letters of a byte and what is read from them. -/
theorem encodeByte_spec (byte : UInt8) :
    decodeByteArray (encodeByte byte) = [byte] ∧ ∀ c ∈ encodeByte byte, 97 ≤ c := by
  have hall : ∀ x : BitVec 8, decodeByteArray (encodeByte (.ofBitVec x)) = [.ofBitVec x] ∧
      (encodeByte (.ofBitVec x)).all (97 ≤ ·) = true := by
    decide
  exact ⟨(hall byte.toBitVec).1, fun c hc ↦
    of_decide_eq_true (List.all_eq_true.mp (hall byte.toBitVec).2 c hc)⟩

theorem decodeByteArray_encodeByteArray (data : List UInt8) :
    decodeByteArray (encodeByteArray data) = data := by
  induction data with
  | nil => rfl
  | cons byte data ih =>
    obtain ⟨hfirst, -⟩ := List.cons.inj (encodeByte_spec byte).1
    show _ :: decodeByteArray (encodeByteArray data) = _
    rw [ih]
    exact congrArg (· :: data) hfirst

theorem notMem_encodeByteArray (data : List UInt8) {c : UInt8} (hc : c < 97) :
    c ∉ encodeByteArray data := by
  intro h
  obtain ⟨byte, -, hmem⟩ := List.mem_flatMap.mp h
  exact absurd hc (UInt8.not_lt.mpr ((encodeByte_spec byte).2 c hmem))

theorem encodeByteArray_eq_nil_iff {data : List UInt8} : encodeByteArray data = [] ↔ data = [] := by
  cases data with
  | nil => exact iff_of_true rfl rfl
  | cons byte data => exact iff_of_false nofun nofun

/-- The value in which the bytes arrive: that of no bytes is the word for the empty string. -/
theorem transmitted_encodeByteArray (data : List UInt8) :
    decodeByteArray (Serialize.transmitted (encodeByteArray data)) =
      if data = [] then [0xb4, 0xcf, 0x38] else data := by
  split
  · next hnil =>
    subst hnil
    decide
  · next hne =>
    rw [Serialize.transmitted_eq_self (mt encodeByteArray_eq_nil_iff.mp hne)
      (notMem_encodeByteArray data (by decide)), decodeByteArray_encodeByteArray]

/-! ### The message -/

namespace ClientMachine

variable (m : ClientMachine) (data : List UInt8)

/-- A name that has come in a message can be set in a message. -/
theorem name_accepted : 59 ∉ m.name ∧ 61 ∉ m.name := by
  obtain ⟨value, hvalue⟩ := m.received
  rw [deliverText, setText] at hvalue
  split at hvalue
  · cases hvalue
  · next hplain =>
    obtain ⟨hsemicolon, hequals⟩ := not_or.mp hplain
    have hname := Option.some.inj ((Serialize.decodeString_encodeString value).symm.trans hvalue)
    rw [← hname]
    exact ⟨Serialize.notMem_transmitted (by decide) hsemicolon,
      Serialize.notMem_transmitted (by decide) hequals⟩

theorem acceptable_midiCalls : ∀ call ∈ m.midiCalls data, Acceptable call := by
  have hid : Acceptable (str "id", decimalInt m.objId.toInt) := acceptable_decimalInt (by decide) _
  have hkeys : (59 ∉ str "ignored" ∧ 61 ∉ str "ignored") ∧ 59 ∉ str "data" ∧ 61 ∉ str "data" := by
    decide
  have hignored : Acceptable (str "ignored", m.name) := ⟨hkeys.1.1, hkeys.1.2, m.name_accepted⟩
  have hdata : Acceptable (str "data", encodeByteArray data) :=
    ⟨hkeys.2.1, hkeys.2.2, notMem_encodeByteArray data (by decide),
      notMem_encodeByteArray data (by decide)⟩
  simp only [midiCalls, List.forall_mem_cons]
  exact ⟨hid, by decide, hignored, hdata, nofun⟩

theorem plainKeys {c : Composed} (h : c.calls = m.midiCalls data) : c.PlainKeys := by
  have hkeys : c.calls.map Prod.fst = [str "id", str "command", str "ignored", str "data"] := by
    rw [h]
    rfl
  have hmem : ∀ call ∈ c.calls, call.1 ∈ [str "id", str "command", str "ignored", str "data"] :=
    fun call hcall ↦ hkeys ▸ List.mem_map_of_mem hcall
  refine ⟨?_, fun call hcall ↦ ?_, fun call hcall ↦ ?_⟩
  · rw [hkeys]
    decide
  · exact (by decide : ∀ key ∈ [str "id", str "command", str "ignored", str "data"], key ≠ [])
      _ (hmem call hcall)
  · exact (by decide : ∀ key ∈ [str "id", str "command", str "ignored", str "data"], 0 ∉ key)
      _ (hmem call hcall)

variable {m data}

/-- What the server takes from a message with these values. -/
theorem processMidi_eq {c : Composed} (h : c.calls = m.midiCalls data) {msg : Message}
    (hmsg : msg.key2val = travelled c.calls) :
    msg.processMidi = .ok (some (if data = [] then [0xb4, 0xcf, 0x38] else data)) := by
  have hvalue : ∀ call ∈ m.midiCalls data,
      msg.getValue call.1 = .ok (Serialize.transmitted call.2) := by
    intro call hcall
    have hkey : (travelled c.calls)[call.1]? = some (Serialize.transmitted call.2) :=
      ((plainKeys m data h).getElem?_sent _ _).mpr ⟨call, h ▸ hcall, rfl, rfl⟩
    rw [getValue, hmsg, hkey]
  have hmidi : Serialize.transmitted (str "midi") = str "midi" := by decide
  have hcommand : msg.getValue (str "command") = .ok (str "midi") :=
    hmidi ▸ hvalue (str "command", str "midi") (by simp [midiCalls])
  have hdata : msg.getValue (str "data") = .ok (Serialize.transmitted (encodeByteArray data)) :=
    hvalue (str "data", encodeByteArray data) (by simp [midiCalls])
  simp only [processMidi, hcommand, hdata, bind, Except.bind, if_true, pure, Except.pure,
    transmitted_encodeByteArray]

/-- The bytes are sent, read by `decode_body` and passed on as they were given. -/
def MidiArrives (m : ClientMachine) (acquired : AcquiredMessage) (data : List UInt8) : Prop :=
  ∃ sent received, m.enqueueMidiData acquired data = .ok sent ∧ sent.arrived = some received ∧
    received.processMidi = .ok (some data)

/-- The bytes arrive if there are any; otherwise the server is given three other bytes. -/
theorem midiArrives_iff (m : ClientMachine) (acquired : AcquiredMessage) (data : List UInt8) :
    m.MidiArrives acquired data ↔ data ≠ [] := by
  obtain ⟨c, hacquired, hcalls, hset⟩ := exists_composed acquired (m.acceptable_midiCalls data)
  obtain ⟨msg, harrived, hmsg⟩ := Composed.arrived_of_keys (plainKeys m data hcalls).head?_ne
  have hprocess := processMidi_eq hcalls hmsg
  constructor
  · rintro ⟨sent, received, hsent, hreceived, hdata⟩ rfl
    obtain rfl := Except.ok.inj (hset.symm.trans hsent)
    obtain rfl := Option.some.inj (harrived.symm.trans hreceived)
    rw [hprocess] at hdata
    cases hdata
  · intro hne
    rw [if_neg hne] at hprocess
    exact ⟨c.message, msg, hset, harrived, hprocess⟩

/-- A machine named `mc`. -/
def mc : ClientMachine := ⟨1, str "mc", ⟨str "mc", by decide⟩⟩

/-- Without bytes the word for the empty string is decoded, which the sequencer takes for a change
of a controller. -/
theorem empty_array_changes_controller :
    (((mc.enqueueMidiData (newMessage false 0) []).toOption.bind arrived).map processMidi =
        some (.ok (some [0xb4, 0xcf, 0x38]))) ∧
      queueMidiData [0xb4, 0xcf, 0x38] = some [.queueController 0xcf 0x38 4] ∧
      ¬ ∀ (m : ClientMachine) (acquired : AcquiredMessage) (data : List UInt8),
        m.MidiArrives acquired data := by
  have heval : ((mc.enqueueMidiData (newMessage false 0) []).toOption.bind arrived).map
      processMidi = some (.ok (some [0xb4, 0xcf, 0x38])) := by
    decide +kernel
  refine ⟨heval, by decide, fun h ↦ ?_⟩
  obtain ⟨sent, received, hsent, hreceived, hdata⟩ := h mc ⟨_, fresh_newMessage false 0⟩ []
  rw [hsent] at heval
  have hprocess : (sent.arrived).map processMidi = some (.ok (some [0xb4, 0xcf, 0x38])) := heval
  rw [hreceived, Option.map_some, hdata] at hprocess
  cases hprocess

/-- On the stream of a connection the message is read as it arrives, if its length fits the
header. -/
theorem readMessage_midi (m : ClientMachine) (data : List UInt8) {c : Composed}
    (h : c.calls = m.midiCalls data) (hsize : (bodyText c.entries).length < 2 ^ 32)
    {readMsg : Message} (hsbuf : readMsg.sbuf = []) :
    ∃ r msg rest, readMessage readMsg c.bytes = .ok (r, msg, rest) ∧
      msg.processMidi = .ok (some (if data = [] then [0xb4, 0xcf, 0x38] else data)) := by
  have hstale : ¬ c.Stale := by
    rintro ⟨hnil, -⟩
    rw [h] at hnil
    cases hnil
  obtain ⟨r, msg, rest, hread, hmsg, -⟩ :=
    (plainKeys m data h).exists_readMessage hsbuf hstale hsize
  exact ⟨r, msg, rest, hread, processMidi_eq h hmsg⟩

end ClientMachine

end Vuknob
