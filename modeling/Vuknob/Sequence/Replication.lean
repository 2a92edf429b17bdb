import Vuknob.Library.Runs
import Vuknob.Remote.RoundTrip
import Vuknob.Sequence.Handlers

/-!
# Replication of sequences

A client that holds the same sequence as the server and applies the commands the server
broadcasts. The commands go through `encode`, the stream and `decode_body`; what a client
makes of one is said once for all of them by what `get_value` returns there.
-/

namespace Vuknob

open Message

/-! ## Commands on their way -/

theorem value_of_getElem? {msg : Message} {key value : StdString}
    (h : msg.key2val[key]? = some value) : msg.value key = .ok value := by
  rw [Message.value, getValue_eq_ok_iff.mpr h]
  rfl

theorem value_of_getElem?_none {msg : Message} {key : StdString}
    (h : msg.key2val[key]? = none) : msg.value key = .error (.noSuchKey (cString key)) := by
  rw [Message.value, getValue_eq_error_iff.mpr h]
  rfl

theorem intValue_eq {msg : Message} {key : StdString} {v : Int32}
    (h : msg.value key = .ok (decimalInt v.toInt)) : msg.intValue key = .ok v := by
  rw [intValue, h]
  show (stoi (decimalInt v.toInt)).mapError Fault.ofConversion = .ok v
  rw [stoi_decimalInt]
  rfl

theorem uintValue_eq {msg : Message} {key : StdString} {n : UInt32}
    (h : msg.value key = .ok (decimal n.toNat)) : msg.uintValue key = .ok n := by
  have hlt : n.toNat < 2 ^ 64 := Nat.lt_trans n.toNat_lt (by decide)
  rw [uintValue, h]
  show ((stoul (decimal n.toNat)).mapError Fault.ofConversion).bind _ = .ok n
  rw [stoul_decimal]
  show Except.ok (UInt32.ofNat (UInt64.ofNat n.toNat).toNat) = .ok n
  rw [UInt64.toNat_ofNat_of_lt' hlt, UInt32.ofNat_toNat]

/-- The message holds the values of these calls. -/
def Holds (msg : Message) (calls : List (StdString × StdString)) : Prop :=
  ∀ call ∈ calls, msg.value call.1 = .ok call.2

private theorem patternInstance_eq {msg : Message} {pin : PatternInstance}
    (h : Holds msg (patternInstanceCalls pin)) : msg.patternInstance = .ok pin := by
  simp only [Holds, patternInstanceCalls, patternIdCall, List.forall_mem_cons] at h
  obtain ⟨h₁, h₂, h₃, h₄, -⟩ := h
  rw [Message.patternInstance, uintValue_eq h₁, intValue_eq h₂, intValue_eq h₃, intValue_eq h₄]
  rfl

private theorem note_eq {msg : Message} {patternId : UInt32} {note : Note}
    (h : Holds msg (noteCalls patternId note)) :
    msg.uintValue (str "pattern_id") = .ok patternId ∧ msg.note = .ok note := by
  simp only [Holds, noteCalls, patternIdCall, List.forall_mem_cons] at h
  obtain ⟨h₁, h₂, h₃, h₄, h₅, h₆, h₇, -⟩ := h
  refine ⟨uintValue_eq h₁, ?_⟩
  rw [Message.note, intValue_eq h₂, intValue_eq h₃, intValue_eq h₄, intValue_eq h₅,
    intValue_eq h₆, intValue_eq h₇]
  rfl

/-- The keys and the name of a command are a few distinct short words. -/
def PlainCommand (commandId : StdString) (keys : List StdString) : Prop :=
  ((str "id" :: str "commandid" :: keys).Nodup ∧
    ∀ key ∈ keys, key ≠ [] ∧ 0 ∉ key ∧ key.length ≤ 16) ∧
  keys.length ≤ 7 ∧ commandId ≠ [] ∧ 0 ∉ commandId ∧ commandId.length ≤ 20

instance (commandId : StdString) (keys : List StdString) :
    Decidable (PlainCommand commandId keys) := by
  unfold PlainCommand
  infer_instance

namespace SequenceServer

variable {srv : SequenceServer} {acquired readMsg broadcast : Message} {commandId : StdString}
  {calls : List (StdString × StdString)}

/-- The message that `send_message` fills in. -/
def composed (hfresh : acquired.Fresh)
    (hset : acquired.setValues (srv.messageCalls commandId calls) = .ok broadcast) : Composed :=
  ⟨acquired, hfresh, srv.messageCalls commandId calls, broadcast, hset⟩

private theorem plainKeys_composed {hfresh : acquired.Fresh}
    {hset : acquired.setValues (srv.messageCalls commandId calls) = .ok broadcast}
    (h : PlainCommand commandId (calls.map Prod.fst)) : (composed hfresh hset).PlainKeys := by
  have hkeys : ∀ key ∈ (srv.messageCalls commandId calls).map Prod.fst, key ≠ [] ∧ 0 ∉ key := by
    simp only [messageCalls, List.map_cons, List.forall_mem_cons]
    exact ⟨by decide, by decide, fun key hkey ↦ ⟨(h.1.2 key hkey).1, (h.1.2 key hkey).2.1⟩⟩
  exact ⟨h.1.1, fun call hcall ↦ (hkeys _ (List.mem_map_of_mem hcall)).1,
    fun call hcall ↦ (hkeys _ (List.mem_map_of_mem hcall)).2⟩

/-- A command that fits its count arrives, with every string as it is transmitted. -/
theorem exists_received (hfresh : acquired.Fresh) (hsbuf : readMsg.sbuf = [])
    (hset : acquired.setValues (srv.messageCalls commandId calls) = .ok broadcast)
    (hplain : PlainCommand commandId (calls.map Prod.fst))
    (hsize : (bodyText ((srv.messageCalls commandId calls).map encodeEntry)).length < 2 ^ 32) :
    ∃ msg : Message,
      (∀ client : Sequence, client.receiveBroadcast srv.objId readMsg (some broadcast) =
        (client.onMessageReceived msg srv.objId).map (·, msg)) ∧ msg.sbuf = [] ∧
      (∀ call ∈ srv.messageCalls commandId calls,
        msg.value call.1 = .ok (Serialize.transmitted call.2)) ∧
      ∀ key ∉ (srv.messageCalls commandId calls).map Prod.fst,
        msg.value key = .error (.noSuchKey (cString key)) := by
  have hkeys : (composed hfresh hset).PlainKeys := plainKeys_composed hplain
  have hs : ¬ (composed hfresh hset).Stale := fun hs ↦ by cases hs.1
  obtain ⟨r, msg, rest, hread, hmap, hempty⟩ := hkeys.exists_readMessage hsbuf hs hsize
  refine ⟨msg, fun client ↦ ?_, hempty, fun call hcall ↦ ?_, fun key hkey ↦ ?_⟩
  · have hbytes : readMessage readMsg broadcast.encode.sbuf = .ok (r, msg, rest) := hread
    rw [Sequence.receiveBroadcast, hbytes]
  · apply value_of_getElem?
    rw [hmap, hkeys.getElem?_sent]
    exact ⟨call, hcall, rfl, rfl⟩
  · apply value_of_getElem?_none
    rw [Option.eq_none_iff_forall_ne_some, hmap]
    intro value hvalue
    obtain ⟨call, hcall, rfl, -⟩ := (hkeys.getElem?_sent _ _).mp hvalue
    exact hkey (List.mem_map_of_mem hcall)

end SequenceServer

namespace Sequence

variable {client : Sequence} {msg : Message}

/-- A message with the identity of the object reaches its handlers. -/
private theorem onMessageReceived_eq {objId : Int32} (hobj : 0 ≤ objId.toInt)
    (h : msg.value (str "id") = .ok (decimalInt objId.toInt)) :
    client.onMessageReceived msg objId = client.processMessageClient msg := by
  have hlo := objId.le_toInt
  have hhi := objId.toInt_lt
  have hlong : (Int64.ofInt objId.toInt).toInt = objId.toInt :=
    Int64.toInt_ofInt_of_le (by omega) (by omega)
  rw [onMessageReceived, h]
  show ((stol (decimalInt objId.toInt)).mapError Fault.ofConversion).bind _ = _
  rw [stol_decimalInt]
  show (if 0 ≤ (Int64.ofInt objId.toInt).toInt ∧
    Int32.ofInt (Int64.ofInt objId.toInt).toInt = objId then _ else _) = _
  rw [hlong, Int32.ofInt_toInt, if_pos ⟨hobj, rfl⟩]

private theorem onMessageReceived_of_error {objId : Int32}
    (h : ∃ e, client.processMessageClient msg = .error e) :
    ∃ e, client.onMessageReceived msg objId = .error e := by
  obtain ⟨e, h⟩ := h
  rw [onMessageReceived]
  cases msg.value (str "id") with
  | error e => exact ⟨e, rfl⟩
  | ok id =>
    show ∃ e, ((stol id).mapError Fault.ofConversion).bind _ = .error e
    cases stol id with
    | error e => exact ⟨_, rfl⟩
    | ok identifier =>
      show ∃ e, (if 0 ≤ identifier.toInt ∧ Int32.ofInt identifier.toInt = objId then
        client.processMessageClient msg else throw .otherRecipient) = .error e
      rw [h]
      split
      · exact ⟨_, rfl⟩
      · exact ⟨_, rfl⟩

end Sequence

/-- A value that is a number as text. -/
def Numeric (value : StdString) : Prop := value ≠ [] ∧ 0 ∉ value ∧ value.length ≤ 11

theorem numeric_decimal (n : UInt32) : Numeric (decimal n.toNat) := by
  have hlen := length_decimal_le (n := n.toNat) (k := 9) (Nat.lt_trans n.toNat_lt (by decide))
  exact ⟨decimal_ne_nil _, fun h ↦ (mem_decimal h).1 rfl, by omega⟩

theorem numeric_decimalInt (v : Int32) : Numeric (decimalInt v.toInt) :=
  ⟨decimalInt_ne_nil _, fun h ↦ (mem_decimalInt h).1 rfl, length_decimalInt_le v⟩

theorem length_bodyText_le (es : List (StdString × StdString)) (b : Nat)
    (h : ∀ e ∈ es, e.1.length + e.2.length + 2 ≤ b) : (bodyText es).length ≤ es.length * b := by
  induction es with
  | nil => simp [bodyText]
  | cons e es ih =>
    rw [List.forall_mem_cons] at h
    have := ih h.2
    have := h.1
    rw [length_bodyText_cons, List.length_cons, Nat.succ_mul]
    omega

/-- Few short calls make a body whose length fits the header. -/
theorem length_bodyText_encodeEntry_lt {calls : List (StdString × StdString)}
    (hshort : ∀ call ∈ calls, call.1.length ≤ 16 ∧ call.2.length ≤ 20)
    (hfew : calls.length * 130 < 2 ^ 32) : (bodyText (calls.map encodeEntry)).length < 2 ^ 32 := by
  have hle := length_bodyText_le (calls.map encodeEntry) 130 fun e he ↦ by
    obtain ⟨call, hcall, rfl⟩ := List.mem_map.mp he
    have hkey := Serialize.length_encodeString_le call.1
    have hvalue := Serialize.length_encodeString_le call.2
    have := hshort call hcall
    simp only [encodeEntry, Prod.map_fst, Prod.map_snd]
    omega
  rw [List.length_map] at hle
  exact Nat.lt_of_le_of_lt hle hfew

namespace SequenceServer

variable {srv : SequenceServer} {acquired readMsg broadcast : Message} {commandId : StdString}
  {calls : List (StdString × StdString)}

private theorem length_messageCalls (hplain : PlainCommand commandId (calls.map Prod.fst))
    (hvalues : ∀ call ∈ calls, Numeric call.2) :
    (bodyText ((srv.messageCalls commandId calls).map encodeEntry)).length < 2 ^ 32 := by
  have hshort : ∀ call ∈ srv.messageCalls commandId calls,
      call.1.length ≤ 16 ∧ call.2.length ≤ 20 := by
    simp only [messageCalls, List.forall_mem_cons]
    refine ⟨⟨by decide, ?_⟩, ⟨by decide, hplain.2.2.2.2⟩, fun call hcall ↦ ⟨?_, ?_⟩⟩
    · exact Nat.le_trans (length_decimalInt_le srv.objId) (by decide)
    · exact (hplain.1.2 _ (List.mem_map_of_mem hcall)).2.2
    · exact Nat.le_trans (hvalues call hcall).2.2 (by decide)
  have hfew := hplain.2.1
  refine length_bodyText_encodeEntry_lt hshort ?_
  simp only [messageCalls, List.length_cons, List.length_map] at hfew ⊢
  omega

/-- A command whose values are numbers reaches the handlers with exactly these values. -/
theorem exists_received_numeric (hfresh : acquired.Fresh) (hsbuf : readMsg.sbuf = [])
    (hset : acquired.setValues (srv.messageCalls commandId calls) = .ok broadcast)
    (hplain : PlainCommand commandId (calls.map Prod.fst))
    (hvalues : ∀ call ∈ calls, Numeric call.2) :
    ∃ msg : Message,
      (∀ client : Sequence, client.receiveBroadcast srv.objId readMsg (some broadcast) =
        (client.processMessageClient msg).map (·, msg)) ∧ msg.sbuf = [] ∧
      msg.value (str "commandid") = .ok commandId ∧ Holds msg calls ∧
      ∀ key ∉ (srv.messageCalls commandId calls).map Prod.fst,
        msg.value key = .error (.noSuchKey (cString key)) := by
  obtain ⟨msg, hreceive, hempty, hset, hmissing⟩ :=
    exists_received hfresh hsbuf hset hplain (length_messageCalls hplain hvalues)
  simp only [messageCalls, List.forall_mem_cons] at hset
  obtain ⟨hid, hcommand, hcalls⟩ := hset
  rw [Serialize.transmitted_eq_self (numeric_decimalInt srv.objId).1
    (numeric_decimalInt srv.objId).2.1] at hid
  rw [Serialize.transmitted_eq_self hplain.2.2.1 hplain.2.2.2.1] at hcommand
  refine ⟨msg, fun client ↦ ?_, hempty, hcommand, fun call hcall ↦ ?_, hmissing⟩
  · rw [hreceive client, Sequence.onMessageReceived_eq srv.objId_nonneg hid]
  · rw [hcalls call hcall,
      Serialize.transmitted_eq_self (hvalues call hcall).1 (hvalues call hcall).2.1]

end SequenceServer

/-! ## One request -/

private theorem Sequence.processMessageClient_eq {client : Sequence} {msg : Message}
    {commandId : StdString} (h : msg.value (str "commandid") = .ok commandId) :
    client.processMessageClient msg =
      if commandId = str "cmd_add_ptrn" then client.handleCmdAddPattern msg
      else if commandId = str "cmd_del_ptrn" then client.handleCmdDelPattern msg
      else if commandId = str "cmd_add_ptrn_inst" then client.handleCmdAddPatternInstance msg
      else if commandId = str "cmd_del_ptrn_inst" then client.handleCmdDelPatternInstance msg
      else if commandId = str "cmd_add_note" then client.handleCmdAddNote msg
      else if commandId = str "cmd_del_note" then client.handleCmdDelNote msg
      else .ok client := by
  rw [Sequence.processMessageClient, h]
  rfl

namespace SequenceServer

variable {srv srv' : SequenceServer} {acquired readMsg msg : Message}
  {broadcast : Option Message}

private theorem sendMessage_ok {commandId : StdString} {calls : List (StdString × StdString)}
    (h : srv.sendMessage acquired commandId calls = (.ok broadcast, srv')) :
    srv' = srv ∧ ∃ sent, broadcast = some sent ∧
      acquired.setValues (srv.messageCalls commandId calls) = .ok sent := by
  rw [sendMessage] at h
  split at h
  · cases h
  · next sent hset =>
    cases h
    exact ⟨rfl, sent, rfl, hset⟩

/-- A client with the sequence of the server before the request has applied the broadcast,
and its sequence is the server's again; its reader is ready for the next message. -/
def Replicated (srv srv' : SequenceServer) (readMsg : Message) (broadcast : Option Message) :
    Prop :=
  ∃ readMsg' : Message, readMsg'.sbuf = [] ∧
    srv.sequence.receiveBroadcast srv.objId readMsg broadcast = .ok (srv'.sequence, readMsg')

/-- Sending a command of numbers replicates the state when its handler does to the old
sequence what the server has done. -/
private theorem replicated_of_numeric (hfresh : acquired.Fresh) (hsbuf : readMsg.sbuf = [])
    {srv₁ : SequenceServer} {commandId : StdString} {calls : List (StdString × StdString)}
    (h : srv₁.sendMessage acquired commandId calls = (.ok broadcast, srv'))
    (hobj : srv₁.objId = srv.objId) (keys : List StdString)
    (hkeys : calls.map Prod.fst = keys) (hplain : PlainCommand commandId keys)
    (hvalues : ∀ call ∈ calls, Numeric call.2)
    (happly : ∀ received : Message, received.value (str "commandid") = .ok commandId →
      Holds received calls →
      srv.sequence.processMessageClient received = .ok srv₁.sequence) :
    srv.Replicated srv' readMsg broadcast := by
  obtain ⟨rfl, sent, rfl, hset⟩ := sendMessage_ok h
  subst hkeys
  obtain ⟨received, hreceive, hempty, hcommand, hcalls, -⟩ :=
    exists_received_numeric hfresh hsbuf hset hplain hvalues
  refine ⟨received, hempty, ?_⟩
  rw [← hobj, hreceive, happly received hcommand hcalls]
  rfl

private theorem numeric_patternInstanceCalls (pin : PatternInstance) :
    ∀ call ∈ patternInstanceCalls pin, Numeric call.2 := by
  simp only [patternInstanceCalls, List.forall_mem_cons]
  exact ⟨numeric_decimal _, numeric_decimalInt _, numeric_decimalInt _, numeric_decimalInt _,
    by simp⟩

private theorem numeric_noteCalls (patternId : UInt32) (note : Note) :
    ∀ call ∈ noteCalls patternId note, Numeric call.2 := by
  simp only [noteCalls, List.forall_mem_cons]
  exact ⟨numeric_decimal _, numeric_decimalInt _, numeric_decimalInt _, numeric_decimalInt _,
    numeric_decimalInt _, numeric_decimalInt _, numeric_decimalInt _, by simp⟩

/-- The keys of a pattern instance in a message. -/
def patternInstanceKeys : List StdString :=
  [str "pattern_id", str "start_at", str "loop_length", str "stop_at"]

/-- The keys of a note in a message. -/
def noteKeys : List StdString :=
  [str "pattern_id", str "channel", str "program", str "velocity", str "note", str "on_at",
    str "length"]

/-- A client applies the broadcast and ends up with the server's sequence exactly when `p`
holds, and then its reader is ready for the next message. -/
structure ReplicatedWhen (srv srv' : SequenceServer) (readMsg : Message)
    (broadcast : Option Message) (p : Prop) : Prop where
  replicated : p → srv.Replicated srv' readMsg broadcast
  of_received : ∀ readMsg' : Message, srv.sequence.receiveBroadcast srv.objId readMsg broadcast =
    .ok (srv'.sequence, readMsg') → p

theorem replicated_handleReqDelPattern (hfresh : acquired.Fresh) (hsbuf : readMsg.sbuf = [])
    (h : srv.handleReqDelPattern acquired msg = (.ok broadcast, srv')) :
    srv.Replicated srv' readMsg broadcast := by
  rw [handleReqDelPattern] at h
  split at h
  · cases h
  · next patternId _ =>
    split at h
    · cases h
      exact ⟨readMsg, hsbuf, rfl⟩
    · next sequence hdel =>
      split at h
      · cases h
      · refine replicated_of_numeric hfresh hsbuf h rfl [str "pattern_id"] rfl
          (by decide) ?_ fun received hcommand hcalls ↦ ?_
        · simpa [patternIdCall] using numeric_decimal patternId
        · have hid : received.uintValue (str "pattern_id") = .ok patternId :=
            uintValue_eq (hcalls _ List.mem_cons_self)
          rw [Sequence.processMessageClient_eq hcommand, if_neg (by decide), if_pos rfl,
            Sequence.handleCmdDelPattern, hid]
          show Except.ok (srv.sequence.processDelPattern patternId).2 = _
          rw [hdel]

theorem replicated_handleReqAddPatternInstance (hfresh : acquired.Fresh)
    (hsbuf : readMsg.sbuf = [])
    (h : srv.handleReqAddPatternInstance acquired msg = (.ok broadcast, srv')) :
    srv.Replicated srv' readMsg broadcast := by
  rw [handleReqAddPatternInstance] at h
  split at h
  · cases h
  · next pin _ =>
    split at h
    · cases h
    · cases h
      exact ⟨readMsg, hsbuf, rfl⟩
    · next sequence hadd =>
      refine replicated_of_numeric hfresh hsbuf h rfl patternInstanceKeys rfl
        (by decide) (numeric_patternInstanceCalls pin) fun received hcommand hcalls ↦ ?_
      rw [Sequence.processMessageClient_eq hcommand, if_neg (by decide), if_neg (by decide),
        if_pos rfl]
      simp only [Sequence.handleCmdAddPatternInstance, patternInstance_eq hcalls, bind,
        Except.bind, hadd, pure, Except.pure]

theorem replicated_handleReqDelPatternInstance (hfresh : acquired.Fresh)
    (hsbuf : readMsg.sbuf = [])
    (h : srv.handleReqDelPatternInstance acquired msg = (.ok broadcast, srv')) :
    srv.Replicated srv' readMsg broadcast := by
  rw [handleReqDelPatternInstance] at h
  split at h
  · cases h
  · next pin _ =>
    refine replicated_of_numeric hfresh hsbuf h rfl patternInstanceKeys rfl
      (by decide) (numeric_patternInstanceCalls pin) fun received hcommand hcalls ↦ ?_
    rw [Sequence.processMessageClient_eq hcommand, if_neg (by decide), if_neg (by decide),
      if_neg (by decide), if_pos rfl, Sequence.handleCmdDelPatternInstance,
      patternInstance_eq hcalls]
    rfl

theorem replicated_handleReqAddNote (hfresh : acquired.Fresh) (hsbuf : readMsg.sbuf = [])
    (h : srv.handleReqAddNote acquired msg = (.ok broadcast, srv')) :
    srv.Replicated srv' readMsg broadcast := by
  rw [handleReqAddNote] at h
  split at h
  · cases h
  · cases h
  · next patternId note _ _ =>
    refine replicated_of_numeric hfresh hsbuf h rfl noteKeys rfl (by decide)
      (numeric_noteCalls patternId note) fun received hcommand hcalls ↦ ?_
    rw [Sequence.processMessageClient_eq hcommand, if_neg (by decide), if_neg (by decide),
      if_neg (by decide), if_neg (by decide), if_pos rfl, Sequence.handleCmdAddNote,
      (note_eq hcalls).1, (note_eq hcalls).2]
    rfl

/-- The broadcast of a deleted note asks for fields that it does not have. -/
theorem not_replicated_handleReqDelNote (hfresh : acquired.Fresh) (hsbuf : readMsg.sbuf = [])
    (h : srv.handleReqDelNote acquired msg = (.ok broadcast, srv')) :
    srv.sequence.receiveBroadcast srv.objId readMsg broadcast =
      .error (.noSuchKey (str "start_at")) := by
  rw [handleReqDelNote] at h
  split at h
  · cases h
  · cases h
  · next note patternId _ _ =>
    obtain ⟨rfl, sent, rfl, hset⟩ := sendMessage_ok h
    obtain ⟨received, hreceive, -, hcommand, hcalls, hmissing⟩ := exists_received_numeric hfresh
      hsbuf hset (show PlainCommand (str "cmd_del_ptrn_inst") noteKeys by decide)
      (numeric_noteCalls patternId note)
    have hstart : received.value (str "start_at") = .error (.noSuchKey (str "start_at")) :=
      hmissing (str "start_at")
        (show str "start_at" ∉ str "id" :: str "commandid" :: noteKeys by decide)
    rw [show srv.sequence.receiveBroadcast srv.objId readMsg (some sent) =
        (srv.sequence.processMessageClient received).map (·, received) from hreceive srv.sequence,
      Sequence.processMessageClient_eq hcommand, if_neg (by decide), if_neg (by decide),
      if_neg (by decide), if_pos rfl, Sequence.handleCmdDelPatternInstance,
      Message.patternInstance, (note_eq hcalls).1, intValue, hstart]
    rfl

/-- The values that the command for a new pattern carries. -/
def addPatternCalls (newId : UInt32) (newName : StdString) : List (StdString × StdString) :=
  [patternIdCall newId, (str "name", newName)]

/-- The new name comes out of the message as it went in, and the whole message fits the
count of its header. -/
structure NameTravels (srv : SequenceServer) (newName : StdString) : Prop where
  name_ne : newName ≠ []
  name_nul : 0 ∉ newName
  size : (bodyText ((srv.messageCalls (str "cmd_add_ptrn")
    (addPatternCalls srv.patternIdAllocator.getId.1 newName)).map encodeEntry)).length < 2 ^ 32

private theorem plain_addPattern (newId : UInt32) (newName : StdString) :
    PlainCommand (str "cmd_add_ptrn") ((addPatternCalls newId newName).map Prod.fst) := by
  show PlainCommand (str "cmd_add_ptrn") [str "pattern_id", str "name"]
  decide

/-- The entries of that command in the order of its body. -/
private def addPatternEntries (srv : SequenceServer) (newId : UInt32) (newName : StdString) :
    List (StdString × StdString) :=
  [(str "commandid", str "cmd_add_ptrn"), (str "id", decimalInt srv.objId.toInt),
    (str "name", newName), (str "pattern_id", decimal newId.toNat)].map encodeEntry

private theorem toList_addPattern {hfresh : acquired.Fresh} {newId : UInt32}
    {newName : StdString} {sent : Message}
    {hset : acquired.setValues
      (srv.messageCalls (str "cmd_add_ptrn") (addPatternCalls newId newName)) = .ok sent} :
    (composed hfresh hset).message.key2val.toList = addPatternEntries srv newId newName := by
  have hkeys : (composed hfresh hset).PlainKeys := plainKeys_composed (plain_addPattern _ _)
  rw [Composed.key2val_eq]
  refine Library.toList_insertMany_eq ?_ ?_
  · rw [Library.surviving_of_nodup hkeys.nodup_entries]
    refine List.Perm.map encodeEntry ?_
    exact .trans (.swap _ _ _) (.cons _ (.cons _ (.swap _ _ _)))
  · have hsorted : ([str "commandid", str "id", str "name", str "pattern_id"].map
        Serialize.encodeString).Pairwise (fun a b ↦ compare a b = .lt) := by decide
    exact List.Pairwise.of_map Prod.fst (fun _ _ h ↦ h) hsorted

private theorem decoded_key {call : StdString × StdString} (h : call.1 ≠ [] ∧ 0 ∉ call.1) :
    Serialize.decoded (encodeEntry call).1 = call.1 := by
  rw [encodeEntry, Prod.map_fst, Serialize.decoded_encodeString,
    Serialize.transmitted_eq_self h.1 h.2]

/-- Entries under other keys do not touch a key, however much of them arrives. -/
private theorem getElem?_of_cut (calls : List (StdString × StdString)) (keys : List StdString)
    (k : StdString) (hkeys : calls.map Prod.fst = keys)
    (hplain : ∀ key ∈ keys, (key ≠ [] ∧ 0 ∉ key) ∧ key ≠ k) {n : Nat} {key2val : StringMap}
    {result : StringMap × StdString}
    (h : decodeEntries (getline 61 ((bodyText (calls.map encodeEntry)).take n)) key2val =
      some result) : result.1[k]? = key2val[k]? := by
  subst hkeys
  refine getElem?_decodeEntries_take (fun e he ↦ ?_) (fun e he ↦ ?_) n key2val h
  · obtain ⟨call, hcall, rfl⟩ := List.mem_map.mp he
    have hcall := hplain _ (List.mem_map_of_mem hcall)
    exact Composed.readable_encodeEntry fun hhead ↦ hcall.1.2 (List.mem_of_mem_head? hhead)
  · obtain ⟨call, hcall, rfl⟩ := List.mem_map.mp he
    have hcall := hplain _ (List.mem_map_of_mem hcall)
    rw [decoded_key hcall.1]
    exact hcall.2

/-- When the count does not fit, the client misses the pattern that is meant. -/
private theorem cut_patternId {newId : UInt32} {newName : StdString} {n : Nat}
    {result : StringMap × StdString}
    (hn : n + 2 ^ 32 ≤ (bodyText (addPatternEntries srv newId newName)).length)
    (h : decodeEntries (getline 61 ((bodyText (addPatternEntries srv newId newName)).take n)) ∅ =
      some result) : result.1[str "pattern_id"]? = none := by
  have hsplit : addPatternEntries srv newId newName =
      [(str "commandid", str "cmd_add_ptrn"), (str "id", decimalInt srv.objId.toInt),
        (str "name", newName)].map encodeEntry ++
      [encodeEntry (str "pattern_id", decimal newId.toNat)] := rfl
  have hkey := Serialize.length_encodeString_le (str "pattern_id")
  have hvalue := Serialize.length_encodeString_le (decimal newId.toNat)
  have hnumber := (numeric_decimal newId).2.2
  have hword : (str "pattern_id").length = 10 := by decide
  rw [hsplit, take_bodyText_append] at h
  · exact getElem?_of_cut _ [str "commandid", str "id", str "name"] _ rfl (by decide) h
  · rw [hsplit, bodyText_append, List.length_append, length_bodyText_cons] at hn
    simp only [encodeEntry, Prod.map_fst, Prod.map_snd, bodyText_nil, List.length_nil] at hn ⊢
    omega

/-- If the client sees the object at all, it sees the command too. -/
private theorem cut_commandId {newId : UInt32} {newName : StdString} {n : Nat}
    {result : StringMap × StdString}
    (h : decodeEntries (getline 61 ((bodyText (addPatternEntries srv newId newName)).take n)) ∅ =
      some result) :
    result.1[str "id"]? = none ∨ result.1[str "commandid"]? = some (str "cmd_add_ptrn") := by
  have hsplit : addPatternEntries srv newId newName =
      [encodeEntry (str "commandid", str "cmd_add_ptrn")] ++
      [(str "id", decimalInt srv.objId.toInt), (str "name", newName),
        (str "pattern_id", decimal newId.toNat)].map encodeEntry := rfl
  by_cases hfirst : n ≤ (bodyText [encodeEntry (str "commandid", str "cmd_add_ptrn")]).length
  · left
    rw [hsplit, take_bodyText_append hfirst] at h
    exact getElem?_of_cut [(str "commandid", str "cmd_add_ptrn")] [str "commandid"] _ rfl
      (by decide) h
  · right
    have hreadable : Readable (encodeEntry (str "commandid", str "cmd_add_ptrn")) :=
      Composed.readable_encodeEntry (by decide)
    rw [addPatternEntries, List.map_cons,
      decodeEntries_take_cons hreadable (not_le.mp hfirst).le] at h
    rw [getElem?_of_cut _ [str "id", str "name", str "pattern_id"] _ rfl (by decide) h,
      decoded_key (by decide), Std.ExtTreeMap.getElem?_insert_self]
    decide

private theorem not_received_of_large (hfresh : acquired.Fresh) (hsbuf : readMsg.sbuf = [])
    {newId : UInt32} {newName : StdString} {sent : Message}
    (hset : acquired.setValues
      (srv.messageCalls (str "cmd_add_ptrn") (addPatternCalls newId newName)) = .ok sent)
    (hlarge : 2 ^ 32 ≤ (bodyText ((srv.messageCalls (str "cmd_add_ptrn")
      (addPatternCalls newId newName)).map encodeEntry)).length) (client : Sequence)
    (result : Sequence × Message) :
    client.receiveBroadcast srv.objId readMsg (some sent) ≠ .ok result := by
  set c := composed hfresh hset with hc
  have hkeys : c.PlainKeys := plainKeys_composed (plain_addPattern newId newName)
  have hs : ¬ c.Stale := fun hs ↦ by cases hs.1
  have hbody : c.body = bodyText (addPatternEntries srv newId newName) := by
    rw [Composed.body, hc, toList_addPattern]
  have hlength : (bodyText c.entries).length = c.body.length :=
    Composed.length_entries_eq hkeys.nodup_entries
  have hlarge' : 2 ^ 32 ≤ (bodyText c.entries).length := hlarge
  rw [Sequence.receiveBroadcast]
  split
  · simp
  · next r received rest hread =>
    have hbytes : readMessage readMsg c.bytes = .ok (r, received, rest) := hread
    rw [c.bytes_of_not_stale hs] at hbytes
    obtain ⟨-, hdecode⟩ := of_readMessage_snprintf08x hsbuf hbytes
    rw [hbody] at hdecode
    have hcut : (UInt32.ofNat (bodyText c.entries).length).toNat + 2 ^ 32 ≤
        (bodyText (addPatternEntries srv newId newName)).length := by
      rw [UInt32.toNat_ofNat', ← hbody, ← hlength]
      omega
    have hpattern := value_of_getElem?_none (cut_patternId hcut hdecode)
    have hfails : ∃ e, client.onMessageReceived received srv.objId = .error e := by
      rcases cut_commandId hdecode with hid | hcommand
      · rw [Sequence.onMessageReceived, value_of_getElem?_none hid]
        exact ⟨_, rfl⟩
      · have hhandler : ∃ e, client.processMessageClient received = .error e := by
          rw [Sequence.processMessageClient_eq (value_of_getElem? hcommand), if_pos rfl,
            Sequence.handleCmdAddPattern, uintValue, hpattern]
          cases received.value (str "name") with
          | error e => exact ⟨e, rfl⟩
          | ok name => exact ⟨_, rfl⟩
        exact Sequence.onMessageReceived_of_error hhandler
    obtain ⟨e, hfails⟩ := hfails
    rw [hfails]
    exact fun h ↦ by cases h

/-- A new pattern is replicated exactly when its name travels. -/
theorem replicatedWhen_handleReqAddPattern (hfresh : acquired.Fresh)
    (hsbuf : readMsg.sbuf = []) {newName : StdString}
    (hname : msg.value (str "name") = .ok newName)
    (h : srv.handleReqAddPattern acquired msg = (.ok broadcast, srv')) :
    srv.ReplicatedWhen srv' readMsg broadcast (srv.NameTravels newName) := by
  simp only [handleReqAddPattern, hname] at h
  obtain ⟨rfl, sent, rfl, hset⟩ := sendMessage_ok h
  by_cases hsize : (bodyText ((srv.messageCalls (str "cmd_add_ptrn")
      (addPatternCalls srv.patternIdAllocator.getId.1 newName)).map encodeEntry)).length < 2 ^ 32
  · obtain ⟨received, hreceive, hempty, hvalues, -⟩ := exists_received hfresh hsbuf hset
      (plain_addPattern _ _) hsize
    simp only [messageCalls, patternIdCall, List.forall_mem_cons] at hvalues
    obtain ⟨hid, hcommand, hpattern, hreceived, -⟩ := hvalues
    have hplain (v : StdString) (hv : Numeric v) : Serialize.transmitted v = v :=
      Serialize.transmitted_eq_self hv.1 hv.2.1
    rw [hplain _ (numeric_decimalInt _)] at hid
    rw [hplain _ (numeric_decimal _)] at hpattern
    rw [Serialize.transmitted_eq_self (by decide) (by decide)] at hcommand
    have happly : srv.sequence.receiveBroadcast srv.objId readMsg (some sent) =
        .ok (srv.sequence.processAddPattern (Serialize.transmitted newName)
          srv.patternIdAllocator.getId.1, received) := by
      rw [show srv.sequence.receiveBroadcast srv.objId readMsg (some sent) =
          (srv.sequence.onMessageReceived received srv.objId).map (·, received)
          from hreceive srv.sequence,
        Sequence.onMessageReceived_eq srv.objId_nonneg hid,
        Sequence.processMessageClient_eq hcommand, if_pos rfl, Sequence.handleCmdAddPattern,
        hreceived, uintValue_eq hpattern]
      rfl
    refine ⟨fun htravels ↦ ⟨received, hempty, ?_⟩, fun readMsg' heq ↦ ?_⟩
    · rw [happly, Serialize.transmitted_eq_self htravels.name_ne htravels.name_nul]
    · rw [happly, Except.ok.injEq, Prod.mk.injEq] at heq
      have htransmitted : Serialize.transmitted newName = newName := by
        have := congrArg (fun s : Sequence ↦
          s.patterns[srv.patternIdAllocator.getId.1]?.map Pattern.name) heq.1
        simpa [Sequence.processAddPattern] using this
      obtain ⟨hne, hnul⟩ := Serialize.transmitted_eq_self_iff.mp htransmitted
      exact ⟨hne, hnul, hsize⟩
  · refine ⟨fun htravels ↦ absurd htravels.size hsize, fun readMsg' heq ↦ ?_⟩
    exact absurd heq (not_received_of_large hfresh hsbuf hset (not_lt.mp hsize) _ _)

/-- The requests that are replicated: all but those to delete a note and those for a new
pattern whose name does not travel. -/
structure Replicable (srv : SequenceServer) (msg : Message) : Prop where
  not_del_note : msg.value (str "commandid") ≠ .ok (str "req_del_note")
  name_travels : msg.value (str "commandid") = .ok (str "req_add_ptrn") →
    ∀ newName, msg.value (str "name") = .ok newName → srv.NameTravels newName

private theorem replicable_of_ne {commandId : StdString}
    (hcommand : msg.value (str "commandid") = .ok commandId) (hdel : commandId ≠ str "req_del_note")
    (hadd : commandId ≠ str "req_add_ptrn") : srv.Replicable msg where
  not_del_note := by
    rw [hcommand]
    exact fun h ↦ hdel (Except.ok.inj h)
  name_travels := by
    rw [hcommand]
    exact fun h ↦ absurd (Except.ok.inj h) hadd

/-- A request that the server handles without throwing is replicated exactly when it is
replicable. -/
theorem replicatedWhen_processMessageServer (hfresh : acquired.Fresh)
    (hsbuf : readMsg.sbuf = [])
    (h : srv.processMessageServer acquired msg = (.ok broadcast, srv')) :
    srv.ReplicatedWhen srv' readMsg broadcast (srv.Replicable msg) := by
  have halways {commandId : StdString} (hcommand : msg.value (str "commandid") = .ok commandId)
      (hdel : commandId ≠ str "req_del_note") (hadd : commandId ≠ str "req_add_ptrn")
      (hreplicated : srv.Replicated srv' readMsg broadcast) :
      srv.ReplicatedWhen srv' readMsg broadcast (srv.Replicable msg) :=
    ⟨fun _ ↦ hreplicated, fun _ _ ↦ replicable_of_ne hcommand hdel hadd⟩
  rw [processMessageServer] at h
  split at h
  · cases h
  · next commandId hcommand =>
    split at h
    · next hadd =>
      subst hadd
      cases hname : msg.value (str "name") with
      | error e =>
        rw [handleReqAddPattern, hname] at h
        cases h
      | ok newName =>
        have hwhen := replicatedWhen_handleReqAddPattern hfresh hsbuf hname h
        refine ⟨fun hreplicable ↦ hwhen.replicated (hreplicable.name_travels hcommand _ hname),
          fun readMsg' heq ↦ ⟨?_, fun _ name hname' ↦ ?_⟩⟩
        · rw [hcommand]
          decide
        · rw [hname, Except.ok.injEq] at hname'
          exact hname' ▸ hwhen.of_received readMsg' heq
    · next hadd =>
      split at h
      · next hc =>
        subst hc
        exact halways hcommand (by decide) hadd (replicated_handleReqDelPattern hfresh hsbuf h)
      · split at h
        · next hc =>
          subst hc
          exact halways hcommand (by decide) hadd
            (replicated_handleReqAddPatternInstance hfresh hsbuf h)
        · split at h
          · next hc =>
            subst hc
            exact halways hcommand (by decide) hadd
              (replicated_handleReqDelPatternInstance hfresh hsbuf h)
          · split at h
            · next hc =>
              subst hc
              exact halways hcommand (by decide) hadd
                (replicated_handleReqAddNote hfresh hsbuf h)
            · split at h
              · next hc =>
                subst hc
                refine ⟨fun hreplicable ↦ absurd hcommand hreplicable.not_del_note,
                  fun readMsg' heq ↦ ?_⟩
                rw [not_replicated_handleReqDelNote hfresh hsbuf h] at heq
                cases heq
              · next hdel =>
                cases h
                exact halways hcommand hdel hadd ⟨readMsg, hsbuf, rfl⟩

end SequenceServer

/-! ## Runs -/

/-- A server and a client that is connected to it. -/
structure Replica where
  server : SequenceServer
  client : Sequence
  readMsg : Message

/-- A request, with the message that the server acquires for its broadcast. -/
structure Request where
  msg : Message
  acquired : Message
  fresh : acquired.Fresh

namespace Replica

/-- The server handles a request without throwing, and the client receives the broadcast.
Where the client throws, it keeps its state and loses the connection. -/
def step (s : Replica) (req : Request) : Option (Except Fault Unit × Replica) :=
  match s.server.processMessageServer req.acquired req.msg with
  | (.error _, _) => none
  | (.ok broadcast, server) =>
    match s.client.receiveBroadcast s.server.objId s.readMsg broadcast with
    | .error e => some (.error e, { s with server := server })
    | .ok (client, readMsg) => some (.ok (), ⟨server, client, readMsg⟩)

/-- The two sequences are equal, and the reader is between two messages. -/
structure InStep (s : Replica) : Prop where
  sequence_eq : s.client = s.server.sequence
  sbuf_eq : s.readMsg.sbuf = []

/-- What a step does, in terms of the server and the broadcast. -/
private theorem step_cases {s t : Replica} {req : Request} {r : Except Fault Unit}
    (h : s.step req = some (r, t)) :
    ∃ broadcast,
      s.server.processMessageServer req.acquired req.msg = (.ok broadcast, t.server) ∧
      ((∃ e, r = .error e ∧
          s.client.receiveBroadcast s.server.objId s.readMsg broadcast = .error e) ∨
        r = .ok () ∧ s.client.receiveBroadcast s.server.objId s.readMsg broadcast =
          .ok (t.client, t.readMsg)) := by
  rw [step] at h
  split at h
  · cases h
  · next broadcast server hserver =>
    split at h
    · next e hclient =>
      cases h
      exact ⟨broadcast, hserver, .inl ⟨e, rfl, hclient⟩⟩
    · next client readMsg hclient =>
      cases h
      exact ⟨broadcast, hserver, .inr ⟨rfl, hclient⟩⟩

private theorem inStep_of_step {s t : Replica} {req : Request} {r : Except Fault Unit}
    (hs : s.InStep) (h : s.step req = some (r, t)) (hreq : s.server.Replicable req.msg) :
    r = .ok () ∧ t.InStep := by
  obtain ⟨broadcast, hserver, hclient⟩ := step_cases h
  obtain ⟨readMsg, hempty, hreceive⟩ :=
    (SequenceServer.replicatedWhen_processMessageServer req.fresh hs.sbuf_eq hserver).replicated
      hreq
  rw [hs.sequence_eq, hreceive] at hclient
  rcases hclient with ⟨e, -, heq⟩ | ⟨hr, heq⟩
  · cases heq
  · rw [Except.ok.injEq, Prod.mk.injEq] at heq
    exact ⟨hr, heq.1.symm, heq.2 ▸ hempty⟩

/-- After a request the sequences are equal again exactly when the request is replicable;
after a run of replicable requests they are equal. -/
theorem sequences_replicated {s : Replica} (hs : s.InStep) :
    (∀ (req : Request) (r : Except Fault Unit) (t : Replica), s.step req = some (r, t) →
      (r = .ok () ∧ t.client = t.server.sequence ↔ s.server.Replicable req.msg)) ∧
    ∀ (reqs : List Request) (t : Replica),
      Library.Run step (fun s req _ ↦ s.server.Replicable req.msg) s reqs t →
      t.client = t.server.sequence := by
  constructor
  · intro req r t h
    refine ⟨?_, fun hreq ↦ ?_⟩
    · rintro ⟨hr, heq⟩
      obtain ⟨broadcast, hserver, hclient⟩ := step_cases h
      rcases hclient with ⟨e, he, -⟩ | ⟨-, hreceive⟩
      · rw [hr] at he
        cases he
      · rw [hs.sequence_eq, heq] at hreceive
        exact (SequenceServer.replicatedWhen_processMessageServer req.fresh hs.sbuf_eq
          hserver).of_received _ hreceive
    · obtain ⟨hr, ht⟩ := inStep_of_step hs h hreq
      exact ⟨hr, ht.sequence_eq⟩
  · intro reqs t hrun
    have ht : t.InStep := hrun.invariant InStep
      (fun s req r t hs hreq h ↦ (inStep_of_step hs h hreq).2) hs
    exact ht.sequence_eq

/-- A sequence with one pattern of one note. -/
def oneNote : Sequence where
  patterns := (∅ : Std.ExtTreeMap UInt32 Pattern).insert 0 ⟨0, str "lead", [⟨0, 0, 100, 60, 0, 16⟩]⟩
  instanceList := []

theorem three_nonneg : 0 ≤ (3 : Int32).toInt := by decide

/-- A server and a client with this sequence. -/
def oneNoteReplica : Replica where
  server := ⟨3, three_nonneg, oneNote, ⟨∅, 1⟩⟩
  client := oneNote
  readMsg := newMessage false 0

/-- A request as it arrives at the server. -/
def request (values : List (StdString × StdString)) : Request where
  msg := { newMessage false 0 with key2val := (∅ : StringMap).insertMany values }
  acquired := newMessage true 0
  fresh := fresh_newMessage true 0

/-- The request for a new pattern. -/
def addBass : Request :=
  request [(str "id", str "3"), (str "commandid", str "req_add_ptrn"), (str "name", str "bass")]

/-- The request to delete the note. -/
def deleteNote : Request :=
  request [(str "id", str "3"), (str "commandid", str "req_del_note"), (str "pattern_id", str "0"),
    (str "channel", str "0"), (str "program", str "0"), (str "velocity", str "100"),
    (str "note", str "60"), (str "on_at", str "0"), (str "length", str "16")]

theorem sequences_replicated_addBass :
    ∃ r t, oneNoteReplica.step addBass = some (r, t) ∧
      (r = .ok () ∧ t.client = t.server.sequence) ∧
      Library.Run step (fun s req _ ↦ s.server.Replicable req.msg) oneNoteReplica [addBass] t ∧
      t.client = t.server.sequence := by
  have hs : oneNoteReplica.InStep := ⟨rfl, rfl⟩
  have hreq : oneNoteReplica.server.Replicable addBass.msg := by
    refine ⟨by decide +kernel, fun _ name hname ↦ ?_⟩
    have hbass : addBass.msg.value (str "name") = .ok (str "bass") := by decide +kernel
    rw [hbass, Except.ok.injEq] at hname
    subst hname
    exact ⟨by decide, by decide, by decide +kernel⟩
  have hsome : (oneNoteReplica.step addBass).isSome = true := by decide +kernel
  obtain ⟨⟨r, t⟩, hstep⟩ := Option.isSome_iff_exists.mp hsome
  have hrun : Library.Run step (fun s req _ ↦ s.server.Replicable req.msg) oneNoteReplica
      [addBass] t := .cons hstep hreq (.nil t)
  exact ⟨r, t, hstep, ((sequences_replicated hs).1 _ _ _ hstep).mpr hreq, hrun,
    (sequences_replicated hs).2 _ _ hrun⟩

/-- The server has dropped the note; the client throws over the missing `start_at` and
keeps it. -/
theorem deleteNote_not_replicated :
    oneNoteReplica.InStep ∧ ∃ r t, oneNoteReplica.step deleteNote = some (r, t) ∧
      r = .error (.noSuchKey (str "start_at")) ∧ t.client ≠ t.server.sequence := by
  refine ⟨⟨rfl, rfl⟩, ?_⟩
  have hsome : (oneNoteReplica.step deleteNote).isSome = true := by decide +kernel
  obtain ⟨⟨r, t⟩, hstep⟩ := Option.isSome_iff_exists.mp hsome
  have hr : (oneNoteReplica.step deleteNote).map (fun result ↦ result.1) =
      some (.error (.noSuchKey (str "start_at"))) := by decide +kernel
  have hnotes : (oneNoteReplica.step deleteNote).map (fun result ↦
      (result.2.client.patterns[(0 : UInt32)]?.map (fun p ↦ p.noteList.length),
        result.2.server.sequence.patterns[(0 : UInt32)]?.map (fun p ↦ p.noteList.length))) =
      some (some 1, some 0) := by decide +kernel
  rw [hstep] at hr hnotes
  refine ⟨r, t, hstep, Option.some.inj hr, fun heq ↦ ?_⟩
  rw [Option.map_some, heq, Option.some.injEq, Prod.mk.injEq] at hnotes
  exact absurd (hnotes.1.symm.trans hnotes.2) (by decide)

end Replica

end Vuknob
