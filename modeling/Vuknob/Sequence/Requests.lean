import Vuknob.Remote.Shortcut
import Vuknob.Sequence.Replication

/-!
# Requests of a client

The calls by which a client asks for changes of a sequence, `src_jni/engine_code/sequence.cc:447–579`,
`Server::route_incomming_message`, `src_jni/engine_code/server.cc:393–409`, and what the handlers
read from a request. All of them name the pattern by the key `id`, which is that of the object, and
the handlers look for it under `pattern_id`.
-/

namespace Vuknob

open Message

/-- The calls of a client that name a pattern, with their arguments. -/
inductive SequenceRequest
  | deletePattern (patternId : UInt32)
  | insertPatternInSequence (pin : PatternInstance)
  | deletePatternFromSequence (pin : PatternInstance)
  | addNote (patternId : UInt32) (note : Note)
  | deleteNote (patternId : UInt32) (note : Note)
  deriving DecidableEq

/-- The values that a request carries for a pattern instance. -/
def instanceFields (pin : PatternInstance) : List (StdString × StdString) :=
  [(str "start_at", decimalInt pin.startAt.toInt),
    (str "loop_length", decimalInt pin.loopLength.toInt),
    (str "stop_at", decimalInt pin.stopAt.toInt)]

/-- The values that a request carries for a note. -/
def noteFields (note : Note) : List (StdString × StdString) :=
  [(str "channel", decimalInt note.channel.toInt),
    (str "program", decimalInt note.program.toInt),
    (str "velocity", decimalInt note.velocity.toInt),
    (str "note", decimalInt note.note.toInt),
    (str "on_at", decimalInt note.onAt.toInt),
    (str "length", decimalInt note.length.toInt)]

namespace SequenceRequest

/-- The command of the request, `src_jni/engine_code/sequence.hh:216–221`. -/
def commandId : SequenceRequest → StdString
  | deletePattern _ => str "req_del_ptrn"
  | insertPatternInSequence _ => str "req_add_ptrn_inst"
  | deletePatternFromSequence _ => str "req_del_ptrn_inst"
  | addNote _ _ => str "req_add_note"
  | deleteNote _ _ => str "req_del_note"

/-- The pattern that the request is about. -/
def patternId : SequenceRequest → UInt32
  | deletePattern patternId => patternId
  | insertPatternInSequence pin => pin.patternId
  | deletePatternFromSequence pin => pin.patternId
  | addNote patternId _ => patternId
  | deleteNote patternId _ => patternId

/-- The values that the request sets, `src_jni/engine_code/sequence.cc:466–575`. -/
def values : SequenceRequest → List (StdString × StdString)
  | deletePattern patternId => [(str "id", decimal patternId.toNat)]
  | insertPatternInSequence pin => (str "id", decimal pin.patternId.toNat) :: instanceFields pin
  | deletePatternFromSequence pin => (str "id", decimal pin.patternId.toNat) :: instanceFields pin
  | addNote patternId note => (str "id", decimal patternId.toNat) :: noteFields note
  | deleteNote patternId note => (str "id", decimal patternId.toNat) :: noteFields note

/-- The arguments that the handler of the command reads, `src_jni/engine_code/sequence.cc:61–249`,
in its order; none for other commands. -/
def decode (msg : Message) : Except Fault (Option SequenceRequest) := do
  let commandId ← msg.value (str "commandid")
  if commandId = str "req_del_ptrn" then
    return some (.deletePattern (← msg.uintValue (str "pattern_id")))
  else if commandId = str "req_add_ptrn_inst" then
    return some (.insertPatternInSequence (← msg.patternInstance))
  else if commandId = str "req_del_ptrn_inst" then
    return some (.deletePatternFromSequence (← msg.patternInstance))
  else if commandId = str "req_add_note" then
    let patternId ← msg.uintValue (str "pattern_id")
    return some (.addNote patternId (← msg.note))
  else if commandId = str "req_del_note" then
    let note ← msg.note
    return some (.deleteNote (← msg.uintValue (str "pattern_id")) note)
  else return none

end SequenceRequest

/-! ## Routing -/

/-- What the server does with a message. -/
inductive Routed
  | deleteObject (objId : Int32)
  | processMessage (objId : Int32)
  deriving DecidableEq

/-- An exception of `route_incomming_message` itself. -/
inductive RoutingFault
  | fault (e : Fault)
  | noSuchObject
  deriving DecidableEq

/-- `__MSG_DELETE_OBJECT`, `src_jni/remote_interface.hh:136`. -/
def msgDeleteObject : Int32 := -3

/-- `std::stol(msg.get_value(key))` kept in an `int`. -/
def Message.identifier (msg : Message) (key : StdString) : Except RoutingFault Int32 :=
  match msg.value key with
  | .error e => .error (.fault e)
  | .ok text =>
    match stol text with
    | .error e => .error (.fault (.ofConversion e))
    | .ok identifier => .ok (Int32.ofInt identifier.toInt)

/-- `route_incomming_message`, `src_jni/engine_code/server.cc:393–409`. -/
def routeIncommingMessage {Object : Type} (allObjects : Std.ExtTreeMap Int32 Object)
    (msg : Message) : Except RoutingFault (Routed × Object) := do
  let identifier ← msg.identifier (str "id")
  if identifier = msgDeleteObject then
    let identifier ← msg.identifier (str "objid")
    match allObjects[identifier]? with
    | none => throw .noSuchObject
    | some object => return (.deleteObject identifier, object)
  else
    match allObjects[identifier]? with
    | none => throw .noSuchObject
    | some object => return (.processMessage identifier, object)

/-! ## What a request holds when it arrives -/

namespace SequenceRequest

variable {request : SequenceRequest} {objId : Int32} {msg : Message}

/-- The values of the request beside the pattern. -/
def fields : SequenceRequest → List (StdString × StdString)
  | deletePattern _ => []
  | insertPatternInSequence pin => instanceFields pin
  | deletePatternFromSequence pin => instanceFields pin
  | addNote _ note => noteFields note
  | deleteNote _ note => noteFields note

private theorem values_eq (request : SequenceRequest) :
    request.values = (str "id", decimal request.patternId.toNat) :: request.fields := by
  cases request <;> rfl

/-- The keys of a request are a few distinct short words without separators. -/
private theorem plain_keys (request : SequenceRequest) :
    (str "commandid" :: str "id" :: request.fields.map Prod.fst).Nodup ∧
      request.fields.length ≤ 6 ∧ (request.commandId ≠ [] ∧ 0 ∉ request.commandId) ∧
      request.commandId.length ≤ 20 ∧ (59 ∉ request.commandId ∧ 61 ∉ request.commandId) ∧
      str "pattern_id" ∉ request.fields.map Prod.fst ∧
      ∀ key ∈ request.fields.map Prod.fst,
        key ≠ [] ∧ 0 ∉ key ∧ key.length ≤ 16 ∧ 59 ∉ key ∧ 61 ∉ key := by
  cases request with
  | deletePattern => simp only [fields, commandId, List.map_nil, List.length_nil]; decide
  | insertPatternInSequence | deletePatternFromSequence =>
    simp only [fields, instanceFields, commandId, List.map_cons, List.map_nil, List.length_cons,
      List.length_nil]
    decide
  | addNote | deleteNote =>
    simp only [fields, noteFields, commandId, List.map_cons, List.map_nil, List.length_cons,
      List.length_nil]
    decide

private theorem commandId_ne (request : SequenceRequest) : request.commandId ≠ str "req_add_ptrn" := by
  cases request <;> rw [commandId] <;> decide

/-- The values of a request are numbers. -/
private theorem number_of_mem_values {call : StdString × StdString} (h : call ∈ request.values) :
    Numeric call.2 ∧ ∃ n, call.2 = decimalInt n := by
  have hid (n : UInt32) : Numeric (decimal n.toNat) ∧ ∃ v, decimal n.toNat = decimalInt v :=
    ⟨numeric_decimal n, n.toNat, rfl⟩
  have hnumber (n : Int32) : Numeric (decimalInt n.toInt) ∧ ∃ v, decimalInt n.toInt = decimalInt v :=
    ⟨numeric_decimalInt n, n.toInt, rfl⟩
  revert call
  cases request with
  | deletePattern => simp only [values, List.forall_mem_cons]; exact ⟨hid _, by simp⟩
  | insertPatternInSequence | deletePatternFromSequence =>
    simp only [values, instanceFields, List.forall_mem_cons]
    exact ⟨hid _, hnumber _, hnumber _, hnumber _, by simp⟩
  | addNote | deleteNote =>
    simp only [values, noteFields, List.forall_mem_cons]
    exact ⟨hid _, hnumber _, hnumber _, hnumber _, hnumber _, hnumber _, hnumber _, by simp⟩

private theorem key_of_mem_values {call : StdString × StdString} (h : call ∈ request.values) :
    call.1 ≠ [] ∧ 0 ∉ call.1 ∧ call.1.length ≤ 16 ∧ 59 ∉ call.1 ∧ 61 ∉ call.1 := by
  rw [values_eq, List.mem_cons] at h
  rcases h with rfl | h
  · have hid : str "id" ≠ [] ∧ 0 ∉ str "id" ∧ (str "id").length ≤ 16 ∧ 59 ∉ str "id" ∧
        61 ∉ str "id" := by decide
    exact hid
  · exact (plain_keys request).2.2.2.2.2.2 _ (List.mem_map_of_mem h)

/-- The call of `send_message_to_server` that a client makes on the object. -/
def serverCall (request : SequenceRequest) (objId : Int32) : ServerCall where
  objId := objId
  commandId := request.commandId
  commandId_accepted := (plain_keys request).2.2.2.2.1
  values := ⟨request.values, by
    rintro ⟨key, value⟩ h
    obtain ⟨-, n, rfl⟩ := number_of_mem_values h
    obtain ⟨-, -, -, hkey⟩ := key_of_mem_values h
    exact acceptable_decimalInt hkey n⟩

private theorem calls_eq (request : SequenceRequest) (objId : Int32) :
    (request.serverCall objId).calls = (str "id", decimalInt objId.toInt) ::
      (str "commandid", request.commandId) :: request.values := rfl

private theorem transmitted_calls {call : StdString × StdString}
    (h : call ∈ (request.serverCall objId).calls) :
    (call.1 ≠ [] ∧ 0 ∉ call.1) ∧ call.2 ≠ [] ∧ 0 ∉ call.2 := by
  have hwords : (str "id" ≠ [] ∧ 0 ∉ str "id") ∧ str "commandid" ≠ [] ∧ 0 ∉ str "commandid" := by
    decide
  rw [calls_eq, List.mem_cons, List.mem_cons] at h
  rcases h with rfl | rfl | h
  · exact ⟨hwords.1, (numeric_decimalInt objId).1, (numeric_decimalInt objId).2.1⟩
  · exact ⟨hwords.2, (plain_keys request).2.2.1⟩
  · obtain ⟨hnil, hzero, -⟩ := key_of_mem_values h
    obtain ⟨⟨hvalue, hvalue', -⟩, -⟩ := number_of_mem_values h
    exact ⟨⟨hnil, hzero⟩, hvalue, hvalue'⟩

/-- Of the two values for `id` the one for the pattern is left. -/
private theorem surviving_calls (request : SequenceRequest) (objId : Int32) :
    Library.surviving (request.serverCall objId).calls =
      (str "commandid", request.commandId) :: request.values := by
  have hnodup : (((str "commandid", request.commandId) :: request.values).map Prod.fst).Nodup := by
    rw [values_eq]
    exact (plain_keys request).1
  rw [calls_eq, Library.surviving, if_pos, Library.surviving_of_nodup hnodup]
  rw [values_eq]
  simp

/-- What an arrived request holds. -/
private theorem getElem?_travelled (key value : StdString) :
    (travelled (request.serverCall objId).calls)[key]? = some value ↔
      (key, value) ∈ (str "commandid", request.commandId) :: request.values := by
  have hmap : (request.serverCall objId).calls.map
      (Prod.map Serialize.transmitted Serialize.transmitted) = (request.serverCall objId).calls := by
    refine (List.map_congr_left fun call hcall ↦ ?_).trans (List.map_id _)
    obtain ⟨⟨hk, hk₀⟩, hv, hv₀⟩ := transmitted_calls hcall
    rw [Prod.map, Serialize.transmitted_eq_self hk hk₀, Serialize.transmitted_eq_self hv hv₀, id]
  rw [travelled, hmap, Library.getElem?_insertMany_eq_some_iff, surviving_calls]
  simp only [Std.ExtTreeMap.getElem?_empty, reduceCtorEq, and_false, or_false]

/-! ## What the handlers make of it -/

theorem decode_eq {commandId : StdString} (h : msg.value (str "commandid") = .ok commandId) :
    decode msg =
      if commandId = str "req_del_ptrn" then
        (msg.uintValue (str "pattern_id")).map fun patternId ↦ some (.deletePattern patternId)
      else if commandId = str "req_add_ptrn_inst" then
        msg.patternInstance.map fun pin ↦ some (.insertPatternInSequence pin)
      else if commandId = str "req_del_ptrn_inst" then
        msg.patternInstance.map fun pin ↦ some (.deletePatternFromSequence pin)
      else if commandId = str "req_add_note" then
        (msg.uintValue (str "pattern_id")).bind fun patternId ↦
          msg.note.map fun note ↦ some (.addNote patternId note)
      else if commandId = str "req_del_note" then
        msg.note.bind fun note ↦
          (msg.uintValue (str "pattern_id")).map fun patternId ↦ some (.deleteNote patternId note)
      else .ok none := by
  rw [decode, h]
  rfl

private theorem map_eq_error {α β : Type} {x : Except Fault α} {f : α → β} {e : Fault}
    (h : x.map f = .error e) : x = .error e := by
  cases x with
  | error e' => exact congrArg Except.error (Except.error.inj h)
  | ok a => cases h

/-- A handler that cannot read its arguments throws and changes nothing. -/
theorem processMessageServer_of_decode {e : Fault} (h : decode msg = .error e)
    (srv : SequenceServer) (acquired : Message)
    (hother : msg.value (str "commandid") ≠ .ok (str "req_add_ptrn")) :
    srv.processMessageServer acquired msg = (.error e, srv) := by
  cases hcommand : msg.value (str "commandid") with
  | error e' =>
    rw [decode, hcommand] at h
    rw [SequenceServer.processMessageServer, hcommand]
    obtain rfl := Except.error.inj h
    rfl
  | ok commandId =>
    rw [decode_eq hcommand] at h
    rw [hcommand] at hother
    rw [SequenceServer.processMessageServer, hcommand]
    simp only [if_neg fun heq : commandId = str "req_add_ptrn" ↦ hother (by rw [heq])]
    split_ifs at h ⊢
    · rw [SequenceServer.handleReqDelPattern, map_eq_error h]
    · rw [SequenceServer.handleReqAddPatternInstance, map_eq_error h]
    · rw [SequenceServer.handleReqDelPatternInstance, map_eq_error h]
    · rw [SequenceServer.handleReqAddNote]
      cases hid : msg.uintValue (str "pattern_id") with
      | error e' =>
        rw [hid] at h
        obtain rfl := Except.error.inj h
        rfl
      | ok patternId =>
        rw [hid] at h
        rw [map_eq_error h]
    · rw [SequenceServer.handleReqDelNote]
      cases hnote : msg.note with
      | error e' =>
        rw [hnote] at h
        obtain rfl := Except.error.inj h
        rfl
      | ok note =>
        rw [hnote] at h
        rw [map_eq_error h]

private theorem note_of_fields {note : Note} (h : Holds msg (noteFields note)) :
    msg.note = .ok note := by
  simp only [Holds, noteFields, List.forall_mem_cons] at h
  obtain ⟨h₁, h₂, h₃, h₄, h₅, h₆, -⟩ := h
  rw [Message.note, intValue_eq h₁, intValue_eq h₂, intValue_eq h₃, intValue_eq h₄, intValue_eq h₅,
    intValue_eq h₆]
  rfl

section Arrived

variable (hmsg : msg.key2val = travelled (request.serverCall objId).calls)
include hmsg

private theorem value_of_mem {key value : StdString}
    (h : (key, value) ∈ (str "commandid", request.commandId) :: request.values) :
    msg.value key = .ok value := by
  apply value_of_getElem?
  rw [hmsg, getElem?_travelled]
  exact h

/-- The identity that routes the message is that of the pattern. -/
theorem identifier_eq : msg.identifier (str "id") = .ok (Int32.ofInt request.patternId.toNat) := by
  have hid : msg.value (str "id") = .ok (decimal request.patternId.toNat) := by
    apply value_of_mem hmsg
    rw [values_eq]
    exact List.mem_cons_of_mem _ List.mem_cons_self
  have hlt := request.patternId.toNat_lt
  have hlong : (Int64.ofInt request.patternId.toNat).toInt = request.patternId.toNat :=
    Int64.toInt_ofInt_of_le (by omega) (by omega)
  simp only [Message.identifier, hid, stol_decimal, hlong]

private theorem value_patternId :
    msg.value (str "pattern_id") = .error (.noSuchKey (str "pattern_id")) := by
  have hnone : msg.key2val[str "pattern_id"]? = none := by
    rw [Option.eq_none_iff_forall_ne_some, hmsg]
    intro value hvalue
    rw [getElem?_travelled, values_eq, List.mem_cons, List.mem_cons] at hvalue
    have hcommand : str "pattern_id" ≠ str "commandid" := by decide
    have hid : str "pattern_id" ≠ str "id" := by decide
    rcases hvalue with hvalue | hvalue | hvalue
    · exact hcommand (congrArg Prod.fst hvalue)
    · exact hid (congrArg Prod.fst hvalue)
    · exact (plain_keys request).2.2.2.2.2.1 (List.mem_map_of_mem hvalue)
  exact value_of_getElem?_none hnone

/-- No handler finds the pattern. -/
theorem decode_eq_error : decode msg = .error (.noSuchKey (str "pattern_id")) := by
  have hcommand : msg.value (str "commandid") = .ok request.commandId :=
    value_of_mem hmsg List.mem_cons_self
  have hid : msg.uintValue (str "pattern_id") = .error (.noSuchKey (str "pattern_id")) := by
    rw [uintValue, value_patternId hmsg]
    rfl
  have hpin : msg.patternInstance = .error (.noSuchKey (str "pattern_id")) := by
    rw [Message.patternInstance, hid]
    rfl
  rw [decode_eq hcommand]
  cases request with
  | deletePattern =>
    rw [commandId, if_pos rfl, hid]
    rfl
  | insertPatternInSequence =>
    rw [commandId, if_neg (by decide), if_pos rfl, hpin]
    rfl
  | deletePatternFromSequence =>
    rw [commandId, if_neg (by decide), if_neg (by decide), if_pos rfl, hpin]
    rfl
  | addNote =>
    rw [commandId, if_neg (by decide), if_neg (by decide), if_neg (by decide), if_pos rfl, hid]
    rfl
  | deleteNote patternId note =>
    have hnote : msg.note = .ok note := note_of_fields fun call hcall ↦
      value_of_mem hmsg (List.mem_cons_of_mem _ (List.mem_cons_of_mem _ hcall))
    rw [commandId, if_neg (by decide), if_neg (by decide), if_neg (by decide), if_neg (by decide),
      if_pos rfl, hnote, Except.bind, hid]
    rfl

/-- The message goes to the object that has the identity of the pattern. -/
theorem routeIncommingMessage_iff {Object : Type} (allObjects : Std.ExtTreeMap Int32 Object)
    (target : Int32) (object : Object) :
    routeIncommingMessage allObjects msg = .ok (.processMessage target, object) ↔
      Int32.ofInt request.patternId.toNat = target ∧ target ≠ msgDeleteObject ∧
        allObjects[target]? = some object := by
  rw [routeIncommingMessage, identifier_eq hmsg]
  show (if Int32.ofInt request.patternId.toNat = msgDeleteObject then _ else _) = _ ↔ _
  split
  · next hdelete =>
    refine iff_of_false ?_ fun h ↦ h.2.1 (h.1.symm.trans hdelete)
    cases hobjid : msg.identifier (str "objid") with
    | error e => intro h; cases h
    | ok identifier =>
      cases hobject : allObjects[identifier]? with
      | none =>
        simp only [bind, Except.bind, hobject]
        intro h
        cases h
      | some object' =>
        simp only [bind, Except.bind, hobject]
        intro h
        cases h
  · next hdelete =>
    constructor
    · intro h
      cases hobject : allObjects[Int32.ofInt request.patternId.toNat]? with
      | none => simp only [hobject] at h; cases h
      | some object' =>
        simp only [hobject] at h
        obtain ⟨hobj, rfl⟩ := Prod.mk.inj (Except.ok.inj h)
        obtain rfl := Routed.processMessage.inj hobj
        exact ⟨rfl, hdelete, hobject⟩
    · rintro ⟨rfl, -, hobject⟩
      simp only [hobject]
      rfl

end Arrived

/-! ## Never served -/

private theorem length_calls (request : SequenceRequest) (objId : Int32) :
    (bodyText ((request.serverCall objId).calls.map encodeEntry)).length < 2 ^ 32 := by
  have hshort : ∀ call ∈ (request.serverCall objId).calls,
      call.1.length ≤ 16 ∧ call.2.length ≤ 20 := by
    rw [calls_eq, List.forall_mem_cons, List.forall_mem_cons]
    have hwords : (str "id").length ≤ 16 ∧ (str "commandid").length ≤ 16 := by decide
    refine ⟨⟨hwords.1, Nat.le_trans (length_decimalInt_le objId) (by decide)⟩,
      ⟨hwords.2, (plain_keys request).2.2.2.1⟩, fun call hcall ↦ ?_⟩
    have hvalue := (number_of_mem_values hcall).1.2.2
    exact ⟨(key_of_mem_values hcall).2.2.1, by omega⟩
  have hfew := (plain_keys request).2.1
  refine length_bodyText_encodeEntry_lt hshort ?_
  simp only [calls_eq, values_eq, List.length_cons]
  omega

/-- The header counts the overwritten identity, so that the reader waits for more. -/
private theorem readMessage_waiting {c : Composed} (hcalls : c.calls = (request.serverCall objId).calls)
    {readMsg : Message} (hsbuf : readMsg.sbuf = []) :
    readMessage readMsg c.bytes = .error .waiting := by
  have hstale : ¬ c.Stale := by
    rintro ⟨hnil, -⟩
    rw [hcalls] at hnil
    cases hnil
  have hsize : (bodyText c.entries).length < 2 ^ 32 := by
    rw [Composed.entries, hcalls]
    exact length_calls request objId
  have hover : 0 < (bodyText (Library.overwritten c.entries)).length := by
    rw [Composed.entries, hcalls, calls_eq, values_eq, List.map_cons, Library.overwritten, if_pos]
    · rw [length_bodyText_cons]
      omega
    · simp [encodeEntry]
  rw [c.bytes_of_not_stale hstale]
  apply readMessage_snprintf08x_of_lt hsbuf
  rw [UInt32.toNat_ofNat_of_lt' hsize, c.length_bodyText_entries]
  omega

end SequenceRequest

/-- The server routes the message to the object, and its handler reads the arguments of the
call. -/
def Served {Object : Type} (allObjects : Std.ExtTreeMap Int32 Object) (objId : Int32)
    (request : SequenceRequest) (msg : Message) : Prop :=
  (∃ object, routeIncommingMessage allObjects msg = .ok (.processMessage objId, object)) ∧
    SequenceRequest.decode msg = .ok (some request)

/-- No request that names a pattern is served: the handler of every sequence throws, the message
goes to the object that has the identity of the pattern, and the reader of the server waits for
more than was sent. -/
theorem request_never_served {Object : Type} (allObjects : Std.ExtTreeMap Int32 Object)
    (objId : Int32) (request : SequenceRequest) (acquired : AcquiredMessage) (reader : Message) :
    ∃ sent msg, (request.serverCall objId).request acquired false = .ok sent ∧
      sent.arrived = some msg ∧ ¬ Served allObjects objId request msg ∧
      (∀ (srv : SequenceServer) (reply : Message), srv.processMessageServer reply msg =
        (.error (.noSuchKey (str "pattern_id")), srv)) ∧
      (∀ object, routeIncommingMessage allObjects msg = .ok (.processMessage objId, object) ↔
        Int32.ofInt request.patternId.toNat = objId ∧ objId ≠ msgDeleteObject ∧
          allObjects[objId]? = some object) ∧
      readMessage { reader with sbuf := [] } sent.encode.sbuf = .error .waiting := by
  obtain ⟨c, hcalls, hrequest, -⟩ := ServerCall.exists_request (request.serverCall objId) acquired false
  have hkeys : ∀ call ∈ c.calls, call.1.head? ≠ some 0 := by
    intro call hcall hhead
    rw [hcalls] at hcall
    exact (SequenceRequest.transmitted_calls hcall).1.2 (List.mem_of_mem_head? hhead)
  obtain ⟨msg, harrived, hmsg⟩ := Composed.arrived_of_keys hkeys
  rw [hcalls] at hmsg
  have hdecode := SequenceRequest.decode_eq_error hmsg
  have hcommand : msg.value (str "commandid") ≠ .ok (str "req_add_ptrn") := by
    rw [SequenceRequest.value_of_mem hmsg List.mem_cons_self]
    exact fun h ↦ request.commandId_ne (Except.ok.inj h)
  refine ⟨c.message, msg, hrequest, harrived, fun hserved ↦ ?_, fun srv reply ↦ ?_, fun object ↦ ?_, ?_⟩
  · cases hdecode.symm.trans hserved.2
  · exact SequenceRequest.processMessageServer_of_decode hdecode srv reply hcommand
  · exact SequenceRequest.routeIncommingMessage_iff hmsg allObjects objId object
  · exact SequenceRequest.readMessage_waiting hcalls rfl

/-- `delete_pattern(1)` on the sequence with the identity 3 goes to the object with the identity 1,
which finds no pattern in it. -/
theorem deletePattern_misrouted :
    ∃ sent msg, ((SequenceRequest.deletePattern 1).serverCall 3).request (newMessage false 0) false =
        .ok sent ∧ sent.arrived = some msg ∧
      routeIncommingMessage ((∅ : Std.ExtTreeMap Int32 StdString).insertMany
        [(1, str "Scales"), (3, str "Sequence")]) msg = .ok (.processMessage 1, str "Scales") ∧
      SequenceRequest.decode msg = .error (.noSuchKey (str "pattern_id")) := by
  obtain ⟨c, hcalls, hrequest, -⟩ := ServerCall.exists_request
    ((SequenceRequest.deletePattern 1).serverCall 3) ⟨_, fresh_newMessage false 0⟩ false
  have hkeys : ∀ call ∈ c.calls, call.1.head? ≠ some 0 := by
    rw [hcalls]
    decide +kernel
  obtain ⟨msg, harrived, hmsg⟩ := Composed.arrived_of_keys hkeys
  rw [hcalls] at hmsg
  refine ⟨c.message, msg, hrequest, harrived, ?_, SequenceRequest.decode_eq_error hmsg⟩
  rw [SequenceRequest.routeIncommingMessage_iff hmsg]
  decide +kernel

end Vuknob
