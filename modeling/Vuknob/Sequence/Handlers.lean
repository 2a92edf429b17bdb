import Vuknob.Remote.Framing
import Vuknob.Sequence.State

/-!
# Requests and commands of a sequence

The server's handlers of requests, `src_jni/engine_code/sequence.cc:39–249`, and the client's
handlers of commands, `src_jni/engine_code/sequence.cc:367–445`, with the dispatch of
`SimpleBaseObject`, `src_jni/remote_interface.cc:722–738`. A handler may throw after it has
changed the state, so it returns both. Machine operations are carried out before
`machine_operation_enqueue` returns.
-/

namespace Vuknob

open Message

/-- Why a message has no effect on a sequence: an exception, an undefined operation, a
message that does not arrive or one for somebody else. -/
inductive Fault
  | noSuchKey (keyname : StdString)
  | illegalChar
  | invalidArgument
  | outOfRange
  | idFreedTwice
  | undefined
  | incomplete
  | otherRecipient
  deriving DecidableEq

namespace Fault

/-- The exceptions of class `Message`. -/
def ofMessage : Message.Error → Fault
  | .illegalChar => .illegalChar
  | .noSuchKey keyname => .noSuchKey keyname

/-- The exceptions of the conversions. -/
def ofConversion : ConversionError → Fault
  | .invalidArgument => .invalidArgument
  | .outOfRange => .outOfRange

/-- The ways in which a message is not read. -/
def ofReadStop : ReadStop → Fault
  | .waiting => .incomplete
  | .undefined => .undefined

end Fault

namespace Message

/-- `msg.get_value(key)` in a handler. -/
def value (msg : Message) (key : StdString) : Except Fault StdString :=
  (msg.getValue key).mapError Fault.ofMessage

/-- `std::stoi(msg.get_value(key))`. -/
def intValue (msg : Message) (key : StdString) : Except Fault Int32 := do
  (stoi (← msg.value key)).mapError Fault.ofConversion

/-- `std::stoul(msg.get_value(key))` kept in a `uint32_t`. -/
def uintValue (msg : Message) (key : StdString) : Except Fault UInt32 := do
  let value ← (stoul (← msg.value key)).mapError Fault.ofConversion
  return UInt32.ofNat value.toNat

/-- The fields of a pattern instance in a message. -/
def patternInstance (msg : Message) : Except Fault PatternInstance := do
  return {
    patternId := ← msg.uintValue (str "pattern_id")
    startAt := ← msg.intValue (str "start_at")
    loopLength := ← msg.intValue (str "loop_length")
    stopAt := ← msg.intValue (str "stop_at") }

/-- The fields of a note in a message. -/
def note (msg : Message) : Except Fault Note := do
  return {
    channel := ← msg.intValue (str "channel")
    program := ← msg.intValue (str "program")
    velocity := ← msg.intValue (str "velocity")
    note := ← msg.intValue (str "note")
    onAt := ← msg.intValue (str "on_at")
    length := ← msg.intValue (str "length") }

end Message

/-- The values that say which pattern is meant. -/
def patternIdCall (patternId : UInt32) : StdString × StdString :=
  (str "pattern_id", decimal patternId.toNat)

/-- The values that a command carries for a pattern instance. -/
def patternInstanceCalls (pin : PatternInstance) : List (StdString × StdString) :=
  [patternIdCall pin.patternId,
    (str "start_at", decimalInt pin.startAt.toInt),
    (str "loop_length", decimalInt pin.loopLength.toInt),
    (str "stop_at", decimalInt pin.stopAt.toInt)]

/-- The values that a command carries for a note. -/
def noteCalls (patternId : UInt32) (note : Note) : List (StdString × StdString) :=
  [patternIdCall patternId,
    (str "channel", decimalInt note.channel.toInt),
    (str "program", decimalInt note.program.toInt),
    (str "velocity", decimalInt note.velocity.toInt),
    (str "note", decimalInt note.note.toInt),
    (str "on_at", decimalInt note.onAt.toInt),
    (str "length", decimalInt note.length.toInt)]

/-! ## The server -/

/-- A sequence on the server with its object identity, which `reserve_new_obj_id` does not
let become negative, and the static `pattern_id_allocator`,
`src_jni/engine_code/sequence.cc:37`. -/
structure SequenceServer where
  objId : Int32
  objId_nonneg : 0 ≤ objId.toInt
  sequence : Sequence
  patternIdAllocator : IDAllocator

/-- What a handler returns or throws, with the state it leaves: a message when it
broadcasts one. -/
abbrev Handled := Except Fault (Option Message) × SequenceServer

namespace SequenceServer

/-- All calls of `set_value` on a message to the clients, `src_jni/remote_interface.cc:453–480`
and `src_jni/remote_interface.cc:681–691`. -/
def messageCalls (srv : SequenceServer) (commandId : StdString)
    (calls : List (StdString × StdString)) : List (StdString × StdString) :=
  (str "id", decimalInt srv.objId.toInt) :: (str "commandid", commandId) :: calls

/-- `send_message` with the message that `acquire_message` returns. -/
def sendMessage (srv : SequenceServer) (acquired : Message) (commandId : StdString)
    (calls : List (StdString × StdString)) : Handled :=
  match acquired.setValues (srv.messageCalls commandId calls) with
  | .error e => (.error (Fault.ofMessage e), srv)
  | .ok msg => (.ok (some msg), srv)

variable (srv : SequenceServer) (acquired msg : Message)

/-- `handle_req_add_pattern`, `src_jni/engine_code/sequence.cc:39–59`. -/
def handleReqAddPattern : Handled :=
  match msg.value (str "name") with
  | .error e => (.error e, srv)
  | .ok newName =>
    let (newId, allocator) := srv.patternIdAllocator.getId
    { srv with
      sequence := srv.sequence.processAddPattern newName newId
      patternIdAllocator := allocator }.sendMessage acquired (str "cmd_add_ptrn")
      [patternIdCall newId, (str "name", newName)]

/-- `handle_req_del_pattern`, `src_jni/engine_code/sequence.cc:61–83`. -/
def handleReqDelPattern : Handled :=
  match msg.uintValue (str "pattern_id") with
  | .error e => (.error e, srv)
  | .ok patternId =>
    match srv.sequence.processDelPattern patternId with
    | (false, _) => (.ok none, srv)
    | (true, sequence) =>
      match srv.patternIdAllocator.freeId patternId with
      | none => (.error .idFreedTwice, { srv with sequence := sequence })
      | some allocator =>
        { srv with sequence := sequence, patternIdAllocator := allocator }.sendMessage acquired
          (str "cmd_del_ptrn") [patternIdCall patternId]

/-- `handle_req_add_pattern_instance`, `src_jni/engine_code/sequence.cc:85–115`. -/
def handleReqAddPatternInstance : Handled :=
  match msg.patternInstance with
  | .error e => (.error e, srv)
  | .ok pin =>
    match srv.sequence.processAddPatternInstance pin with
    | none => (.error .undefined, srv)
    | some (false, _) => (.ok none, srv)
    | some (true, sequence) =>
      { srv with sequence := sequence }.sendMessage acquired (str "cmd_add_ptrn_inst")
        (patternInstanceCalls pin)

/-- `handle_req_del_pattern_instance`, `src_jni/engine_code/sequence.cc:117–149`. -/
def handleReqDelPatternInstance : Handled :=
  match msg.patternInstance with
  | .error e => (.error e, srv)
  | .ok pin =>
    { srv with sequence := srv.sequence.processDelPatternInstance pin }.sendMessage acquired
      (str "cmd_del_ptrn_inst") (patternInstanceCalls pin)

/-- `handle_req_add_note`, `src_jni/engine_code/sequence.cc:151–200`. -/
def handleReqAddNote : Handled :=
  match msg.uintValue (str "pattern_id"), msg.note with
  | .error e, _ => (.error e, srv)
  | .ok _, .error e => (.error e, srv)
  | .ok patternId, .ok note =>
    { srv with sequence := srv.sequence.processAddNote patternId note }.sendMessage acquired
      (str "cmd_add_note") (noteCalls patternId note)

/-- `handle_req_del_note`, `src_jni/engine_code/sequence.cc:202–249`. The command it sends is
the one for pattern instances. -/
def handleReqDelNote : Handled :=
  match msg.note, msg.uintValue (str "pattern_id") with
  | .error e, _ => (.error e, srv)
  | .ok _, .error e => (.error e, srv)
  | .ok note, .ok patternId =>
    { srv with sequence := srv.sequence.processDeleteNote patternId note }.sendMessage acquired
      (str "cmd_del_ptrn_inst") (noteCalls patternId note)

/-- `process_message_server`, `src_jni/remote_interface.cc:722–729`, with the handlers that
`register_handlers` registers, `src_jni/engine_code/sequence.hh:233–240`. -/
def processMessageServer : Handled :=
  match msg.value (str "commandid") with
  | .error e => (.error e, srv)
  | .ok commandId =>
    if commandId = str "req_add_ptrn" then srv.handleReqAddPattern acquired msg
    else if commandId = str "req_del_ptrn" then srv.handleReqDelPattern acquired msg
    else if commandId = str "req_add_ptrn_inst" then srv.handleReqAddPatternInstance acquired msg
    else if commandId = str "req_del_ptrn_inst" then srv.handleReqDelPatternInstance acquired msg
    else if commandId = str "req_add_note" then srv.handleReqAddNote acquired msg
    else if commandId = str "req_del_note" then srv.handleReqDelNote acquired msg
    else (.ok none, srv)

end SequenceServer

/-! ## The client -/

namespace Sequence

variable (client : Sequence) (msg : Message)

/-- `handle_cmd_add_pattern`, `src_jni/engine_code/sequence.cc:367–375`. -/
def handleCmdAddPattern : Except Fault Sequence := do
  let newName ← msg.value (str "name")
  let newId ← msg.uintValue (str "pattern_id")
  return client.processAddPattern newName newId

/-- `handle_cmd_del_pattern`, `src_jni/engine_code/sequence.cc:377–384`. -/
def handleCmdDelPattern : Except Fault Sequence := do
  let patternId ← msg.uintValue (str "pattern_id")
  return (client.processDelPattern patternId).2

/-- `handle_cmd_add_pattern_instance`, `src_jni/engine_code/sequence.cc:386–396`. -/
def handleCmdAddPatternInstance : Except Fault Sequence := do
  let pin ← msg.patternInstance
  match client.processAddPatternInstance pin with
  | none => throw .undefined
  | some (_, sequence) => return sequence

/-- `handle_cmd_del_pattern_instance`, `src_jni/engine_code/sequence.cc:398–411`. -/
def handleCmdDelPatternInstance : Except Fault Sequence := do
  let toDel ← msg.patternInstance
  return client.processDelPatternInstance toDel

/-- `handle_cmd_add_note`, `src_jni/engine_code/sequence.cc:413–426`. -/
def handleCmdAddNote : Except Fault Sequence := do
  let patternId ← msg.uintValue (str "pattern_id")
  let note ← msg.note
  return client.processAddNote patternId note

/-- `handle_cmd_del_note`, `src_jni/engine_code/sequence.cc:428–445`. -/
def handleCmdDelNote : Except Fault Sequence := do
  let noteToDelete ← msg.note
  let patternId ← msg.uintValue (str "pattern_id")
  return client.processDeleteNote patternId noteToDelete

/-- `process_message_client`, `src_jni/remote_interface.cc:731–738`, with the handlers that
`register_handlers` registers, `src_jni/engine_code/sequence.hh:242–247`. -/
def processMessageClient : Except Fault Sequence := do
  let commandId ← msg.value (str "commandid")
  if commandId = str "cmd_add_ptrn" then client.handleCmdAddPattern msg
  else if commandId = str "cmd_del_ptrn" then client.handleCmdDelPattern msg
  else if commandId = str "cmd_add_ptrn_inst" then client.handleCmdAddPatternInstance msg
  else if commandId = str "cmd_del_ptrn_inst" then client.handleCmdDelPatternInstance msg
  else if commandId = str "cmd_add_note" then client.handleCmdAddNote msg
  else if commandId = str "cmd_del_note" then client.handleCmdDelNote msg
  else return client

/-- `Client::on_message_received`, `src_jni/engine_code/client.cc:109–187`, as far as the
object `objId` is concerned: negative identities are those of messages to the client. -/
def onMessageReceived (objId : Int32) : Except Fault Sequence := do
  let identifier ← (stol (← msg.value (str "id"))).mapError Fault.ofConversion
  if 0 ≤ identifier.toInt ∧ Int32.ofInt identifier.toInt = objId then
    client.processMessageClient msg
  else throw .otherRecipient

/-- A message that `distribute_message` delivers to the client, whose reader holds
`readMsg`; without a message nothing happens. -/
def receiveBroadcast (objId : Int32) (readMsg : Message) :
    Option Message → Except Fault (Sequence × Message)
  | none => .ok (client, readMsg)
  | some broadcast =>
    match readMessage readMsg broadcast.encode.sbuf with
    | .error stop => .error (Fault.ofReadStop stop)
    | .ok (_, msg, _) => (client.onMessageReceived msg objId).map (·, msg)

end Sequence

end Vuknob
