import Vuknob.Library.Multimap
import Vuknob.Library.Replicas
import Vuknob.Remote.Message

/-!
# The connections of a machine

`connection_data` of an `RIMachine`: what `attach_input` and `detach_input` make of it on the
server, the text that a new client gets, and what a client makes of that text and of the messages
after it. `src_jni/remote_interface.cc:1876–1898,1955–2041,2778–2847,2872–2890`.
-/

namespace Vuknob

open Library
open Message (Line getline)

/-- `connection_data`, `src_jni/remote_interface.hh:1094`: the object id of a source machine leads
to the name of its output and that of the input it is connected to. -/
abbrev ConnectionData := Multimap Int32 (StdString × StdString)

/-- The values of a message about a connection. -/
structure ConnectionMessage where
  command : StdString
  sObjid : StdString
  source : StdString
  destination : StdString
  deriving DecidableEq

namespace ConnectionMessage

/-- The values as `set_value` stores them; none where it throws. -/
def encode (msg : ConnectionMessage) : Option ConnectionMessage := do
  return ⟨← setText msg.command, ← setText msg.sObjid, ← setText msg.source,
    ← setText msg.destination⟩

/-- The values as `decode_body` stores them. -/
def decode (msg : ConnectionMessage) : Option ConnectionMessage := do
  return ⟨← Serialize.decodeString msg.command, ← Serialize.decodeString msg.sObjid,
    ← Serialize.decodeString msg.source, ← Serialize.decodeString msg.destination⟩

end ConnectionMessage

/-! ## The server -/

/-- What a server does with an input of a machine. -/
inductive InputOp
  | attachInput (sourceObjid : Int32) (sourceOutputName destinationInputName : StdString)
  | detachInput (sourceObjid : Int32) (sourceOutputName destinationInputName : StdString)

namespace RIMachine

/-- `attach_input` on the server, `src_jni/remote_interface.cc:1955–1977`, and the message that it
sends. -/
def attachInput (connectionData : ConnectionData) (sourceObjid : Int32)
    (sourceOutputName destinationInputName : StdString) :
    ConnectionData × Option ConnectionMessage :=
  (connectionData.insert (sourceObjid, sourceOutputName, destinationInputName),
    ConnectionMessage.encode ⟨str "attach", decimalInt sourceObjid.toInt, sourceOutputName,
      destinationInputName⟩)

/-- `detach_input` on the server, `src_jni/remote_interface.cc:1998–2026`. -/
def detachInput (connectionData : ConnectionData) (sourceObjid : Int32)
    (sourceOutputName destinationInputName : StdString) :
    ConnectionData × Option ConnectionMessage :=
  (connectionData.eraseAll (sourceObjid, sourceOutputName, destinationInputName),
    ConnectionMessage.encode ⟨str "detach", decimalInt sourceObjid.toInt, sourceOutputName,
      destinationInputName⟩)

/-- One of them. -/
def serve (connectionData : ConnectionData) : InputOp → ConnectionData × Option ConnectionMessage
  | .attachInput objid output input => attachInput connectionData objid output input
  | .detachInput objid output input => detachInput connectionData objid output input

/-- One after the other, and all messages. -/
def serveAll (connectionData : ConnectionData) :
    List InputOp → ConnectionData × List ConnectionMessage
  | [] => (connectionData, [])
  | op :: ops =>
    let (connectionData, msg) := serve connectionData op
    let (connectionData, msgs) := serveAll connectionData ops
    (connectionData, msg.toList ++ msgs)

/-- One entry of the text. -/
def connectionText (entry : Int32 × StdString × StdString) : StdString :=
  decimalInt entry.1.toInt ++ str "@" ++ entry.2.1 ++ str "\x7b" ++ entry.2.2 ++ str "\x7d"

/-- The value of `connections` that `serialize` writes, `src_jni/remote_interface.cc:2880–2890`. -/
def serializeConnections (connectionData : ConnectionData) : StdString :=
  let connectionString := connectionData.entries.flatMap connectionText
  if connectionString = [] then str "@\x7b\x7d" else connectionString

/-! ## A client -/

/-- `std::getline` on what a line has left, into a string that holds `text`; at the end of the
stream the string keeps that. -/
def next (delim : UInt8) (line : Line) (text : StdString) : Line :=
  if line.eof then ⟨text, [], true⟩ else getline delim line.rest

/-- How much can be read after a line. -/
def remaining (line : Line) : Nat := if line.eof then 0 else line.rest.length + 1

theorem remaining_next_lt (delim : UInt8) {line : Line} (h : line.eof = false) (text : StdString) :
    remaining (next delim line text) < remaining line := by
  rw [next, remaining, remaining, h, if_neg Bool.false_ne_true, if_neg Bool.false_ne_true]
  split
  · omega
  · next heof =>
    have := Message.length_rest_getline_lt (Bool.eq_false_iff.mpr heof)
    omega

theorem remaining_next_le (delim : UInt8) (line : Line) (text : StdString) :
    remaining (next delim line text) ≤ remaining line := by
  cases h : line.eof with
  | true => rw [next, if_pos h, remaining, if_pos rfl]; exact Nat.zero_le _
  | false => exact Nat.le_of_lt (remaining_next_lt delim h text)

/-- What the loop of `parse_serialized_connections_data` stores,
`src_jni/remote_interface.cc:1890–1893`; `stol` may throw. -/
def storeConnection (connectionData : ConnectionData) (srcid srcName dstName : StdString) :
    Option ConnectionData :=
  if srcid ≠ [] ∧ srcName ≠ [] ∧ dstName ≠ [] then
    match stol srcid with
    | .error _ => none
    | .ok id => some (connectionData.insert (id.toInt32, srcName, dstName))
  else some connectionData

/-- The loop of `parse_serialized_connections_data` with the id just read,
`src_jni/remote_interface.cc:1882–1897`. -/
def parseConnections (connectionData : ConnectionData) (srcid : Line) (dstName : StdString) :
    Option ConnectionData :=
  if srcid.eof ∨ srcid.text = [] then some connectionData
  else
    let srcName := next 123 srcid []
    let dst := next 125 srcName dstName
    match storeConnection connectionData srcid.text srcName.text dst.text with
    | none => none
    | some connectionData => parseConnections connectionData (next 64 dst srcid.text) dst.text
termination_by remaining srcid
decreasing_by
  have hsrcid : srcid.eof = false :=
    Bool.eq_false_iff.mpr (not_or.mp ‹¬ (srcid.eof = true ∨ srcid.text = [])›).1
  exact (remaining_next_le 64 dst _).trans_lt
    ((remaining_next_le 125 srcName _).trans_lt (remaining_next_lt 123 hsrcid []))

/-- `parse_serialized_connections_data`, `src_jni/remote_interface.cc:1876–1898`. -/
def parseSerializedConnectionsData (serialized : StdString) : Option ConnectionData :=
  parseConnections ∅ (getline 64 serialized) []

/-- What a client that is told about the machine now makes of its connections. -/
def join (connectionData : ConnectionData) : Option ConnectionData := do
  parseSerializedConnectionsData (← deliverText (serializeConnections connectionData))

/-- `process_message_client`, `src_jni/remote_interface.cc:2849–2870`, on messages about
connections, with `process_attach_message` and `process_detach_message`. The listeners that are
called first do not touch `connection_data`. -/
def processMessageClient (connectionData : ConnectionData) (msg : ConnectionMessage) :
    Option ConnectionData :=
  match stol msg.sObjid with
  | .error _ => none
  | .ok identifier =>
    let entry := (identifier.toInt32, msg.source, msg.destination)
    if msg.command = str "attach" then some (connectionData.insert entry)
    else if msg.command = str "detach" then some (connectionData.eraseAll entry)
    else some connectionData

/-- A message arrives. -/
def receive (connectionData : ConnectionData) (msg : ConnectionMessage) :
    Option ConnectionData := do
  processMessageClient connectionData (← msg.decode)

end RIMachine

/-! ## What arrives -/

/-- What is excluded of a name: that it is empty, and the characters of the text formats. -/
def Named (name : StdString) : Prop := name ≠ [] ∧ ∀ c ∈ name, c ∉ str "@\x7b\x7d;=%"

instance (name : StdString) : Decidable (Named name) :=
  @instDecidableAnd _ _ inferInstance (List.decidableBAll _ name)

/-- Both names of a command are names, and hold no NUL byte. -/
def InputOp.Plain : InputOp → Prop
  | .attachInput _ output input | .detachInput _ output input =>
    (Named output ∧ 0 ∉ output) ∧ Named input ∧ 0 ∉ input

instance : DecidablePred InputOp.Plain
  | .attachInput _ output input | .detachInput _ output input =>
    inferInstanceAs (Decidable ((Named output ∧ 0 ∉ output) ∧ Named input ∧ 0 ∉ input))

/-- The connections have such names. -/
def PlainConnections (connectionData : ConnectionData) : Prop :=
  ∀ entry ∈ connectionData.entries, (Named entry.2.1 ∧ 0 ∉ entry.2.1) ∧
    Named entry.2.2 ∧ 0 ∉ entry.2.2

theorem plainConnections_empty : PlainConnections ∅ := nofun

theorem Named.notMem {name : StdString} (h : Named name) {c : UInt8}
    (hc : c ∈ str "@\x7b\x7d;=%") : c ∉ name := fun hmem ↦ h.2 c hmem hc

private theorem decodeString_setText_name {name : StdString} (h : Named name) (hnul : 0 ∉ name) :
    setText name = some (Serialize.encodeString name) ∧
      Serialize.decodeString (Serialize.encodeString name) = some name :=
  decodeString_setText h.1 (h.notMem (by decide)) (h.notMem (by decide)) hnul

private theorem decodeString_setText_int (v : Int) :
    setText (decimalInt v) = some (Serialize.encodeString (decimalInt v)) ∧
      Serialize.decodeString (Serialize.encodeString (decimalInt v)) = some (decimalInt v) :=
  decodeString_setText (decimalInt_ne_nil v) (fun h ↦ (mem_decimalInt h).2.1 rfl)
    (fun h ↦ (mem_decimalInt h).2.2 rfl) (fun h ↦ (mem_decimalInt h).1 rfl)

/-- A message about plain names is sent, and arrives as it was set. -/
theorem ConnectionMessage.exists_encode {command : StdString} (objid : Int32)
    {output input : StdString} (hcommand : command = str "attach" ∨ command = str "detach")
    (houtput : Named output ∧ 0 ∉ output) (hinput : Named input ∧ 0 ∉ input) :
    ∃ msg, encode ⟨command, decimalInt objid.toInt, output, input⟩ = some msg ∧
      msg.decode = some ⟨command, decimalInt objid.toInt, output, input⟩ := by
  obtain ⟨hset₁, hdecode₁⟩ : setText command = some (Serialize.encodeString command) ∧
      Serialize.decodeString (Serialize.encodeString command) = some command := by
    cases hcommand with
    | inl h => subst h; decide
    | inr h => subst h; decide
  obtain ⟨hset₂, hdecode₂⟩ := decodeString_setText_int objid.toInt
  obtain ⟨hset₃, hdecode₃⟩ := decodeString_setText_name houtput.1 houtput.2
  obtain ⟨hset₄, hdecode₄⟩ := decodeString_setText_name hinput.1 hinput.2
  refine ⟨⟨Serialize.encodeString command, Serialize.encodeString (decimalInt objid.toInt),
    Serialize.encodeString output, Serialize.encodeString input⟩, ?_, ?_⟩
  · rw [encode, hset₁, hset₂, hset₃, hset₄]
    rfl
  · simp only [decode, hdecode₁, hdecode₂, hdecode₃, hdecode₄]
    rfl

private theorem stol_objid (objid : Int32) :
    ∃ id, stol (decimalInt objid.toInt) = .ok id ∧ id.toInt32 = objid :=
  ⟨_, stol_decimalInt objid, by rw [Int64.toInt32_ofInt, Int32.ofInt_toInt]⟩

namespace RIMachine

/-- A client that has the connections of the server has them again when it gets the message. -/
theorem receive_serve (connectionData : ConnectionData) {op : InputOp} (hplain : op.Plain) :
    ∃ msg, (serve connectionData op).2 = some msg ∧
      receive connectionData msg = some (serve connectionData op).1 := by
  cases op with
  | attachInput objid output input =>
    obtain ⟨msg, hencode, hdecode⟩ :=
      ConnectionMessage.exists_encode objid (.inl rfl) hplain.1 hplain.2
    obtain ⟨id, hstol, hid⟩ := stol_objid objid
    refine ⟨msg, hencode, ?_⟩
    rw [receive, hdecode, Option.bind_eq_bind, Option.bind_some, processMessageClient, hstol]
    simp only [hid, if_true]
    rfl
  | detachInput objid output input =>
    obtain ⟨msg, hencode, hdecode⟩ :=
      ConnectionMessage.exists_encode objid (.inr rfl) hplain.1 hplain.2
    obtain ⟨id, hstol, hid⟩ := stol_objid objid
    have hne : str "detach" ≠ str "attach" := by decide
    refine ⟨msg, hencode, ?_⟩
    rw [receive, hdecode, Option.bind_eq_bind, Option.bind_some, processMessageClient, hstol]
    simp only [hid, if_neg hne, if_true]
    rfl

theorem serveAll_cons (connectionData : ConnectionData) (op : InputOp) (ops : List InputOp) :
    serveAll connectionData (op :: ops) =
      ((serveAll (serve connectionData op).1 ops).1,
        (serve connectionData op).2.toList ++ (serveAll (serve connectionData op).1 ops).2) := rfl

/-- The messages of a server take a client to what the server has after them. -/
theorem catchesUp_serveAll (connectionData : ConnectionData) {ops : List InputOp}
    (hplain : ∀ op ∈ ops, op.Plain) :
    CatchesUp receive connectionData (serveAll connectionData ops).2
      (serveAll connectionData ops).1 := by
  induction ops generalizing connectionData with
  | nil => exact catchesUp_nil.mpr rfl
  | cons op ops ih =>
    obtain ⟨hop, hops⟩ := List.forall_mem_cons.mp hplain
    obtain ⟨msg, hmsg, hreceive⟩ := receive_serve connectionData hop
    rw [serveAll_cons, hmsg, Option.toList_some, List.singleton_append, catchesUp_cons]
    exact ⟨_, hreceive, ih _ hops⟩

theorem serveAll_append (connectionData : ConnectionData) (ops ops' : List InputOp) :
    serveAll connectionData (ops ++ ops') =
      ((serveAll (serveAll connectionData ops).1 ops').1,
        (serveAll connectionData ops).2 ++ (serveAll (serveAll connectionData ops).1 ops').2) := by
  induction ops generalizing connectionData with
  | nil => rfl
  | cons op ops ih => simp only [List.cons_append, serveAll_cons, ih, List.append_assoc]

/-- The server has the names that it has been given. -/
theorem plainConnections_serveAll {connectionData : ConnectionData} {ops : List InputOp}
    (hconnections : PlainConnections connectionData) (hplain : ∀ op ∈ ops, op.Plain) :
    PlainConnections (serveAll connectionData ops).1 := by
  induction ops generalizing connectionData with
  | nil => exact hconnections
  | cons op ops ih =>
    obtain ⟨hop, hops⟩ := List.forall_mem_cons.mp hplain
    rw [serveAll_cons]
    refine ih (fun entry hentry ↦ ?_) hops
    cases op with
    | attachInput objid output input =>
      cases Multimap.mem_insert.mp hentry with
      | inl h => exact h ▸ hop
      | inr h => exact hconnections entry h
    | detachInput objid output input =>
      exact hconnections entry (Multimap.mem_of_mem_eraseAll hentry)

/-! ## The text of all connections -/

/-- The loop reads one entry and goes on with the text behind it. -/
private theorem parseConnections_connectionText (connectionData : ConnectionData)
    {entry : Int32 × StdString × StdString} (houtput : Named entry.2.1) (hinput : Named entry.2.2)
    (rest dstName : StdString) :
    parseConnections connectionData (getline 64 (connectionText entry ++ rest)) dstName =
      parseConnections (connectionData.insert entry) (getline 64 rest) entry.2.2 := by
  obtain ⟨objid, output, input⟩ := entry
  obtain ⟨id, hstol, hid⟩ := stol_objid objid
  have hsrcid : (64 : UInt8) ∉ decimalInt objid.toInt :=
    notMem_decimalInt (by decide) (by decide) _
  have htext : connectionText (objid, output, input) ++ rest =
      decimalInt objid.toInt ++ 64 :: (output ++ 123 :: (input ++ 125 :: rest)) := by
    have hdelims : str "@" = [64] ∧ str "\x7b" = [123] ∧ str "\x7d" = [125] := by decide
    simp only [connectionText, hdelims.1, hdelims.2.1, hdelims.2.2, List.append_assoc,
      List.cons_append, List.nil_append]
  have hsrcName := Message.getline_append (houtput.notMem (c := 123) (by decide))
    (input ++ 125 :: rest)
  have hdst := Message.getline_append (hinput.notMem (c := 125) (by decide)) rest
  rw [htext, Message.getline_append hsrcid, parseConnections,
    if_neg (not_or.mpr ⟨Bool.false_ne_true, decimalInt_ne_nil _⟩)]
  simp only [next, Bool.false_eq_true, if_false, hsrcName, hdst]
  rw [storeConnection, if_pos ⟨decimalInt_ne_nil _, houtput.1, hinput.1⟩, hstol]
  simp only [hid]

private theorem parseConnections_flatMap (connectionData : ConnectionData)
    {entries : List (Int32 × StdString × StdString)}
    (hnamed : ∀ entry ∈ entries, Named entry.2.1 ∧ Named entry.2.2) (dstName : StdString) :
    parseConnections connectionData (getline 64 (entries.flatMap connectionText)) dstName =
      some (entries.foldl Multimap.insert connectionData) := by
  induction entries generalizing connectionData dstName with
  | nil =>
    rw [List.flatMap_nil, getline, parseConnections, if_pos (.inl rfl)]
    rfl
  | cons entry entries ih =>
    obtain ⟨⟨houtput, hinput⟩, hnamed⟩ := List.forall_mem_cons.mp hnamed
    rw [List.flatMap_cons, parseConnections_connectionText connectionData houtput hinput,
      ih _ hnamed, List.foldl_cons]

private theorem connectionText_ne_nil (entry : Int32 × StdString × StdString) :
    connectionText entry ≠ [] := by
  rw [connectionText]
  simp [decimalInt_ne_nil]

private theorem serializeConnections_eq (connectionData : ConnectionData) :
    (connectionData = ∅ ∧ serializeConnections connectionData = str "@\x7b\x7d") ∨
      connectionData.entries.flatMap connectionText ≠ [] ∧
        serializeConnections connectionData = connectionData.entries.flatMap connectionText := by
  rw [serializeConnections]
  by_cases hempty : connectionData.entries.flatMap connectionText = []
  · refine .inl ⟨Multimap.ext ?_, if_pos hempty⟩
    refine List.eq_nil_iff_forall_not_mem.mpr fun entry hentry ↦ ?_
    exact connectionText_ne_nil entry (List.flatMap_eq_nil_iff.mp hempty entry hentry)
  · exact .inr ⟨hempty, if_neg hempty⟩

/-- The text of the connections gives the connections back. -/
theorem parse_serializeConnections {connectionData : ConnectionData}
    (hplain : PlainConnections connectionData) :
    parseSerializedConnectionsData (serializeConnections connectionData) = some connectionData := by
  rw [parseSerializedConnectionsData]
  obtain ⟨rfl, htext⟩ | ⟨-, htext⟩ := serializeConnections_eq connectionData
  · rw [htext, show getline 64 (str "@\x7b\x7d") = ⟨[], [123, 125], false⟩ from rfl,
      parseConnections, if_pos (.inr rfl)]
  · rw [htext, parseConnections_flatMap ∅
      fun entry h ↦ ⟨(hplain entry h).1.1, (hplain entry h).2.1⟩, Multimap.foldl_insert_entries]

/-- The text of plain names is an ordinary value of a message. -/
private theorem notMem_connectionText {entry : Int32 × StdString × StdString}
    (houtput : Named entry.2.1 ∧ 0 ∉ entry.2.1) (hinput : Named entry.2.2 ∧ 0 ∉ entry.2.2) :
    59 ∉ connectionText entry ∧ 61 ∉ connectionText entry ∧ 0 ∉ connectionText entry := by
  have hnotMem : ∀ c : UInt8, isDigit c = false → c ≠ 45 → c ∉ str "@\x7b\x7d" →
      c ∉ entry.2.1 → c ∉ entry.2.2 → c ∉ connectionText entry := by
    intro c hdigit hminus hdelim hout hin
    have hdelims : str "@\x7b\x7d" = str "@" ++ str "\x7b" ++ str "\x7d" := by decide
    simp only [hdelims, List.mem_append, not_or] at hdelim
    simp only [connectionText, List.mem_append, not_or]
    exact ⟨⟨⟨⟨⟨notMem_decimalInt hdigit hminus _, hdelim.1.1⟩, hout⟩, hdelim.1.2⟩, hin⟩, hdelim.2⟩
  refine ⟨?_, ?_, ?_⟩
  · exact hnotMem 59 (by decide) (by decide) (by decide) (houtput.1.notMem (by decide))
      (hinput.1.notMem (by decide))
  · exact hnotMem 61 (by decide) (by decide) (by decide) (houtput.1.notMem (by decide))
      (hinput.1.notMem (by decide))
  · exact hnotMem 0 (by decide) (by decide) (by decide) houtput.2 hinput.2

/-- A client that is told about the machine has the connections of the server. -/
theorem join_eq {connectionData : ConnectionData} (hplain : PlainConnections connectionData) :
    join connectionData = some connectionData := by
  have hvalue : serializeConnections connectionData ≠ [] ∧
      59 ∉ serializeConnections connectionData ∧ 61 ∉ serializeConnections connectionData ∧
      0 ∉ serializeConnections connectionData := by
    obtain ⟨-, htext⟩ | ⟨hne, htext⟩ := serializeConnections_eq connectionData
    · rw [htext]
      decide
    · rw [htext]
      have hentry := fun entry hmem ↦
        notMem_connectionText (hplain entry hmem).1 (hplain entry hmem).2
      refine ⟨hne, ?_, ?_, ?_⟩
      all_goals
        intro hmem
        obtain ⟨entry, hmem, hc⟩ := List.mem_flatMap.mp hmem
      · exact (hentry entry hmem).1 hc
      · exact (hentry entry hmem).2.1 hc
      · exact (hentry entry hmem).2.2 hc
  obtain ⟨hne, hsemicolon, hequals, hnul⟩ := hvalue
  rw [join, deliverText_eq hsemicolon hequals, Serialize.transmitted_eq_self hne hnul]
  exact parse_serializeConnections hplain

/-- A client that has been there from the start, and a client that is told about the machine at any
time, have the connections of the server once they have got all messages. -/
theorem connections_replicated {before after : List InputOp}
    (hplain : ∀ op ∈ before ++ after, op.Plain) :
    let joined := serveAll ∅ before
    let served := serveAll ∅ (before ++ after)
    (∃ first, join ∅ = some first ∧ CatchesUp receive first served.2 served.1) ∧
      ∃ snapshot, join joined.1 = some snapshot ∧
        CatchesUp receive snapshot (served.2.drop joined.2.length) served.1 := by
  obtain ⟨hbefore, hafter⟩ := List.forall_mem_append.mp hplain
  refine ⟨⟨∅, join_eq plainConnections_empty, catchesUp_serveAll ∅ hplain⟩, _,
    join_eq (plainConnections_serveAll plainConnections_empty hbefore), ?_⟩
  rw [serveAll_append, List.drop_left]
  exact catchesUp_serveAll _ hafter

/-- The same connection twice and another one, of which the first is detached. -/
theorem connections_replicated_twice :
    let before := [.attachInput 1 (str "out") (str "in"), .attachInput 1 (str "out") (str "in")]
    let after := [.attachInput 0 (str "midi") (str "in"), .detachInput 1 (str "out") (str "in")]
    let joined := serveAll ∅ before
    let served := serveAll ∅ (before ++ after)
    (∃ first, join ∅ = some first ∧ CatchesUp receive first served.2 served.1) ∧
      ∃ snapshot, join joined.1 = some snapshot ∧
        CatchesUp receive snapshot (served.2.drop joined.2.length) served.1 :=
  connections_replicated (by decide)

/-- The name of an output holds a NUL byte: a client that has been there from the start gets what
is in front of it. -/
theorem not_connections_replicated :
    let served := serveAll ∅ [.attachInput 1 [97, 0, 98] (str "in")]
    Named [97, 0, 98] ∧ Named (str "in") ∧ served.1.entries = [(1, [97, 0, 98], str "in")] ∧
      (served.2.foldlM receive ∅).map Multimap.entries = some [(1, [97], str "in")] ∧
      ∀ first, join ∅ = some first → ¬ CatchesUp receive first served.2 served.1 := by
  refine ⟨by decide, by decide, by decide, by decide, fun first hfirst ↦ ?_⟩
  obtain rfl := Option.some.inj ((join_eq plainConnections_empty).symm.trans hfirst)
  rw [CatchesUp]
  decide

end RIMachine

end Vuknob
