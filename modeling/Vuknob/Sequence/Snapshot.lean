import Vuknob.Remote.Items
import Vuknob.Remote.Shortcut
import Vuknob.Sequence.Replication

/-!
# Snapshots of a sequence

A client that connects later is sent every object, `src_jni/engine_code/server.cc:384–391`, and makes
its sequence from `Sequence::serialize`, `src_jni/engine_code/sequence.cc:301–305`, by the templates of
`src_jni/engine_code/sequence.cc:704–764`, which serve both directions. The instances of patterns are
not among what they process.
-/

namespace Vuknob

open Message Library

/-- A `Sequence` with its name, `src_jni/engine_code/sequence.hh:195–197`. -/
structure NamedSequence where
  sequenceName : StdString
  sequence : Sequence

/-! ## Notes -/

namespace Note

/-- `serderize_single` with an `ItemSerializer`, `src_jni/engine_code/sequence.cc:704–712`. -/
def serializeSingle (trgt : Note) : StdString :=
  ItemSerializer.processInt trgt.channel ++
  (ItemSerializer.processInt trgt.program ++
  (ItemSerializer.processInt trgt.velocity ++
  (ItemSerializer.processInt trgt.note ++
  (ItemSerializer.processInt trgt.onAt ++
  ItemSerializer.processInt trgt.length))))

/-- `serderize_single` with an `ItemDeserializer`. -/
def deserializeSingle : Deserializing Note := do
  let channel ← ItemDeserializer.processInt
  let program ← ItemDeserializer.processInt
  let velocity ← ItemDeserializer.processInt
  let note ← ItemDeserializer.processInt
  let onAt ← ItemDeserializer.processInt
  let length ← ItemDeserializer.processInt
  return ⟨channel, program, velocity, note, onAt, length⟩

/-- The loop of `serderize`, `src_jni/engine_code/sequence.cc:718–729`, at a note with `next` behind
it. -/
def serializeNext : List Note → StdString
  | [] => ItemSerializer.processBool false
  | next :: rest => ItemSerializer.processBool true ++ (next.serializeSingle ++ serializeNext rest)

/-- The same loop with an `ItemDeserializer`, which allocates the notes it reads. -/
def deserializeNext : Nat → Deserializing (List Note)
  | 0 => return []
  | fuel + 1 => do
    let hasNextNote ← ItemDeserializer.processBool
    if hasNextNote then
      let next ← deserializeSingle
      return next :: (← deserializeNext fuel)
    else return []

/-- `serderize` with an `ItemSerializer`, `src_jni/engine_code/sequence.cc:714–731`. -/
def serialize (head : Note) (rest : List Note) : StdString :=
  head.serializeSingle ++ serializeNext rest

/-- `serderize` with an `ItemDeserializer`. Every round of the loop extracts a character. -/
def deserialize : Deserializing (List Note) := do
  let head ← deserializeSingle
  return head :: (← deserializeNext (← get).rest.length)

end Note

/-! ## Patterns and sequences -/

namespace Pattern

/-- `serderize` with an `ItemSerializer`, `src_jni/engine_code/sequence.cc:739–751`. -/
def serialize (ptrn : Pattern) : StdString :=
  ItemSerializer.processUnsignedInt ptrn.id ++
  (ItemSerializer.processString ptrn.name ++
  match ptrn.noteList with
  | [] => ItemSerializer.processBool false
  | head :: rest =>
    ItemSerializer.processBool true ++
      ItemSerializer.processPointer (str "SequenceNote") (head.serialize rest))

/-- `serderize` with an `ItemDeserializer`; the pattern comes from its allocator without notes. -/
def deserialize : Deserializing Pattern := do
  let id ← ItemDeserializer.processUnsignedInt
  let name ← ItemDeserializer.processString
  let hasNote ← ItemDeserializer.processBool
  if hasNote then
    let noteList ← ItemDeserializer.processPointer (str "SequenceNote") Note.deserialize
    return ⟨id, name, noteList⟩
  else return ⟨id, name, []⟩

end Pattern

namespace NamedSequence

/-- An element of `patterns` with an `ItemSerializer`. -/
def serializeElement (element : UInt32 × Pattern) : StdString :=
  ItemSerializer.processPair (ItemSerializer.processUnsignedInt element.1)
    (ItemSerializer.processPointer (str "SequencePattern") element.2.serialize)

/-- An element of `patterns` with an `ItemDeserializer`. -/
def deserializeElement : Deserializing (UInt32 × Pattern) :=
  ItemDeserializer.processPair ItemDeserializer.processUnsignedInt
    (ItemDeserializer.processPointer (str "SequencePattern") Pattern.deserialize)

/-- `serderize_sequence` with an `ItemSerializer`, `src_jni/engine_code/sequence.cc:757–764`. -/
def serializeSequence (s : NamedSequence) : StdString :=
  ItemSerializer.processString s.sequenceName ++
    ItemSerializer.processContainer (s.sequence.patterns.toList.map serializeElement)

/-- `serderize_sequence` with an `ItemDeserializer` on a new `Sequence`. -/
def deserializeSequence : Deserializing NamedSequence := do
  let sequenceName ← ItemDeserializer.processString
  let patterns ← ItemDeserializer.processMap deserializeElement
  return ⟨sequenceName, patterns, []⟩

/-- `serialize`, `src_jni/engine_code/sequence.cc:301–305`. -/
def serialize (s : NamedSequence) (target : Message) : Except Message.Error Message :=
  target.setValue (str "sequence_data") (ItemSerializer.result s.serializeSequence)

/-- Why the client makes no sequence of a message. -/
inductive SnapshotFault
  | message (e : Message.Error)
  | item (e : ItemFault)
  deriving DecidableEq

/-- The constructor of a client, `src_jni/engine_code/sequence.cc:766–785`. -/
def ofMessage (serialized : Message) : Except SnapshotFault NamedSequence :=
  match serialized.getValue (str "sequence_data") with
  | .error e => .error (.message e)
  | .ok input =>
    match Serialize.decodeString input with
    | none => .error (.item .undefined)
    | some text =>
      match (deserializeSequence.scan ⟨text, false⟩).1 with
      | .error e => .error (.item e)
      | .ok s => .ok s

/-- What `add_create_object_header` sets, `src_jni/engine_code/server.cc:358–363`. -/
def createObjectHeader (objId : Int32) : List (StdString × StdString) :=
  [(str "id", decimalInt (-1)), (str "new_objid", decimalInt objId.toInt),
    (str "factory", str "Sequence")]

/-- The message for a new client, `src_jni/engine_code/server.cc:384–391`. -/
def createObjectMessage (s : NamedSequence) (objId : Int32) (acquired : Message) :
    Except Message.Error Message :=
  match acquired.setValues (createObjectHeader objId) with
  | .error e => .error e
  | .ok target => s.serialize target

end NamedSequence

/-! ## Reading back -/

open ItemSerializer (Solid) in
private theorem Note.solid_serializeSingle (n : Note) : Solid n.serializeSingle :=
  (ItemSerializer.solid_int _).append <| (ItemSerializer.solid_int _).append <|
    (ItemSerializer.solid_int _).append <| (ItemSerializer.solid_int _).append <|
    (ItemSerializer.solid_int _).append (ItemSerializer.solid_int _)

namespace Note

private theorem readsBack_single (n : Note) : ReadsBack deserializeSingle n.serializeSingle n :=
  (ItemDeserializer.readsBack_int n.channel).bind <|
    (ItemDeserializer.readsBack_int n.program).bind <|
    (ItemDeserializer.readsBack_int n.velocity).bind <|
    (ItemDeserializer.readsBack_int n.note).bind <|
    (ItemDeserializer.readsBack_int n.onAt).bind ((ItemDeserializer.readsBack_int n.length).last rfl)

private theorem solid_serializeNext (rest : List Note) :
    ItemSerializer.Solid (serializeNext rest) := by
  induction rest with
  | nil => exact ItemSerializer.solid_bool false
  | cons next rest ih =>
    exact (ItemSerializer.solid_bool true).append (next.solid_serializeSingle.append ih)

private theorem length_lt_serializeNext (rest : List Note) :
    rest.length < (serializeNext rest).length := by
  induction rest with
  | nil => exact List.length_pos_iff.mpr (solid_serializeNext []).1
  | cons next rest ih =>
    have hbool := List.length_pos_iff.mpr (ItemSerializer.solid_bool true).1
    rw [serializeNext, List.length_append, List.length_append, List.length_cons]
    omega

private theorem readsBack_next {fuel : Nat} {rest : List Note} (hfuel : rest.length < fuel) :
    ReadsBack (deserializeNext fuel) (serializeNext rest) rest := by
  induction rest generalizing fuel with
  | nil =>
    obtain ⟨fuel, rfl⟩ : ∃ n, fuel = n + 1 := ⟨fuel - 1, by simp at hfuel; omega⟩
    exact (ItemDeserializer.readsBack_bool false).last rfl
  | cons next rest ih =>
    rw [List.length_cons] at hfuel
    obtain ⟨fuel, rfl⟩ : ∃ n, fuel = n + 1 := ⟨fuel - 1, by omega⟩
    refine (ItemDeserializer.readsBack_bool true).bind ?_
    exact (readsBack_single next).bind ((ih (by omega)).last rfl)

private theorem readsBack_notes (head : Note) (rest : List Note) :
    ReadsBack deserialize (head.serialize rest) (head :: rest) := by
  refine (readsBack_single head).bind fun text ↦ ?_
  rw [Scanner.scan_bind (Scanner.scan_get _)]
  have hfuel : rest.length < (ItemStream.front (serializeNext rest ++ text)).rest.length := by
    have := length_lt_serializeNext rest
    simp only [ItemStream.front, List.length_append]
    omega
  rw [Scanner.scan_bind (readsBack_next hfuel text)]
  rfl

end Note

namespace Pattern

/-- The pattern as it arrives: its name is transmitted as a string. -/
def transmitted (ptrn : Pattern) : Pattern :=
  { ptrn with name := Serialize.transmitted ptrn.name }

private theorem solid_serialize (ptrn : Pattern) : ItemSerializer.Solid ptrn.serialize := by
  refine (ItemSerializer.solid_unsignedInt _).append ((ItemSerializer.solid_string _).append ?_)
  split
  · exact ItemSerializer.solid_bool false
  · exact (ItemSerializer.solid_bool true).append (ItemSerializer.solid_sub (by decide) _)

private theorem readsBack (ptrn : Pattern) : ReadsBack deserialize ptrn.serialize ptrn.transmitted := by
  obtain ⟨id, name, noteList⟩ := ptrn
  refine (ItemDeserializer.readsBack_unsignedInt id).bind
    ((ItemDeserializer.readsBack_string name).bind ?_)
  cases noteList with
  | nil => exact (ItemDeserializer.readsBack_bool false).last rfl
  | cons head rest =>
    have hnotes : ItemSerializer.Solid (head.serialize rest) :=
      head.solid_serializeSingle.append (Note.solid_serializeNext rest)
    refine (ItemDeserializer.readsBack_bool true).bind ?_
    exact (ItemDeserializer.readsBack_sub_of_solid (by decide) hnotes
      (Note.readsBack_notes head rest)).last rfl

end Pattern

namespace NamedSequence

private theorem readsBack_element (element : UInt32 × Pattern) :
    ReadsBack deserializeElement (serializeElement element) (element.1, element.2.transmitted) := by
  have hpattern : ReadsBack (ItemDeserializer.processPointer (str "SequencePattern")
      Pattern.deserialize) (ItemSerializer.processPointer (str "SequencePattern")
        element.2.serialize) element.2.transmitted :=
    ItemDeserializer.readsBack_sub_of_solid (by decide) element.2.solid_serialize element.2.readsBack
  apply ItemDeserializer.readsBack_sub_of_solid (by decide)
  · exact (ItemSerializer.solid_unsignedInt _).append (ItemSerializer.solid_sub (by decide) _)
  · exact (ItemDeserializer.readsBack_unsignedInt element.1).bind (hpattern.last rfl)

/-- The sequence as it arrives: its names are transmitted as strings, and its instances are not. -/
def transmitted (s : NamedSequence) : NamedSequence where
  sequenceName := Serialize.transmitted s.sequenceName
  sequence := ⟨s.sequence.patterns.map fun _ ↦ Pattern.transmitted, []⟩

/-- A client that reads a snapshot makes the sequence as it arrives. -/
private theorem readsBack (s : NamedSequence) :
    ReadsBack deserializeSequence s.serializeSequence s.transmitted := by
  refine (ItemDeserializer.readsBack_string s.sequenceName).bind ?_
  have hpatterns : ReadsBack (ItemDeserializer.processMap deserializeElement)
      (ItemSerializer.processContainer (s.sequence.patterns.toList.map serializeElement))
      (s.sequence.patterns.map fun _ ↦ Pattern.transmitted) :=
    ItemDeserializer.readsBack_map
      (fun element _ ↦ ⟨readsBack_element element, ItemSerializer.solid_sub (by decide) _⟩)
      (fun text htext ↦ ItemDeserializer.processSub_scan_end _ _ htext)
  exact hpatterns.last rfl

/-! ## The message for a new client -/

private theorem solid_serializeSequence (s : NamedSequence) :
    ItemSerializer.Solid s.serializeSequence :=
  (ItemSerializer.solid_string _).append (ItemSerializer.solid_sub (by decide) _)

private theorem solid_result (s : NamedSequence) :
    ItemSerializer.Solid (ItemSerializer.result s.serializeSequence) := by
  refine ⟨fun hnil ↦ ?_, fun hmem ↦ (Serialize.mem_encodeString hmem).2.2 rfl⟩
  exact s.solid_serializeSequence.2 (List.mem_of_mem_head? (Serialize.encodeString_eq_nil_iff.mp hnil))

/-- All calls of `set_value` on the message. -/
def messageCalls (s : NamedSequence) (objId : Int32) : List (StdString × StdString) :=
  createObjectHeader objId ++
    [(str "sequence_data", ItemSerializer.result s.serializeSequence)]

private theorem acceptable_createObjectHeader (objId : Int32) :
    ∀ call ∈ createObjectHeader objId, Acceptable call := by
  have hfactory : Acceptable (str "factory", str "Sequence") := by decide
  rw [createObjectHeader, List.forall_mem_cons, List.forall_mem_cons, List.forall_mem_singleton]
  exact ⟨acceptable_decimalInt (by decide) _, acceptable_decimalInt (by decide) _, hfactory⟩

/-- The message is made, whatever is in the sequence. -/
private theorem exists_createObjectMessage (s : NamedSequence) (objId : Int32)
    (acquired : AcquiredMessage) :
    ∃ c : Composed, c.calls = s.messageCalls objId ∧
      s.createObjectMessage objId acquired = .ok c.message := by
  obtain ⟨target, htarget⟩ := exists_setValues (acceptable_createObjectHeader objId) acquired.val
  obtain ⟨sent, hsent⟩ : ∃ sent, s.serialize target = .ok sent := by
    have hkey : 59 ∉ str "sequence_data" ∧ 61 ∉ str "sequence_data" := by decide
    have h₅₉ : 59 ∉ ItemSerializer.result s.serializeSequence :=
      fun hmem ↦ (Serialize.mem_encodeString hmem).2.1 rfl
    have h₆₁ : 61 ∉ ItemSerializer.result s.serializeSequence :=
      fun hmem ↦ (Serialize.mem_encodeString hmem).1 rfl
    rw [serialize, setValue, if_neg hkey.1, if_neg hkey.2, if_neg h₅₉, if_neg h₆₁]
    exact ⟨_, rfl⟩
  refine ⟨⟨acquired, acquired.2, _, sent, setValues_concat htarget hsent⟩, rfl, ?_⟩
  rw [createObjectMessage, htarget]
  exact hsent

private theorem plainKeys {s : NamedSequence} {objId : Int32} {c : Composed}
    (hcalls : c.calls = s.messageCalls objId) : c.PlainKeys := by
  have hkeys : c.calls.map Prod.fst =
      [str "id", str "new_objid", str "factory", str "sequence_data"] := by
    rw [hcalls]
    rfl
  have hkey : ∀ call ∈ c.calls, call.1 ≠ [] ∧ 0 ∉ call.1 := by
    intro call hcall
    have hall : ∀ key ∈ [str "id", str "new_objid", str "factory", str "sequence_data"],
        key ≠ [] ∧ 0 ∉ key := by decide
    exact hall _ (hkeys ▸ List.mem_map_of_mem hcall)
  exact ⟨hkeys ▸ by decide, fun call hcall ↦ (hkey call hcall).1, fun call hcall ↦ (hkey call hcall).2⟩

/-- The client finds the data as they were written. -/
private theorem ofMessage_arrived {s : NamedSequence} {objId : Int32} {c : Composed}
    (hcalls : c.calls = s.messageCalls objId) :
    ∃ received, c.message.arrived = some received ∧ ofMessage received = .ok s.transmitted := by
  have hplain := plainKeys hcalls
  obtain ⟨received, harrived, hkey2val⟩ := Composed.arrived_of_keys hplain.head?_ne
  have hmem : (str "sequence_data", ItemSerializer.result s.serializeSequence) ∈ c.calls := by
    rw [hcalls]
    exact List.mem_append_right _ List.mem_cons_self
  have hdata : received.key2val[str "sequence_data"]? =
      some (ItemSerializer.result s.serializeSequence) := by
    rw [hkey2val]
    exact (hplain.getElem?_sent _ _).mpr
      ⟨_, hmem, rfl, Serialize.transmitted_eq_self s.solid_result.1 s.solid_result.2⟩
  have hdecode := Serialize.decodeString_encodeString s.serializeSequence
  rw [Serialize.transmitted_eq_self s.solid_serializeSequence.1 s.solid_serializeSequence.2] at hdecode
  have hread := s.readsBack []
  rw [List.append_nil, ItemStream.front] at hread
  refine ⟨received, harrived, ?_⟩
  simp only [ofMessage, getValue, hdata, ItemSerializer.result, hdecode, hread]

/-- A client that connects makes the sequence as it arrives. -/
theorem snapshot_arrives (s : NamedSequence) (objId : Int32) (acquired : AcquiredMessage) :
    ∃ sent received, s.createObjectMessage objId acquired = .ok sent ∧
      sent.arrived = some received ∧ ofMessage received = .ok s.transmitted := by
  obtain ⟨c, hcalls, hsent⟩ := s.exists_createObjectMessage objId acquired
  obtain ⟨received, harrived, hclient⟩ := ofMessage_arrived hcalls
  exact ⟨c.message, received, hsent, harrived, hclient⟩

/-! ## Late clients -/

/-- A string that arrives as it is: it is not empty, and no NUL byte ends it. -/
def Arrives (name : StdString) : Prop := name ≠ [] ∧ 0 ∉ name

/-- A sequence that a snapshot holds as a whole. -/
structure Complete (s : NamedSequence) : Prop where
  sequenceName : Arrives s.sequenceName
  patternName : ∀ (id : UInt32) (ptrn : Pattern), s.sequence.patterns[id]? = some ptrn →
    Arrives ptrn.name
  instanceList : s.sequence.instanceList = []

private theorem transmitted_eq_self_iff (s : NamedSequence) : s.transmitted = s ↔ s.Complete := by
  constructor
  · intro h
    have hname : Serialize.transmitted s.sequenceName = s.sequenceName := congrArg sequenceName h
    have hpatterns : (s.sequence.patterns.map fun _ ↦ Pattern.transmitted) = s.sequence.patterns :=
      congrArg (·.sequence.patterns) h
    refine ⟨Serialize.transmitted_eq_self_iff.mp hname, fun id ptrn hptrn ↦ ?_,
      (congrArg (·.sequence.instanceList) h).symm⟩
    have hid := congrArg (·[id]?) hpatterns
    simp only [Std.ExtTreeMap.getElem?_map, hptrn, Option.map_some, Option.some.injEq] at hid
    exact Serialize.transmitted_eq_self_iff.mp (congrArg Pattern.name hid)
  · intro h
    have hpatterns : (s.sequence.patterns.map fun _ ↦ Pattern.transmitted) = s.sequence.patterns := by
      apply Std.ExtTreeMap.ext_getElem?
      intro id
      rw [Std.ExtTreeMap.getElem?_map]
      cases hptrn : s.sequence.patterns[id]? with
      | none => rfl
      | some ptrn =>
        have hname := Serialize.transmitted_eq_self_iff.mpr (h.patternName id ptrn hptrn)
        rw [Option.map_some, Pattern.transmitted, hname]
    rw [transmitted, hpatterns, Serialize.transmitted_eq_self_iff.mpr h.sequenceName, ← h.instanceList]

end NamedSequence

/-- The server after requests, also after those that throw. -/
def SequenceServer.afterRequests (srv : SequenceServer) (requests : List Request) : SequenceServer :=
  requests.foldl (fun srv request ↦ (srv.processMessageServer request.acquired request.msg).2) srv

open NamedSequence in
/-- After every run of requests, a client that connects makes a sequence, and it is the sequence of
the server exactly if that has no instances of patterns and all its names arrive. -/
theorem snapshot_complete_iff (srv : SequenceServer) (sequenceName : StdString)
    (requests : List Request) (acquired : AcquiredMessage) :
    let s : NamedSequence := ⟨sequenceName, (srv.afterRequests requests).sequence⟩
    ∃ sent received client, s.createObjectMessage srv.objId acquired = .ok sent ∧
      sent.arrived = some received ∧ ofMessage received = .ok client ∧ (client = s ↔ s.Complete) := by
  intro s
  obtain ⟨sent, received, hsent, harrived, hclient⟩ := s.snapshot_arrives srv.objId acquired
  exact ⟨sent, received, s.transmitted, hsent, harrived, hclient, s.transmitted_eq_self_iff⟩

/-- A new sequence on the server. -/
def emptyServer : SequenceServer :=
  ⟨3, Replica.three_nonneg, ⟨∅, []⟩, ⟨∅, 0⟩⟩

/-- The request for an instance of the first pattern. -/
def addInstance : Request :=
  Replica.request [(str "id", str "3"), (str "commandid", str "req_add_ptrn_inst"),
    (str "pattern_id", str "0"), (str "start_at", str "0"), (str "loop_length", str "4"),
    (str "stop_at", str "8")]

open NamedSequence in
/-- The instance of a pattern is not in the snapshot. -/
theorem snapshot_incomplete :
    let s : NamedSequence :=
      ⟨str "drums", (emptyServer.afterRequests [Replica.addBass, addInstance]).sequence⟩
    s.sequence.instanceList = [⟨0, 0, 4, 8⟩] ∧
      ∃ sent received client, s.createObjectMessage 3 (newMessage false 0) = .ok sent ∧
        sent.arrived = some received ∧ ofMessage received = .ok client ∧
        client.sequence.instanceList = [] ∧ client ≠ s := by
  intro s
  have hinstances : s.sequence.instanceList = [⟨0, 0, 4, 8⟩] := by decide +kernel
  obtain ⟨sent, received, hsent, harrived, hclient⟩ :=
    s.snapshot_arrives 3 ⟨_, fresh_newMessage false 0⟩
  refine ⟨hinstances, sent, received, s.transmitted, hsent, harrived, hclient, rfl, fun heq ↦ ?_⟩
  rw [← heq] at hinstances
  cases hinstances

end Vuknob
