import Mathlib.Logic.Function.Basic
import Vuknob.Library.Replicas
import Vuknob.Library.Runs
import Vuknob.Remote.Creation

/-!
# The objects of a client and of the server

What creating and deleting objects, the deletion requests of a client, and its connections do to
`all_objects` on both sides: `src_jni/engine_code/server.cc:91–105,268–293,384–412` and
`src_jni/engine_code/client.cc:75–199`. The messages of a connection arrive in order, and none
after it has been closed.
-/

namespace Vuknob

open Library

namespace ObjectServer

/-- `delete_object`, `src_jni/engine_code/server.cc:91–105`. -/
def deleteObject (s : ObjectServer) (obj2delete : RemoteObject) : ObjectServer :=
  match s.allObjects.toList.find? fun entry ↦ entry.2 = obj2delete with
  | none => s
  | some (id, obj) =>
    { s.distributeMessage (.deleteObject obj.objId) with allObjects := s.allObjects.erase id }

/-- `drop_client`, `src_jni/engine_code/server.cc:351–356`. -/
def dropClient (s : ObjectServer) (agent : Int32) : ObjectServer :=
  { s with clientAgents := s.clientAgents.erase agent }

/-- `route_incomming_message` on a request to delete an object,
`src_jni/engine_code/server.cc:393–402`; the agent of a request for none is dropped. -/
def routeDeletion (s : ObjectServer) (agent identifier : Int32) : ObjectServer :=
  match s.allObjects[identifier]? with
  | none => s.dropClient agent
  | some obj => s.deleteObject obj

end ObjectServer

namespace ObjectClient

/-- `flush_all_objects`, `src_jni/engine_code/client.cc:81–86`. -/
def flushAllObjects (c : ObjectClient) : ObjectClient :=
  { c with
    allObjects := ∅
    registeredObjects := c.registeredObjects.filter fun obj ↦ c.allObjects[obj.objId]? ≠ some obj }

/-- `on_message_received` on a message that deletes an object,
`src_jni/engine_code/client.cc:162–170`, with `unlink_object`. -/
def onDeleteObject (c : ObjectClient) (objid : Int32) (fault : Option ClientFault) :
    Except CreationError Unit × ObjectClient :=
  match c.allObjects[objid]? with
  | none => (.ok (), c)
  | some obj =>
    if fault = some .onDelete then (.error .thrown, c)
    else
      (.ok (),
        { c with
          allObjects := c.allObjects.erase objid
          registeredObjects := c.registeredObjects.erase obj })

/-- `on_message_received`, `src_jni/engine_code/client.cc:109–170`, on messages about objects and
those before them. -/
def onMessageReceived (c : ObjectClient) (msg : ServerMessage) (fault : Option ClientFault) :
    Except CreationError Unit × ObjectClient :=
  match msg with
  | .createObject values => c.onCreateObject values fault
  | .deleteObject objid => c.onDeleteObject objid fault
  | _ => (.ok (), c)

end ObjectClient

/-- An open connection of the client: its agent, how many messages the client has processed, the
deletion requests under way, and whether processing has thrown. -/
structure ObjectConnection where
  agent : Int32
  processed : Nat
  requests : List Int32
  threw : Bool
  deriving DecidableEq

/-- The server and a client. -/
structure ObjectSession where
  server : ObjectServer
  client : ObjectClient
  connection : Option ObjectConnection

/-- What happens to them. -/
inductive SessionOp
  | create (f : ObjectFactory) (fault : Option ServerFault)
  | delete (obj : RemoteObject)
  | dropAgent (agent : Int32)
  | connect
  | disconnect
  | request (objid : Int32)
  | serveRequest
  | process (fault : Option ClientFault)

namespace ObjectSession

/-- Before the first object and the first connection. -/
def initial : ObjectSession := ⟨.initial, ⟨∅, [], 0, false⟩, none⟩

/-- The connection is closed, and `on_connection_dropped` is called on the client. -/
def disconnect (s : ObjectSession) : ObjectSession :=
  match s.connection with
  | none => s
  | some _ => { s with client := s.client.flushAllObjects, connection := none }

/-- `connect_client`, `src_jni/engine_code/client.cc:226–256`, and `do_accept`. -/
def connect (s : ObjectSession) : ObjectSession :=
  { s.disconnect with
    server := s.server.accept
    connection := some ⟨s.server.nextClientAgentId, 0, [], false⟩ }

/-- The client processes the next message. If that throws, the connection counts as dropped, though
it stays open, `src_jni/remote_interface.cc:299–312`. -/
def processNext (s : ObjectSession) (fault : Option ClientFault) : ObjectSession :=
  match s.connection with
  | none => s
  | some conn =>
    match (s.server.sent conn.agent)[conn.processed]? with
    | none => s
    | some msg =>
      match s.client.onMessageReceived msg fault with
      | (.ok _, client) =>
        { s with client, connection := some { conn with processed := conn.processed + 1 } }
      | (.error _, client) =>
        { s with
          client := client.flushAllObjects
          connection := some { conn with processed := conn.processed + 1, threw := true } }

/-- The server processes the next request. -/
def serveRequest (s : ObjectSession) : ObjectSession :=
  match s.connection with
  | some ⟨agent, processed, identifier :: requests, threw⟩ =>
    { s with
      server := s.server.routeDeletion agent identifier
      connection := some ⟨agent, processed, requests, threw⟩ }
  | _ => s

/-- One step. The server notices by itself that a connection has been closed. -/
def step (s : ObjectSession) : SessionOp → ObjectSession
  | .create f fault => { s with server := (s.server.createObjectFromFactory f fault).2 }
  | .delete obj => { s with server := s.server.deleteObject obj }
  | .dropAgent agent =>
    if s.connection.map ObjectConnection.agent = some agent then s
    else { s with server := s.server.dropClient agent }
  | .connect => s.connect
  | .disconnect => s.disconnect
  | .request objid =>
    { s with
      connection := s.connection.map fun conn ↦
        { conn with requests := conn.requests ++ [objid] } }
  | .serveRequest => s.serveRequest
  | .process fault => s.processNext fault

/-- A client that has processed all messages has not thrown, and has the objects of the server,
each from the same factory. -/
def Agrees (s : ObjectSession) : Prop :=
  ∀ conn, s.connection = some conn → conn.processed = (s.server.sent conn.agent).length →
    conn.threw = false ∧ ∀ id : Int32,
      s.client.allObjects[id]?.map RemoteObject.factory =
        s.server.allObjects[id]?.map RemoteObject.factory

/-- No creation fails once its object is in `all_objects`, or is given the id of an object; a client
asks for the deletion of objects that there are; and what it processes throws nothing: the code of
the objects does not, and nothing that is to be there once is created a second time. -/
def Regular (s : ObjectSession) : SessionOp → Prop
  | .create _ fault => fault ≠ some .init ∧ fault ≠ some .serialize ∧
      s.server.lastObjId + 1 ∉ s.server.allObjects
  | .serveRequest => ∀ agent processed identifier requests threw,
      s.connection = some ⟨agent, processed, identifier :: requests, threw⟩ →
        identifier ∈ s.server.allObjects
  | .process fault => fault = none ∧ ∀ conn objid type f, s.connection = some conn →
      (s.server.sent conn.agent)[conn.processed]? = some (.createObject ⟨objid, some type⟩) →
        ObjectFactory.byName type = some f →
          ¬ (f.staticSingleObject = true ∧ s.client.clientsideObjCreated = true)
  | _ => True

end ObjectSession

/-! ## Sets of objects -/

/-- The ids of some objects, each with the factory of its object. -/
abbrev ObjectSet := Int32 → Option ObjectFactory

/-- The objects of a table. -/
def objectSet (allObjects : Std.ExtTreeMap Int32 RemoteObject) : ObjectSet :=
  fun id ↦ allObjects[id]?.map RemoteObject.factory

/-- What a message makes of a set of objects. An object that is there already, or whose id is none,
is not added. -/
def ServerMessage.apply (objects : ObjectSet) : ServerMessage → Option ObjectSet
  | .createObject ⟨some objid, some type⟩ =>
    match ObjectFactory.byName type with
    | none => none
    | some f =>
      if objects objid = none ∧ 0 ≤ objid then some (Function.update objects objid (some f))
      else none
  | .createObject _ => none
  | .deleteObject objid => some (Function.update objects objid none)
  | _ => some objects

@[simp]
theorem objectSet_empty : objectSet ∅ = fun _ ↦ none := by
  funext id
  simp [objectSet]

@[simp]
theorem objectSet_insert (allObjects : Std.ExtTreeMap Int32 RemoteObject) (id : Int32)
    (obj : RemoteObject) :
    objectSet (allObjects.insert id obj) =
      Function.update (objectSet allObjects) id (some obj.factory) := by
  funext other
  simp only [objectSet, Std.ExtTreeMap.getElem?_insert, Std.LawfulEqCmp.compare_eq_iff_eq]
  split
  · next h => rw [h, Function.update_self, Option.map_some]
  · next h =>
    rw [Function.update_of_ne (Ne.symm h)]
    rfl

@[simp]
theorem objectSet_erase (allObjects : Std.ExtTreeMap Int32 RemoteObject) (id : Int32) :
    objectSet (allObjects.erase id) = Function.update (objectSet allObjects) id none := by
  funext other
  simp only [objectSet, Std.ExtTreeMap.getElem?_erase, Std.LawfulEqCmp.compare_eq_iff_eq]
  split
  · next h => rw [h, Function.update_self, Option.map_none]
  · next h =>
    rw [Function.update_of_ne (Ne.symm h)]
    rfl

theorem objectSet_eq_none {allObjects : Std.ExtTreeMap Int32 RemoteObject} {id : Int32} :
    objectSet allObjects id = none ↔ id ∉ allObjects := by
  simp [objectSet]

theorem apply_addCreateObjectHeader {objects : ObjectSet} {obj : RemoteObject}
    (hnew : objects obj.objId = none) (hid : 0 ≤ obj.objId) :
    (ObjectServer.addCreateObjectHeader obj).apply objects =
      some (Function.update objects obj.objId (some obj.factory)) := by
  rw [ObjectServer.addCreateObjectHeader, ServerMessage.apply, ObjectFactory.byName_type]
  exact if_pos ⟨hnew, hid⟩

/-! ## What the server does -/

namespace ObjectServer

/-- Every object is found under its own id. -/
def KeepsIds (s : ObjectServer) : Prop :=
  ∀ (id : Int32) (obj : RemoteObject), s.allObjects[id]? = some obj → obj.objId = id ∧ 0 ≤ id

/-- Every agent is told what leads from the objects before to the objects after. -/
def Publishes (s t : ObjectServer) : Prop :=
  t.clientAgents = s.clientAgents ∧
    ∃ msgs, (∀ agent ∈ s.clientAgents, t.sent agent = s.sent agent ++ msgs) ∧
      CatchesUp ServerMessage.apply (objectSet s.allObjects) msgs
        (objectSet t.allObjects)

namespace Publishes

/-- A change that nobody has to be told about. -/
theorem refl {s t : ObjectServer} (hagents : t.clientAgents = s.clientAgents)
    (hsent : t.sent = s.sent) (hobjects : t.allObjects = s.allObjects) : s.Publishes t := by
  refine ⟨hagents, [], fun agent _ ↦ ?_, ?_⟩
  · rw [hsent, List.append_nil]
  · rw [hobjects, catchesUp_nil]

/-- A change of the objects, and one message about it. -/
theorem distributeMessage (s : ObjectServer) {t : ObjectServer} {msg : ServerMessage}
    (hagents : t.clientAgents = s.clientAgents) (hsent : t.sent = (s.distributeMessage msg).sent)
    (happly : msg.apply (objectSet s.allObjects) = some (objectSet t.allObjects)) :
    s.Publishes t := by
  refine ⟨hagents, [msg], fun agent hagent ↦ ?_, ?_⟩
  · rw [hsent]
    exact if_pos hagent
  · exact catchesUp_cons.mpr ⟨_, happly, catchesUp_nil.mpr rfl⟩

end Publishes

/-- An object under its own id, and the others. -/
theorem KeepsIds.insert {s t : ObjectServer} (hkeeps : s.KeepsIds) (obj : RemoteObject)
    (hid : 0 ≤ obj.objId) (hobjects : t.allObjects = s.allObjects.insert obj.objId obj) :
    t.KeepsIds := by
  intro id other hother
  simp only [hobjects, Std.ExtTreeMap.getElem?_insert, Std.LawfulEqCmp.compare_eq_iff_eq] at hother
  split at hother
  · next h =>
    obtain rfl := Option.some.inj hother
    exact ⟨h, h ▸ hid⟩
  · exact hkeeps id other hother

theorem KeepsIds.erase {s t : ObjectServer} (hkeeps : s.KeepsIds) (id : Int32)
    (hobjects : t.allObjects = s.allObjects.erase id) : t.KeepsIds := by
  intro key other hother
  simp only [hobjects, Std.ExtTreeMap.getElem?_erase, Std.LawfulEqCmp.compare_eq_iff_eq] at hother
  split at hother
  · cases hother
  · exact hkeeps key other hother

theorem deleteObject_publishes {s : ObjectServer} (hkeeps : s.KeepsIds)
    (obj2delete : RemoteObject) :
    s.Publishes (s.deleteObject obj2delete) ∧ (s.deleteObject obj2delete).KeepsIds := by
  rw [deleteObject]
  split
  · exact ⟨.refl rfl rfl rfl, hkeeps⟩
  · next id obj hfind =>
    have hmem : (id, obj) ∈ s.allObjects.toList := List.mem_of_find?_eq_some hfind
    have hid : obj.objId = id :=
      (hkeeps id obj (Std.ExtTreeMap.mem_toList_iff_getElem?_eq_some.mp hmem)).1
    refine ⟨.distributeMessage s rfl rfl ?_, hkeeps.erase id rfl⟩
    rw [ServerMessage.apply, hid, objectSet_erase]

/-- A creation that does not fail once its object is in the table. -/
theorem createObjectFromFactory_publishes {s : ObjectServer} (hkeeps : s.KeepsIds)
    (f : ObjectFactory) {fault : Option ServerFault} (hinit : fault ≠ some .init)
    (hserialize : fault ≠ some .serialize) (hnew : s.lastObjId + 1 ∉ s.allObjects) :
    s.Publishes (s.createObjectFromFactory f fault).2 ∧
      (s.createObjectFromFactory f fault).2.KeepsIds := by
  rw [createObjectFromFactory, reserveNewObjId]
  by_cases hoverflow : s.lastObjId + 1 < 0
  · simp only [hoverflow, if_true]
    exact ⟨.refl rfl rfl rfl, hkeeps⟩
  · have hid : 0 ≤ s.lastObjId + 1 := Int32.not_lt.mp hoverflow
    simp only [hoverflow, if_false, createObjectOnServer]
    cases fault with
    | some fault =>
      cases fault with
      | factory | constructor | listener => exact ⟨.refl rfl rfl rfl, hkeeps⟩
      | init => exact absurd rfl hinit
      | serialize => exact absurd rfl hserialize
    | none =>
      let obj : RemoteObject := ⟨s.constructed, s.lastObjId + 1, f⟩
      have hnone : objectSet s.allObjects obj.objId = none := objectSet_eq_none.mpr hnew
      have happly := apply_addCreateObjectHeader hnone hid
      rw [← objectSet_insert] at happly
      exact ⟨.distributeMessage s rfl rfl happly, hkeeps.insert obj hid rfl⟩

/-- A set of objects with more of them. -/
private def addAll (objects : ObjectSet) : List (Int32 × RemoteObject) → ObjectSet
  | [] => objects
  | entry :: entries => addAll (Function.update objects entry.1 (some entry.2.factory)) entries

/-- The messages about objects that are all new. -/
private theorem catchesUp_headers (objects : ObjectSet) (entries : List (Int32 × RemoteObject))
    (hown : ∀ entry ∈ entries, entry.2.objId = entry.1 ∧ 0 ≤ entry.1)
    (hdistinct : entries.Pairwise fun a b ↦ a.1 ≠ b.1)
    (hnew : ∀ entry ∈ entries, objects entry.1 = none) :
    CatchesUp ServerMessage.apply objects
      (entries.map fun entry ↦ addCreateObjectHeader entry.2)
      (addAll objects entries) := by
  induction entries generalizing objects with
  | nil => exact catchesUp_nil.mpr rfl
  | cons entry entries ih =>
    obtain ⟨⟨hid, hnonneg⟩, hown⟩ := List.forall_mem_cons.mp hown
    obtain ⟨hne, hdistinct⟩ := List.pairwise_cons.mp hdistinct
    obtain ⟨hnone, hnew⟩ := List.forall_mem_cons.mp hnew
    rw [List.map_cons, catchesUp_cons, addAll]
    refine ⟨_, apply_addCreateObjectHeader (hid ▸ hnone) (hid ▸ hnonneg), ?_⟩
    rw [hid]
    refine ih _ hown hdistinct fun other hother ↦ ?_
    rw [Function.update_of_ne (hne other hother).symm]
    exact hnew other hother

private theorem addAll_apply (objects : ObjectSet) (entries : List (Int32 × RemoteObject))
    (hdistinct : entries.Pairwise fun a b ↦ a.1 ≠ b.1) (id : Int32) :
    (∀ obj, (id, obj) ∈ entries → addAll objects entries id = some obj.factory) ∧
      ((∀ obj, (id, obj) ∉ entries) → addAll objects entries id = objects id) := by
  induction entries generalizing objects with
  | nil => exact ⟨nofun, fun _ ↦ rfl⟩
  | cons entry entries ih =>
    obtain ⟨hne, hdistinct⟩ := List.pairwise_cons.mp hdistinct
    obtain ⟨hfound, habsent⟩ :=
      ih (Function.update objects entry.1 (some entry.2.factory)) hdistinct
    rw [addAll]
    constructor
    · rintro obj (_ | ⟨_, hmem⟩)
      · rw [habsent fun other hother ↦ hne _ hother rfl, Function.update_self]
      · exact hfound obj hmem
    · intro hnone
      rw [habsent fun obj hmem ↦ hnone obj (List.mem_cons_of_mem _ hmem)]
      refine Function.update_of_ne (fun h ↦ ?_) ..
      exact hnone entry.2 (h ▸ List.mem_cons_self)

/-- A client that starts with nothing gets all objects. -/
theorem catchesUp_allObjectsMessages {s : ObjectServer} (hkeeps : s.KeepsIds) :
    CatchesUp ServerMessage.apply (objectSet ∅) s.allObjectsMessages (objectSet s.allObjects) := by
  have hdistinct : s.allObjects.toList.Pairwise fun a b ↦ a.1 ≠ b.1 :=
    s.allObjects.distinct_keys_toList.imp fun {a b} hne heq ↦
      hne (Std.LawfulEqCmp.compare_eq_iff_eq.mpr heq)
  have hcatches := catchesUp_headers (objectSet ∅) s.allObjects.toList
    (fun entry hmem ↦ hkeeps _ _ (Std.ExtTreeMap.mem_toList_iff_getElem?_eq_some.mp hmem))
    hdistinct (fun entry _ ↦ by rw [objectSet_empty])
  have hobjects : addAll (objectSet ∅) s.allObjects.toList = objectSet s.allObjects := ?_
  · rwa [hobjects] at hcatches
  funext id
  obtain ⟨hfound, habsent⟩ := addAll_apply (objectSet ∅) s.allObjects.toList hdistinct id
  cases hget : s.allObjects[id]? with
  | none =>
    rw [habsent fun obj hmem ↦ ?_, objectSet_empty, objectSet, hget]
    · rfl
    · rw [Std.ExtTreeMap.mem_toList_iff_getElem?_eq_some, hget] at hmem
      cases hmem
  | some obj =>
    rw [hfound obj (Std.ExtTreeMap.mem_toList_iff_getElem?_eq_some.mpr hget), objectSet, hget]
    rfl

end ObjectServer

/-! ## What the client does -/

/-- A message that can be applied to its objects is processed by the client unless its code throws,
or unless the message creates a second object where there is to be one. -/
theorem ObjectClient.onMessageReceived_eq {c : ObjectClient} {msg : ServerMessage}
    {objects : ObjectSet} (happly : msg.apply (objectSet c.allObjects) = some objects)
    (hsingle : ∀ objid type f, msg = .createObject ⟨objid, some type⟩ →
      ObjectFactory.byName type = some f →
        ¬ (f.staticSingleObject = true ∧ c.clientsideObjCreated = true)) :
    ∃ c', c.onMessageReceived msg none = (.ok (), c') ∧ objectSet c'.allObjects = objects := by
  cases msg with
  | protocolVersion | clientId => exact ⟨c, rfl, Option.some.inj happly⟩
  | deleteObject objid =>
    obtain rfl := Option.some.inj happly
    rw [onMessageReceived, onDeleteObject]
    cases hget : c.allObjects[objid]? with
    | none =>
      refine ⟨c, rfl, (Function.update_eq_self_iff.mpr ?_).symm⟩
      rw [objectSet, hget]
      rfl
    | some obj => exact ⟨_, if_neg (Option.some_ne_none _).symm, objectSet_erase ..⟩
  | createObject header =>
    obtain ⟨_ | objid, _ | type⟩ := header
    · cases happly
    · cases happly
    · cases happly
    cases hname : ObjectFactory.byName type with
    | none =>
      rw [ServerMessage.apply, hname] at happly
      cases happly
    | some f =>
      rw [ServerMessage.apply, hname] at happly
      obtain ⟨⟨hnew, hid⟩, happly⟩ := Option.ite_none_right_eq_some.mp happly
      obtain rfl := Option.some.inj happly
      obtain ⟨c', hcreate, hobjects⟩ : ∃ c', c.create f (some objid) none =
          (.ok ⟨c.constructed, objid, f⟩, c') ∧ c'.allObjects = c.allObjects := by
        refine ⟨_, Prod.ext ((c.create_eq_ok ..).mpr ?_) rfl, (c.create_tables ..).1⟩
        exact ⟨hsingle _ _ _ rfl hname, rfl, (Option.some_ne_none _).symm, rfl⟩
      refine ⟨{ c' with
        registeredObjects := c'.registeredObjects ++ [⟨c.constructed, objid, f⟩]
        allObjects := c'.allObjects.insert objid ⟨c.constructed, objid, f⟩ }, ?_, ?_⟩
      · rw [onMessageReceived, onCreateObject, createObjectOnClient]
        simp only [hname, hcreate]
        rw [if_neg (Option.some_ne_none _).symm, if_neg (Option.some_ne_none _).symm]
        simp only [linkObject, hobjects, objectSet_eq_none.mp hnew, Int32.not_lt.mpr hid, if_false]
      · rw [objectSet_insert, hobjects]

/-! ## Runs -/

namespace ObjectSession

/-- The agent of an open connection is told what leads from the objects of the client to those of
the server. -/
structure InStep (s : ObjectSession) (conn : ObjectConnection) : Prop where
  agent : conn.agent ∈ s.server.clientAgents
  threw : conn.threw = false
  processed : conn.processed ≤ (s.server.sent conn.agent).length
  catchesUp : CatchesUp ServerMessage.apply (objectSet s.client.allObjects)
    ((s.server.sent conn.agent).drop conn.processed) (objectSet s.server.allObjects)

/-- What every step keeps. -/
structure Sound (s : ObjectSession) : Prop where
  keeps : s.server.KeepsIds
  offline : s.connection = none → s.client.allObjects = ∅
  online : ∀ conn, s.connection = some conn → s.InStep conn

theorem sound_initial : initial.Sound where
  keeps := nofun
  offline := fun _ ↦ rfl
  online := nofun

/-- A client that is in step and has processed everything has what the server has. -/
theorem Sound.agrees {s : ObjectSession} (h : s.Sound) : s.Agrees := by
  intro conn hconn hall
  have hstep := h.online conn hconn
  have heq := hstep.catchesUp
  rw [hall, List.drop_length, catchesUp_nil] at heq
  exact ⟨hstep.threw, fun id ↦ congrFun heq id⟩

/-- What the server tells everybody keeps the client in step. -/
theorem Sound.publishes {s : ObjectSession} (h : s.Sound) {server : ObjectServer}
    (hpublishes : s.server.Publishes server) (hkeeps : server.KeepsIds) :
    ({ s with server } : ObjectSession).Sound where
  keeps := hkeeps
  offline := h.offline
  online := by
    intro conn hconn
    obtain ⟨hagents, msgs, hsent, hcatches⟩ := hpublishes
    obtain ⟨hagent, hthrew, hprocessed, hcatchesUp⟩ := h.online conn hconn
    refine ⟨hagents ▸ hagent, hthrew, ?_, ?_⟩
    · rw [hsent conn.agent hagent, List.length_append]
      exact Nat.le_add_right_of_le hprocessed
    · rw [hsent conn.agent hagent, List.drop_append_of_le_length hprocessed]
      exact hcatchesUp.append hcatches

/-- What a connection is asked to do does not matter. -/
theorem InStep.requests {s : ObjectSession} {conn : ObjectConnection} (h : s.InStep conn)
    (requests : List Int32) (connection : Option ObjectConnection) :
    ({ s with connection } : ObjectSession).InStep { conn with requests } :=
  ⟨h.agent, h.threw, h.processed, h.catchesUp⟩

theorem Sound.disconnect {s : ObjectSession} (h : s.Sound) :
    s.disconnect.Sound ∧ s.disconnect.client.allObjects = ∅ := by
  rw [ObjectSession.disconnect]
  split
  · next hnone => exact ⟨h, h.offline hnone⟩
  · exact ⟨⟨h.keeps, fun _ ↦ rfl, nofun⟩, rfl⟩

theorem Sound.connect {s : ObjectSession} (h : s.Sound) : s.connect.Sound where
  keeps := h.keeps
  offline := nofun
  online := by
    rintro conn hconn
    obtain rfl := Option.some.inj hconn
    have hsent : s.connect.server.sent s.server.nextClientAgentId =
        .protocolVersion :: .clientId s.server.nextClientAgentId :: s.server.allObjectsMessages :=
      Function.update_self ..
    refine ⟨Std.ExtTreeSet.mem_insert_self, rfl, Nat.zero_le _, ?_⟩
    show CatchesUp _ (objectSet s.disconnect.client.allObjects) (s.connect.server.sent _) _
    rw [hsent, h.disconnect.2, catchesUp_cons]
    refine ⟨_, rfl, catchesUp_cons.mpr ⟨_, rfl, ?_⟩⟩
    exact ObjectServer.catchesUp_allObjectsMessages h.keeps

theorem Sound.processNext {s : ObjectSession} (h : s.Sound) {fault : Option ClientFault}
    (hregular : s.Regular (.process fault)) : (s.processNext fault).Sound := by
  obtain ⟨rfl, hsingle⟩ := hregular
  rw [ObjectSession.processNext]
  split
  · exact h
  · next conn hconn =>
    split
    · exact h
    · next msg hmsg =>
      obtain ⟨hagent, hthrew, hprocessed, hcatchesUp⟩ := h.online conn hconn
      obtain ⟨objects, happly, hrest⟩ := hcatchesUp.consume hmsg
      obtain ⟨client, hclient, hobjects⟩ := ObjectClient.onMessageReceived_eq happly
        fun objid type f hcreate ↦ hsingle conn objid type f hconn (hcreate ▸ hmsg)
      rw [hclient]
      refine ⟨h.keeps, nofun, fun conn' hconn' ↦ ?_⟩
      obtain rfl := Option.some.inj hconn'
      refine ⟨hagent, hthrew, (List.getElem?_eq_some_iff.mp hmsg).1, ?_⟩
      rw [hobjects]
      exact hrest

theorem Sound.serveRequest {s : ObjectSession} (h : s.Sound)
    (hregular : s.Regular .serveRequest) : s.serveRequest.Sound := by
  rw [ObjectSession.serveRequest]
  split
  · next agent processed identifier requests threw hconn =>
    have hmem := hregular agent processed identifier requests threw hconn
    have hstep : ({ s with
        connection := some ⟨agent, processed, requests, threw⟩ } : ObjectSession).Sound :=
      ⟨h.keeps, nofun, fun conn hconn' ↦ by
        obtain rfl := Option.some.inj hconn'
        exact (h.online _ hconn).requests requests _⟩
    rw [ObjectServer.routeDeletion]
    split
    · next hnone =>
      exact absurd hmem (by simpa using hnone)
    · next obj hobj =>
      obtain ⟨hpublishes, hkeeps⟩ := ObjectServer.deleteObject_publishes h.keeps obj
      exact hstep.publishes hpublishes hkeeps
  · exact h

theorem Sound.step {s : ObjectSession} (h : s.Sound) {op : SessionOp} (hregular : s.Regular op) :
    (s.step op).Sound := by
  cases op with
  | create f fault =>
    obtain ⟨hinit, hserialize, hnew⟩ := hregular
    obtain ⟨hpublishes, hkeeps⟩ :=
      ObjectServer.createObjectFromFactory_publishes h.keeps f hinit hserialize hnew
    exact h.publishes hpublishes hkeeps
  | delete obj =>
    obtain ⟨hpublishes, hkeeps⟩ := ObjectServer.deleteObject_publishes h.keeps obj
    exact h.publishes hpublishes hkeeps
  | dropAgent agent =>
    rw [ObjectSession.step]
    split
    · exact h
    · next hother =>
      refine ⟨h.keeps, h.offline, fun conn hconn ↦ ?_⟩
      obtain ⟨hagent, hthrew, hprocessed, hcatchesUp⟩ := h.online conn hconn
      refine ⟨?_, hthrew, hprocessed, hcatchesUp⟩
      have hne : agent ≠ conn.agent := by
        rintro rfl
        exact hother (congrArg (Option.map ObjectConnection.agent) hconn)
      exact Std.ExtTreeSet.mem_erase.mpr ⟨by simpa using hne, hagent⟩
  | connect => exact h.connect
  | disconnect => exact h.disconnect.1
  | request objid =>
    refine ⟨h.keeps, fun hnone ↦ h.offline (Option.map_eq_none_iff.mp hnone), fun conn hconn ↦ ?_⟩
    obtain ⟨conn', hconn', rfl⟩ := Option.map_eq_some_iff.mp hconn
    exact (h.online conn' hconn').requests _ _
  | serveRequest => exact h.serveRequest hregular
  | process fault => exact h.processNext hregular

end ObjectSession

/-- In every run in which no creation fails late, only objects that there are get deleted on
request, and nothing throws at the client, a client that has processed everything agrees with the
server. -/
theorem ObjectSession.objects_replicated {ops : List SessionOp} {s : ObjectSession}
    (hrun : Run (fun s op ↦ some ((), ObjectSession.step s op))
      (fun s op _ ↦ ObjectSession.Regular s op) initial ops s) : s.Agrees := by
  refine (hrun.invariant Sound (fun s op _ s' hs hregular hstep ↦ ?_) sound_initial).agrees
  obtain rfl := (Prod.mk.inj (Option.some.inj hstep)).2
  exact hs.step hregular

/-- A machine is there before the client; a sequence comes and goes, the client asks for that. -/
theorem ObjectSession.objects_replicated_sequence :
    ([.create .riMachine none, .connect, .process none, .process none, .process none,
      .create .sequence none, .process none, .request 1, .serveRequest, .process none].foldl
        ObjectSession.step initial).Agrees := by
  refine @ObjectSession.objects_replicated [.create .riMachine none, .connect, .process none,
    .process none, .process none, .create .sequence none, .process none, .request 1, .serveRequest,
    .process none] _ ?_
  have single : ∀ {s : ObjectSession} {f : ObjectFactory}, s.client.clientsideObjCreated = false →
      ¬ (f.staticSingleObject = true ∧ s.client.clientsideObjCreated = true) :=
    fun hfalse h ↦ Bool.false_ne_true (hfalse.symm.trans h.2)
  refine .cons rfl ⟨nofun, nofun, by decide⟩ ?_
  refine .cons rfl trivial ?_
  refine .cons rfl ⟨rfl, fun _ _ _ _ _ _ _ ↦ single rfl⟩ ?_
  refine .cons rfl ⟨rfl, fun _ _ _ _ _ _ _ ↦ single rfl⟩ ?_
  refine .cons rfl ⟨rfl, fun _ _ _ _ _ _ _ ↦ single rfl⟩ ?_
  refine .cons rfl ⟨nofun, nofun, by decide⟩ ?_
  refine .cons rfl ⟨rfl, fun _ _ _ _ _ _ _ ↦ single rfl⟩ ?_
  refine .cons rfl trivial ?_
  refine .cons rfl (fun _ _ _ _ _ h ↦ ?_) ?_
  · obtain ⟨rfl, rfl, hrequests, rfl⟩ := ObjectConnection.mk.inj (Option.some.inj h)
    obtain ⟨rfl, rfl⟩ := List.cons.inj hrequests
    decide
  refine .cons rfl ⟨rfl, fun _ _ _ _ _ _ _ ↦ single rfl⟩ ?_
  exact .nil _

/-- A client with scales connects again: creating them throws, and it has no objects. A client asks
twice for the deletion of an object: its agent is dropped, and it is not told about the next one. A
creation fails late: a connected client is not told about the object. -/
theorem ObjectSession.not_objects_replicated :
    let again := [.create .scales none, .connect, .process none, .process none, .process none,
      .disconnect, .connect, .process none, .process none, .process none].foldl
        ObjectSession.step initial
    let twice := [.create .sequence none, .connect, .process none, .process none, .process none,
      .request 0, .request 0, .serveRequest, .serveRequest, .process none,
      .create .sequence none].foldl ObjectSession.step initial
    let late := [.connect, .process none, .process none, .create .riMachine (some .init)].foldl
        ObjectSession.step initial
    (again.connection = some ⟨1, 3, [], true⟩ ∧ (again.server.sent 1).length = 3 ∧
        0 ∈ again.server.allObjects ∧ 0 ∉ again.client.allObjects) ∧
      (twice.connection = some ⟨0, 4, [], false⟩ ∧ (twice.server.sent 0).length = 4 ∧
        1 ∈ twice.server.allObjects ∧ 1 ∉ twice.client.allObjects) ∧
      (late.connection = some ⟨0, 2, [], false⟩ ∧ (late.server.sent 0).length = 2 ∧
        0 ∈ late.server.allObjects ∧ 0 ∉ late.client.allObjects) ∧
      ¬ again.Agrees ∧ ¬ twice.Agrees ∧ ¬ late.Agrees := by
  refine ⟨by decide, by decide, by decide, fun h ↦ ?_, fun h ↦ ?_, fun h ↦ ?_⟩
  · exact absurd (h ⟨1, 3, [], true⟩ (by decide) (by decide)).1 (by decide)
  · exact absurd ((h ⟨0, 4, [], false⟩ (by decide) (by decide)).2 1) (by decide)
  · exact absurd ((h ⟨0, 2, [], false⟩ (by decide) (by decide)).2 0) (by decide)

end Vuknob
