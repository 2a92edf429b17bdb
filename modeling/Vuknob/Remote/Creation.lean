import Std.Data.ExtTreeMap
import Std.Data.ExtTreeSet
import Vuknob.Base.StdString

/-!
# Creating objects

`Server::create_object_from_factory`, `src_jni/engine_code/server.hh:47–72`, and what a client does
with the message that it sends, `src_jni/engine_code/client.cc:93–100,131–138`. Constructors,
listeners, callbacks and `serialize` belong to the objects; each of them may throw.
-/

namespace Vuknob

/-- The factories of `RemoteInterface`: `src_jni/remote_interface.hh:141–146`,
`src_jni/scales.hh:30` and `src_jni/engine_code/sequence.hh:42`. -/
inductive ObjectFactory
  | handleList
  | globalControlObject
  | riMachine
  | sampleBank
  | scales
  | sequence
  deriving DecidableEq

namespace ObjectFactory

/-- `get_type`. -/
def type : ObjectFactory → StdString
  | handleList => str "HandleList"
  | globalControlObject => str "GloCtrlObj"
  | riMachine => str "RIMachine"
  | sampleBank => str "SampleBank"
  | scales => str "Scales"
  | sequence => str "Sequence"

/-- The factories that are marked as static single; `create` of the one there is throws when it has
created an object before, `src_jni/scales.hh:52–66`. -/
def staticSingleObject : ObjectFactory → Bool
  | scales => true
  | _ => false

/-- `client_factories_by_name`. -/
def byName (type : StdString) : Option ObjectFactory :=
  [handleList, globalControlObject, riMachine, sampleBank, scales, sequence].find? (·.type = type)

theorem byName_type (f : ObjectFactory) : byName f.type = some f := by
  cases f <;> decide

end ObjectFactory

/-- An object, known by the how many-th of its context it is. -/
structure RemoteObject where
  address : Nat
  objId : Int32
  factory : ObjectFactory
  deriving DecidableEq

/-- The values of a message that creates an object; `none` where `get_value` or `stol` throws. -/
structure CreateObject where
  newObjid : Option Int32
  factory : Option StdString
  deriving DecidableEq

/-- What a server tells its clients about objects, and what it tells a new client first,
`src_jni/remote_interface.hh:134–140`. -/
inductive ServerMessage
  | protocolVersion
  | clientId (clid : Int32)
  | createObject (values : CreateObject)
  | deleteObject (objid : Int32)
  deriving DecidableEq

/-- What is thrown. -/
inductive CreationError
  | objIdOverflow
  | noSuchFactory
  | noSuchKey
  | staticSingleObjectAlreadyCreated
  | duplicateObjectId
  | thrown
  deriving DecidableEq

/-! ## The server -/

/-- Where the code of an object throws while the server creates it, if it does. -/
inductive ServerFault
  | factory
  | constructor
  | listener
  | init
  | serialize
  deriving DecidableEq

/-- `Server`, `src_jni/engine_code/server.hh:39–43,121–122`, with `registered_objects` of its
context and what has been sent to each agent. -/
structure ObjectServer where
  lastObjId : Int32
  allObjects : Std.ExtTreeMap Int32 RemoteObject
  registeredObjects : List RemoteObject
  constructed : Nat
  clientAgents : Std.ExtTreeSet Int32
  nextClientAgentId : Int32
  sent : Int32 → List ServerMessage

namespace ObjectServer

/-- The constructor, `src_jni/engine_code/server.cc:232`. -/
def initial : ObjectServer := ⟨-1, ∅, [], 0, ∅, 0, fun _ ↦ []⟩

/-- `add_create_object_header`, `src_jni/engine_code/server.cc:358–363`. -/
def addCreateObjectHeader (obj : RemoteObject) : ServerMessage :=
  .createObject ⟨some obj.objId, some obj.factory.type⟩

/-- `distribute_message`: all agents get the message. -/
def distributeMessage (s : ObjectServer) (msg : ServerMessage) : ObjectServer :=
  { s with sent := fun id ↦ if id ∈ s.clientAgents then s.sent id ++ [msg] else s.sent id }

/-- `reserve_new_obj_id`, `src_jni/engine_code/server.cc:83–89`. -/
def reserveNewObjId (s : ObjectServer) : Except CreationError Int32 × ObjectServer :=
  let newObjId := s.lastObjId + 1
  let s := { s with lastObjId := newObjId }
  if newObjId < 0 then (.error .objIdOverflow, s) else (.ok newObjId, s)

/-- `create_object_on_server`, `src_jni/remote_interface.hh:628–643`, with `create_and_register` and
`register_object`. -/
def createObjectOnServer (s : ObjectServer) (f : ObjectFactory) (newObjId : Int32)
    (fault : Option ServerFault) : Except CreationError RemoteObject × ObjectServer :=
  if fault = some .factory then (.error .noSuchFactory, s)
  else if fault = some .constructor then (.error .thrown, s)
  else
    let obj : RemoteObject := ⟨s.constructed, newObjId, f⟩
    let s :=
      { s with
        constructed := s.constructed + 1
        registeredObjects := s.registeredObjects ++ [obj] }
    if fault = some .listener then (.error .thrown, s) else (.ok obj, s)

/-- `remember_object`, `src_jni/engine_code/server.hh:47–60`. -/
def rememberObject (s : ObjectServer) (newObj : RemoteObject) (fault : Option ServerFault) :
    Except CreationError Unit × ObjectServer :=
  let s := { s with allObjects := s.allObjects.insert newObj.objId newObj }
  if fault = some .init then (.error .thrown, s)
  else if fault = some .serialize then (.error .thrown, s)
  else (.ok (), s.distributeMessage (addCreateObjectHeader newObj))

/-- `create_object_from_factory`, `src_jni/engine_code/server.hh:62–72`. -/
def createObjectFromFactory (s : ObjectServer) (f : ObjectFactory) (fault : Option ServerFault) :
    Except CreationError Unit × ObjectServer :=
  match s.reserveNewObjId with
  | (.error e, s) => (.error e, s)
  | (.ok newObjId, s) =>
    match s.createObjectOnServer f newObjId fault with
    | (.error e, s) => (.error e, s)
    | (.ok newObj, s) => s.rememberObject newObj fault

/-- `send_all_objects_to_new_client`, `src_jni/engine_code/server.cc:384–391`, when nothing
throws. -/
def allObjectsMessages (s : ObjectServer) : List ServerMessage :=
  s.allObjects.toList.map fun entry ↦ addCreateObjectHeader entry.2

/-- `do_accept`, `src_jni/engine_code/server.cc:268–293`. -/
def accept (s : ObjectServer) : ObjectServer :=
  let newId := s.nextClientAgentId
  { s with
    nextClientAgentId := newId + 1
    clientAgents := s.clientAgents.insert newId
    sent := Function.update s.sent newId
      (.protocolVersion :: .clientId newId :: s.allObjectsMessages) }

end ObjectServer

/-! ## A client -/

/-- Where the code of an object throws while a client creates or deletes it, if it does. -/
inductive ClientFault
  | constructor
  | listener
  | postConstructor
  | onDelete
  deriving DecidableEq

/-- `Client`, `src_jni/engine_code/client.hh:33`, with `registered_objects` of its context and the
static `clientside_obj_created`, `src_jni/scales.hh:42`. -/
structure ObjectClient where
  allObjects : Std.ExtTreeMap Int32 RemoteObject
  registeredObjects : List RemoteObject
  constructed : Nat
  clientsideObjCreated : Bool

namespace ObjectClient

/-- `create` of a factory: the constructor of `BaseObject` reads the id,
`src_jni/remote_interface.cc:434–437`. -/
def create (c : ObjectClient) (f : ObjectFactory) (newObjid : Option Int32)
    (fault : Option ClientFault) : Except CreationError RemoteObject × ObjectClient :=
  if f.staticSingleObject ∧ c.clientsideObjCreated then
    (.error .staticSingleObjectAlreadyCreated, c)
  else
    let c := { c with clientsideObjCreated := c.clientsideObjCreated || f.staticSingleObject }
    match newObjid with
    | none => (.error .noSuchKey, c)
    | some objId =>
      if fault = some .constructor then (.error .thrown, c)
      else (.ok ⟨c.constructed, objId, f⟩, { c with constructed := c.constructed + 1 })

/-- `create_object_on_client`, `src_jni/remote_interface.cc:543–558`. -/
def createObjectOnClient (c : ObjectClient) (msg : CreateObject) (fault : Option ClientFault) :
    Except CreationError RemoteObject × ObjectClient :=
  match msg.factory with
  | none => (.error .noSuchKey, c)
  | some type =>
    match ObjectFactory.byName type with
    | none => (.error .noSuchFactory, c)
    | some f =>
      match c.create f msg.newObjid fault with
      | (.error e, c) => (.error e, c)
      | (.ok obj, c) =>
        let c := { c with registeredObjects := c.registeredObjects ++ [obj] }
        if fault = some .listener then (.error .thrown, c)
        else if fault = some .postConstructor then (.error .thrown, c)
        else (.ok obj, c)

/-- `link_object`, `src_jni/engine_code/client.cc:93–100`. -/
def linkObject (c : ObjectClient) (newObj : RemoteObject) :
    Except CreationError Unit × ObjectClient :=
  if newObj.objId ∈ c.allObjects then (.error .duplicateObjectId, c)
  else if newObj.objId < 0 then (.error .objIdOverflow, c)
  else (.ok (), { c with allObjects := c.allObjects.insert newObj.objId newObj })

/-- `on_message_received` on a message that creates an object,
`src_jni/engine_code/client.cc:131–138`. -/
def onCreateObject (c : ObjectClient) (msg : CreateObject) (fault : Option ClientFault) :
    Except CreationError Unit × ObjectClient :=
  match c.createObjectOnClient msg fault with
  | (.error e, c) => (.error e, c)
  | (.ok newObj, c) => c.linkObject newObj

end ObjectClient

/-! ## All or nothing -/

/-- If the creation has failed, the tables are as they were, and so is what the clients have been
told and what a new one would be. -/
def ObjectServer.Atomic (s : ObjectServer) (result : Except CreationError Unit × ObjectServer) :
    Prop :=
  ∀ e, result.1 = .error e →
    result.2.allObjects = s.allObjects ∧ result.2.registeredObjects = s.registeredObjects ∧
      result.2.sent = s.sent ∧ result.2.allObjectsMessages = s.allObjectsMessages

/-- If the creation has failed, the tables are as they were. -/
def ObjectClient.Atomic (c : ObjectClient) (result : Except CreationError Unit × ObjectClient) :
    Prop :=
  ∀ e, result.1 = .error e →
    result.2.allObjects = c.allObjects ∧ result.2.registeredObjects = c.registeredObjects

/-- Something throws when the object has been registered. -/
def ServerFault.Late (fault : Option ServerFault) : Prop :=
  fault = some .listener ∨ fault = some .init ∨ fault = some .serialize

/-- Something throws when the object of the message has been registered: a listener,
`post_constructor_client`, or `link_object`. -/
def ObjectClient.FailsLate (c : ObjectClient) (msg : CreateObject) (fault : Option ClientFault) :
    Prop :=
  ∃ f objId, msg.factory.bind ObjectFactory.byName = some f ∧ msg.newObjid = some objId ∧
    ¬ (f.staticSingleObject = true ∧ c.clientsideObjCreated = true) ∧
    fault ≠ some .constructor ∧
    (fault = some .listener ∨ fault = some .postConstructor ∨ objId ∈ c.allObjects ∨ objId < 0)

theorem ObjectServer.atomic_iff (s : ObjectServer) (f : ObjectFactory)
    (fault : Option ServerFault) :
    s.Atomic (s.createObjectFromFactory f fault) ↔
      ¬ (0 ≤ s.lastObjId + 1 ∧ ServerFault.Late fault) := by
  have hgrown : ∀ obj : RemoteObject, s.registeredObjects ++ [obj] ≠ s.registeredObjects :=
    fun obj he ↦ by simpa using congrArg List.length he
  rw [createObjectFromFactory, reserveNewObjId]
  by_cases hid : s.lastObjId + 1 < 0
  · simp only [hid, if_true]
    refine iff_of_true (fun _ _ ↦ ⟨rfl, rfl, rfl, rfl⟩) fun h ↦ ?_
    exact absurd h.1 (Int32.not_le.mpr hid)
  · have hle : 0 ≤ s.lastObjId + 1 := Int32.not_lt.mp hid
    simp only [hid, if_false, createObjectOnServer]
    match fault with
    | none =>
      refine iff_of_true nofun ?_
      rintro ⟨-, h | h | h⟩ <;> cases h
    | some .factory | some .constructor =>
      refine iff_of_true (fun _ _ ↦ ⟨rfl, rfl, rfl, rfl⟩) ?_
      rintro ⟨-, h | h | h⟩ <;> cases h
    | some .listener =>
      exact iff_of_false (fun h ↦ hgrown _ (h _ rfl).2.1) (not_not_intro ⟨hle, .inl rfl⟩)
    | some .init =>
      exact iff_of_false (fun h ↦ hgrown _ (h _ rfl).2.1) (not_not_intro ⟨hle, .inr (.inl rfl)⟩)
    | some .serialize =>
      exact iff_of_false (fun h ↦ hgrown _ (h _ rfl).2.1) (not_not_intro ⟨hle, .inr (.inr rfl)⟩)

/-- What comes before the registration changes no table. -/
theorem ObjectClient.create_tables (c : ObjectClient) (f : ObjectFactory)
    (newObjid : Option Int32) (fault : Option ClientFault) :
    (c.create f newObjid fault).2.allObjects = c.allObjects ∧
      (c.create f newObjid fault).2.registeredObjects = c.registeredObjects := by
  rw [create]
  split
  · exact ⟨rfl, rfl⟩
  · split
    · exact ⟨rfl, rfl⟩
    · split <;> exact ⟨rfl, rfl⟩

/-- When the constructor returns. -/
theorem ObjectClient.create_eq_ok (c : ObjectClient) (f : ObjectFactory)
    (newObjid : Option Int32) (fault : Option ClientFault) (obj : RemoteObject) :
    (c.create f newObjid fault).1 = .ok obj ↔
      ¬ (f.staticSingleObject = true ∧ c.clientsideObjCreated = true) ∧
        newObjid = some obj.objId ∧ fault ≠ some .constructor ∧
        obj = ⟨c.constructed, obj.objId, f⟩ := by
  rw [create]
  split
  · next hsingle => exact iff_of_false nofun fun h ↦ h.1 hsingle
  · next hsingle =>
    split
    · exact iff_of_false nofun fun h ↦ nomatch h.2.1
    · next objId =>
      split
      · next hfault => exact iff_of_false nofun fun h ↦ h.2.2.1 hfault
      · next hfault =>
        constructor
        · intro h
          obtain rfl := Except.ok.inj h
          exact ⟨hsingle, rfl, hfault, rfl⟩
        · rintro ⟨-, hid, -, hobj⟩
          rw [hobj, Option.some.inj hid]

/-- Where the object is registered, and only there, creating it may fail too late. -/
theorem ObjectClient.failsLate_iff {c c' : ObjectClient} {msg : CreateObject}
    {fault : Option ClientFault} {f : ObjectFactory} {obj : RemoteObject}
    (hfactory : msg.factory.bind ObjectFactory.byName = some f)
    (hcreate : c.create f msg.newObjid fault = (.ok obj, c')) :
    c.FailsLate msg fault ↔ fault = some .listener ∨ fault = some .postConstructor ∨
      obj.objId ∈ c.allObjects ∨ obj.objId < 0 := by
  obtain ⟨hsingle, hid, hfault, -⟩ :=
    (c.create_eq_ok f msg.newObjid fault obj).mp (congrArg Prod.fst hcreate)
  constructor
  · rintro ⟨-, objId, -, hid', -, -, hlate⟩
    rwa [Option.some.inj (hid'.symm.trans hid)] at hlate
  · exact fun hlate ↦ ⟨f, obj.objId, hfactory, hid, hsingle, hfault, hlate⟩

theorem ObjectClient.atomic_iff (c : ObjectClient) (msg : CreateObject)
    (fault : Option ClientFault) :
    c.Atomic (c.onCreateObject msg fault) ↔ ¬ c.FailsLate msg fault := by
  have hlate : ∀ e obj (c' : ObjectClient), c'.registeredObjects = c.registeredObjects ++ [obj] →
      ¬ c.Atomic (.error e, c') := by
    intro e obj c' hgrown h
    have hsame := congrArg List.length (hgrown.symm.trans (h e rfl).2)
    simp at hsame
  rw [onCreateObject, createObjectOnClient]
  cases htype : msg.factory with
  | none =>
    refine iff_of_true (fun _ _ ↦ ⟨rfl, rfl⟩) ?_
    rintro ⟨f, objId, hf, -⟩
    rw [htype] at hf
    cases hf
  | some type =>
    cases hname : ObjectFactory.byName type with
    | none =>
      simp only [hname]
      refine iff_of_true (fun _ _ ↦ ⟨rfl, rfl⟩) ?_
      rintro ⟨f, objId, hf, -⟩
      rw [htype, Option.bind_some, hname] at hf
      cases hf
    | some f =>
      simp only [hname]
      have hfactory : msg.factory.bind ObjectFactory.byName = some f := by
        rw [htype, Option.bind_some, hname]
      have htables := c.create_tables f msg.newObjid fault
      cases hcreate : c.create f msg.newObjid fault with
      | mk result c' =>
        rw [hcreate] at htables
        cases result with
        | error e =>
          refine iff_of_true (fun _ _ ↦ htables) ?_
          rintro ⟨f', objId, hf', hid, hsingle, hfault, -⟩
          obtain rfl := Option.some.inj (hf'.symm.trans hfactory)
          have hok := (c.create_eq_ok f' msg.newObjid fault ⟨c.constructed, objId, f'⟩).mpr
            ⟨hsingle, hid, hfault, rfl⟩
          rw [hcreate] at hok
          cases hok
        | ok obj =>
          rw [failsLate_iff hfactory hcreate]
          obtain ⟨hall, hregistered⟩ := htables
          dsimp only at hall hregistered ⊢
          by_cases hlistener : fault = some .listener
          · rw [if_pos hlistener]
            refine iff_of_false (hlate _ obj _ (by rw [hregistered])) ?_
            exact not_not_intro (.inl hlistener)
          by_cases hpost : fault = some .postConstructor
          · rw [if_neg hlistener, if_pos hpost]
            refine iff_of_false (hlate _ obj _ (by rw [hregistered])) ?_
            exact not_not_intro (.inr (.inl hpost))
          rw [if_neg hlistener, if_neg hpost]
          simp only [linkObject, hall]
          by_cases hduplicate : obj.objId ∈ c.allObjects
          · rw [if_pos hduplicate]
            refine iff_of_false (hlate _ obj _ (by rw [hregistered])) ?_
            exact not_not_intro (.inr (.inr (.inl hduplicate)))
          by_cases hoverflow : obj.objId < 0
          · rw [if_neg hduplicate, if_pos hoverflow]
            refine iff_of_false (hlate _ obj _ (by rw [hregistered])) ?_
            exact not_not_intro (.inr (.inr (.inr hoverflow)))
          · rw [if_neg hduplicate, if_neg hoverflow]
            refine iff_of_true nofun ?_
            rintro (h | h | h | h)
            exacts [hlistener h, hpost h, hduplicate h, hoverflow h]

/-- Creating an object is atomic exactly if nothing throws once it has been registered. -/
theorem creation_atomic_iff (s : ObjectServer) (f : ObjectFactory) (fault : Option ServerFault)
    (c : ObjectClient) (msg : CreateObject) (clientFault : Option ClientFault) :
    (s.Atomic (s.createObjectFromFactory f fault) ↔
        ¬ (0 ≤ s.lastObjId + 1 ∧ ServerFault.Late fault)) ∧
      (c.Atomic (c.onCreateObject msg clientFault) ↔ ¬ c.FailsLate msg clientFault) :=
  ⟨s.atomic_iff f fault, c.atomic_iff msg clientFault⟩

/-- The callback of a new machine throws: the object stays in both tables, and the next client is
told about it. A client is told twice to create object 0: the second one stays registered. -/
theorem not_creation_atomic :
    let created := ObjectServer.initial.createObjectFromFactory .riMachine (some .init)
    let message : CreateObject := ⟨some 0, some (str "RIMachine")⟩
    let client := ((⟨∅, [], 0, false⟩ : ObjectClient).onCreateObject message none).2
    let again := client.onCreateObject message none
    created.1 = .error .thrown ∧ created.2.registeredObjects = [⟨0, 0, .riMachine⟩] ∧
      created.2.accept.sent 0 = [.protocolVersion, .clientId 0, .createObject message] ∧
      again.1 = .error .duplicateObjectId ∧
      client.registeredObjects = [⟨0, 0, .riMachine⟩] ∧
      again.2.registeredObjects = [⟨0, 0, .riMachine⟩, ⟨1, 0, .riMachine⟩] := by
  decide

end Vuknob
