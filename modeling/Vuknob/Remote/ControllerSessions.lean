import Vuknob.Library.Runs
import Vuknob.Remote.ControllerDescriptions

/-!
# Sessions of remote controllers

Clients fetch controllers of a machine and set them, each over a connection of its own, while others
do the same and come and go. An id that a client has been given denotes the controller that it asked
for as long as the client is connected, and everything that it sets is set there once, in order.
-/

namespace Vuknob

open Library ItemSerializer

variable {R : Type}

/-! ## Clients and the server -/

/-- A client: its requests and the replies that are on their way, and the controllers that it holds.
`sent` is what it has set, by the names of the controllers. -/
structure ControllerClient (R : Type) where
  requests : List (List (StdString × StdString))
  replies : List StdString
  controllers : List (RIController R)
  sent : List (StdString × ControllerValue R)

/-- The machine and all who have been connected. `applied` is what has been set in the machine and
who has set it; `failed` are those whose request has thrown. -/
structure ControllerSession (R : Type) where
  memory : ControllerMemory R
  containers : ClientContainers
  clients : Nat → Option (ControllerClient R)
  connected : Nat
  applied : List (Nat × StdString × ControllerValue R)
  failed : List Nat

/-- What happens next: a client connects, asks for a controller, sets one of those that it holds,
takes a reply, or is gone, or the server takes a request of a client. -/
inductive ControllerEvent (R : Type)
  | connect
  | getController (client : Nat) (controllerName : StdString)
  | setValue (client controller : Nat) (value : ControllerValue R)
  | serve (client : Nat)
  | receive (client : Nat)
  | disconnect (client : Nat)

/-- What becomes of a request. -/
inductive RequestOutcome (R : Type)
  | failed (fault : RequestFault)
  | reply (ctrl : StdString) (containers : ClientContainers)
  | set (ctrl : Controller) (value : ControllerValue R)
  | ignored

/-- The message of `get_controller`, `src_jni/remote_interface.cc:2068–2090`. -/
def getCtrlCalls (controllerName : StdString) : List (StdString × StdString) :=
  [(str "command", str "get_ctrl"), (str "ctrlname", controllerName)]

namespace RemoteMachine

/-- The two commands of `process_message_server`, `src_jni/remote_interface.cc:2420–2688`. -/
def processMessageServer (m : RemoteMachine R) (alive : Nat → Bool) (memory : ControllerMemory R)
    (containers : ClientContainers) (src : Nat) (msg : StringMap) : Option (RequestOutcome R) :=
  match StringMap.getValue msg (str "command") with
  | .error e => some (.failed e)
  | .ok command =>
    if command = str "setctrval" then
      match processSetctrlValMessage m.texts containers src msg with
      | .error e => some (.failed e)
      | .ok none => some .ignored
      | .ok (some (ctrl, value)) => some (.set ctrl value)
    else if command = str "get_ctrl" then
      match StringMap.getValue msg (str "ctrlname") with
      | .error e => some (.failed e)
      | .ok ctrlName => do
        let (ctrl, containers) ← m.processGetCtrlMessage alive memory containers src ctrlName
        return .reply ctrl containers
    else some .ignored

end RemoteMachine

namespace ControllerSession

/-- Nobody is connected. -/
def start (memory : ControllerMemory R) : ControllerSession R :=
  ⟨memory, fun _ ↦ none, fun _ ↦ none, 0, [], []⟩

/-- Who is connected. -/
def alive (s : ControllerSession R) (k : Nat) : Bool := (s.clients k).isSome

/-- A client is replaced. -/
def withClient (s : ControllerSession R) (k : Nat) (client : Option (ControllerClient R)) :
    ControllerSession R := { s with clients := Function.update s.clients k client }

/-- The server takes the first request of a client; an exception ends the connection. -/
def serve (m : RemoteMachine R) (s : ControllerSession R) (k : Nat) :
    Option (ControllerSession R) := do
  let client ← s.clients k
  match client.requests with
  | [] => none
  | calls :: requests =>
    match ← m.processMessageServer s.alive s.memory s.containers k (travelled calls) with
    | .failed _ => return { s.withClient k none with failed := s.failed ++ [k] }
    | .reply ctrl containers =>
      let client := { client with requests, replies := client.replies ++ [ctrl] }
      return { s.withClient k (some client) with containers }
    | .set ctrl value =>
      return { s.withClient k (some { client with requests }) with
        memory := ctrl.internalSetValue m.reals value s.memory
        applied := s.applied ++ [(k, ctrl.name, value)] }
    | .ignored => return s.withClient k (some { client with requests })

/-- The client takes the first reply, `src_jni/remote_interface.cc:2077–2087`; an exception ends the
connection. -/
def receive (m : RemoteMachine R) (s : ControllerSession R) (k : Nat) :
    Option (ControllerSession R) := do
  let client ← s.clients k
  match client.replies with
  | [] => none
  | reply :: replies =>
    match RIController.ofSerialized m.texts m.fresh (Serialize.transmitted reply) with
    | .error _ => return s.withClient k none
    | .ok c =>
      return s.withClient k (some { client with replies, controllers := client.controllers ++ [c] })

/-- Carry out an event. -/
def step (m : RemoteMachine R) (s : ControllerSession R) :
    ControllerEvent R → Option (Unit × ControllerSession R)
  | .connect =>
    some ((), { s.withClient s.connected (some ⟨[], [], [], []⟩) with
      connected := s.connected + 1 })
  | .getController k controllerName => do
    let client ← s.clients k
    let requests := client.requests ++ [getCtrlCalls controllerName]
    return ((), s.withClient k (some { client with requests }))
  | .setValue k n value => do
    let client ← s.clients k
    let c ← client.controllers[n]?
    let (c', calls) := c.setValue m.texts value
    return ((), s.withClient k (some { client with
      requests := client.requests ++ [calls]
      controllers := client.controllers.set n c'
      sent := client.sent ++ [(c.name, value)] }))
  | .serve k => do return ((), ← s.serve m k)
  | .receive k => do return ((), ← s.receive m k)
  | .disconnect k => some ((), s.withClient k none)

end ControllerSession

/-! ## What is to hold -/

/-- The overload of `set_value` is the one for the type. -/
def ControllerType.Suits : ControllerType → ControllerValue R → Bool
  | .int, .int _ | .enum, .int _ | .sigid, .int _ => true
  | .bool, .bool _ => true
  | .string, .string _ => true
  | .float, .real _ | .double, .real _ => true
  | _, _ => false

/-- A value as it arrives. -/
def RealTexts.arrive (texts : RealTexts R) : ControllerValue R → ControllerValue R
  | .real x => .real (texts.rounded x)
  | .string s => .string (Serialize.transmitted s)
  | value => value

namespace RemoteMachine

variable (m : RemoteMachine R)

/-- The memory after controllers have been set by their names, one after the other. -/
def replay (applied : List (Nat × StdString × ControllerValue R)) (memory : ControllerMemory R) :
    ControllerMemory R :=
  applied.foldl (fun memory entry ↦
    match m.find entry.2.1 with
    | none => memory
    | some ctrl => ctrl.internalSetValue m.reals entry.2.2 memory) memory

/-- The id of a client denotes the controller of this name and type. -/
def Bound (containers : ClientContainers) (k : Nat) (ctrlId : Int32) (name : StdString)
    (ctType : Int32) : Prop :=
  ∃ sscc ctrl, containers k = some sscc ∧ sscc.id2ctrl ctrlId = some ctrl ∧
    m.find name = some ctrl ∧ ctType = ctrl.type.ricType

end RemoteMachine

namespace ControllerSession

/-- What a client has set in the machine. -/
def appliedBy (s : ControllerSession R) (k : Nat) : List (StdString × ControllerValue R) :=
  s.applied.filterMap fun entry ↦ if entry.1 = k then some entry.2 else none

/-- A client asks for controllers that there are, by names that can be sent, and sets values of the
type that can be sent. A client is given fewer than 2 ^ 32 controllers. -/
def Permits (m : RemoteMachine R) (s : ControllerSession R) : ControllerEvent R → Prop
  | .getController _ controllerName =>
    m.find controllerName ≠ none ∧ Solid controllerName ∧ 59 ∉ controllerName ∧ 61 ∉ controllerName
  | .setValue k n value =>
    (59 ∉ RIController.valueText m.texts value ∧ 61 ∉ RIController.valueText m.texts value) ∧
      ∀ client ∈ s.clients k, ∀ c ∈ client.controllers[n]?, ∃ type ∈ ricCase c.ctType,
        type.Suits value
  | .serve k => ∀ sscc ∈ s.containers k, sscc.ids.totalAmount.toNat + 1 < 4294967296
  | _ => True

instance decidablePermits (m : RemoteMachine R) (s : ControllerSession R)
    (event : ControllerEvent R) : Decidable (s.Permits m event) :=
  match event with
  | .getController _ controllerName => inferInstanceAs (Decidable (m.find controllerName ≠ none ∧
      Solid controllerName ∧ 59 ∉ controllerName ∧ 61 ∉ controllerName))
  | .setValue k n value => inferInstanceAs (Decidable (
      (59 ∉ RIController.valueText m.texts value ∧ 61 ∉ RIController.valueText m.texts value) ∧
        ∀ client ∈ s.clients k, ∀ c ∈ client.controllers[n]?, ∃ type ∈ ricCase c.ctType,
          type.Suits value = true))
  | .serve k => inferInstanceAs (Decidable
      (∀ sscc ∈ s.containers k, sscc.ids.totalAmount.toNat + 1 < 4294967296))
  | .connect => .isTrue trivial
  | .receive _ => .isTrue trivial
  | .disconnect _ => .isTrue trivial

end ControllerSession

end Vuknob
