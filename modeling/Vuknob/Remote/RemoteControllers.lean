import Vuknob.Machine.Controllers
import Vuknob.Remote.Shapes
import Vuknob.Remote.Shortcut
import Vuknob.Sequence.Servers

/-!
# Remote controllers

`RemoteInterface::RIMachine::RIController`, `src_jni/remote_interface.cc:1505–1788`: what a server
tells of a controller of a machine, how that is read by a client, and the request with which the
client sets its value. The server finds the controller by an id that it has given to this client,
`process_get_ctrl_message` and `process_setctrl_val_message`,
`src_jni/remote_interface.cc:2690–2776`.
-/

namespace Vuknob

open Library

/-! ## What is known of a controller -/

/-- The fields of `Machine::Controller` that are only shown. The floating-point limits are those of
its type, and `midi` is there if `has_midi_ctrl` is set. -/
structure ControllerDescription (R : Type) where
  title : StdString
  stepI : Int32
  minR : R
  maxR : R
  stepR : R
  enumNames : List (Int32 × StdString)
  midi : Option (Int32 × Int32)

/-- The controllers of a machine, and what is shown of them. -/
structure DescribedTable (R : Type) extends ControllerTable where
  description : StdString → ControllerDescription R

/-- The texts of floating-point numbers: `operator<<`, `std::to_string`, and `std::stof` or
`std::stod`, which throw for a number that is out of range. -/
structure RealTexts (R : Type) where
  stream : R → StdString
  decimal : R → StdString
  read : StdString → Except ConversionError R
  rounded : R → R
  plain_stream : ∀ x, 59 ∉ stream x ∧ 0 ∉ stream x
  plain_decimal : ∀ x, 59 ∉ decimal x ∧ 61 ∉ decimal x ∧ ItemSerializer.Solid (decimal x)
  read_decimal : ∀ x, read (decimal x) = .ok (rounded x)

/-- One of the structures in the union `data`, `src_jni/remote_interface.hh:986–999`. -/
structure ControllerData (α : Type) where
  min : α
  max : α
  step : α
  value : α
  deriving DecidableEq

/-- `RIController`, `src_jni/remote_interface.hh:978–1006`. A type tells which of the structures in
the union is used; they are kept apart here. -/
structure RIController (R : Type) where
  ctrlId : Int32
  ctType : Int32
  name : StdString
  title : StdString
  dataI : ControllerData Int32
  dataR : ControllerData R
  strData : StdString
  blData : Bool
  enumNames : List (Int32 × StdString)
  coarseController : Int32
  fineController : Int32
  deriving DecidableEq

/-- `RIController::Type` for a type of the machine, `src_jni/remote_interface.cc:1515–1537`. -/
def ControllerType.ricType : ControllerType → Int32
  | .int => 0
  | .float => 1
  | .bool => 2
  | .string => 3
  | .enum => 4
  | .sigid => 5
  | .double => 6

/-- The case of a switch over `ct_type`. -/
def ricCase (ctType : Int32) : Option ControllerType :=
  if ctType = 0 then some .int
  else if ctType = 1 then some .float
  else if ctType = 2 then some .bool
  else if ctType = 3 then some .string
  else if ctType = 4 then some .enum
  else if ctType = 5 then some .sigid
  else if ctType = 6 then some .double
  else none

@[simp] theorem ricCase_ricType (t : ControllerType) : ricCase t.ricType = some t := by
  cases t <;> decide

variable {R : Type}

namespace RIController

/-! ## Made of a controller -/

/-- The loop over the names of an enumeration, `src_jni/remote_interface.cc:1555–1559`. It throws at
a value without a name; with a step that is not positive it does not end, and a next value that is
no `int` is undefined. -/
def enumLoop (description : ControllerDescription R) (last : Int) :
    Nat → Int → List (Int32 × StdString) → Option (List (Int32 × StdString))
  | 0, _, _ => none
  | fuel + 1, k, names =>
    if k ≤ last then do
      let name ← description.enumNames.lookup (Int32.ofInt k)
      let next := k + description.stepI.toInt
      if 0 < description.stepI ∧ next ≤ 2147483647 then
        enumLoop description last fuel next (names ++ [(Int32.ofInt k, name)])
      else none
    else some names

/-- The names for a controller. -/
def namesFor (c : Controller) (description : ControllerDescription R) :
    Option (List (Int32 × StdString)) :=
  if c.type = .enum then
    enumLoop description c.maxI.toInt ((c.maxI.toInt - c.minI.toInt).toNat + 2) c.minI.toInt []
  else some []

/-- `has_midi_controller`, `src_jni/machine.cc:398–411`, on controllers that are -1; it throws for a
coarse controller that is not one. -/
def midiControllers : Option (Int32 × Int32) → Option (Int32 × Int32)
  | none => some (-1, -1)
  | some (coarse, fine) =>
    if (coarse < 0 ∨ 127 < coarse) ∧ coarse ≠ 1024 then none
    else some (coarse, if 0 ≤ fine ∧ fine < 128 then fine else -1)

/-- `RIController(int, Machine::Controller*)`, `src_jni/remote_interface.cc:1511–1566`. Data that is
not used with the type is left as it is in a new object. -/
def ofController (reals : Reals R) (memory : ControllerMemory R) (fresh : RIController R)
    (ctrlId : Int32) (c : Controller) (description : ControllerDescription R) :
    Option (RIController R) := do
  let real := c.type = .float ∨ c.type = .double
  let enumNames ← namesFor c description
  let (coarse, fine) ← midiControllers description.midi
  return {
    ctrlId
    ctType := c.type.ricType
    name := c.name
    title := description.title
    dataI := if real then fresh.dataI
      else ⟨c.minI, c.maxI, description.stepI, memory.word c.name⟩
    dataR := if real then ⟨description.minR, description.maxR, description.stepR,
        reals.get c (memory.real c.name)⟩
      else fresh.dataR
    strData := [(memory.text c.name).headD 0]
    blData := memory.word c.name ≠ 0
    enumNames
    coarseController := coarse
    fineController := fine }

/-! ## On the way -/

/-- `process(float)` and `process(double)`. -/
def writeReal (texts : RealTexts R) (typeIdentifier : StdString) (x : R) : StdString :=
  ItemSerializer.item typeIdentifier (texts.stream x)

/-- The four numbers of one type. -/
def writeData {α : Type} (write : α → StdString) (data : ControllerData α) : StdString :=
  write data.min ++ (write data.max ++ (write data.step ++ write data.value))

/-- The type of `enum_names`. -/
def enumShape : Shape (.item false) := .map .int .string

/-- The switch of `serderize_controller`, `src_jni/remote_interface.cc:1589–1624`, as it writes. -/
def writeCase (texts : RealTexts R) (c : RIController R) : StdString :=
  match ricCase c.ctType with
  | some .float => writeData (writeReal texts (str "float")) c.dataR
  | some .double => writeData (writeReal texts (str "double")) c.dataR
  | some .int | some .sigid => writeData ItemSerializer.processInt c.dataI
  | some .enum => writeData ItemSerializer.processInt c.dataI ++ enumShape.write c.enumNames
  | some .bool => ItemSerializer.processBool c.blData
  | some .string => ItemSerializer.processString c.strData
  | none => []

/-- `serderize_controller` with an `ItemSerializer`, `src_jni/remote_interface.cc:1582–1628`. -/
def serderizeController (texts : RealTexts R) (c : RIController R) : StdString :=
  ItemSerializer.processInt c.ctrlId ++ (ItemSerializer.processString c.name ++
    (ItemSerializer.processString c.title ++ (ItemSerializer.processInt c.ctType ++
      (c.writeCase texts ++ (ItemSerializer.processInt c.coarseController ++
        ItemSerializer.processInt c.fineController)))))

/-- `get_serialized_controller`, `src_jni/remote_interface.cc:1576–1580`. -/
def getSerializedController (texts : RealTexts R) (c : RIController R) : StdString :=
  ItemSerializer.result (c.serderizeController texts)

open ItemDeserializer (verifyType getString)

/-- `process(float&)` and `process(double&)`. -/
def readReal (texts : RealTexts R) (typeIdentifier : StdString) : Deserializing R := do
  verifyType typeIdentifier
  match texts.read (← getString) with
  | .error e => throw (.conversion e)
  | .ok x => return x

/-- The four numbers of one type. -/
def readData {α : Type} (read : Deserializing α) : Deserializing (ControllerData α) := do
  let min ← read
  let max ← read
  let step ← read
  return ⟨min, max, step, ← read⟩

/-- The names of an enumeration, read into a new map. -/
def readEnumNames : Deserializing (List (Int32 × StdString)) := ExceptT.mk fun s ↦
  match enumShape.read ([] : List (Int32 × StdString)) s with
  | (.error e, _, s) => (.error e, s)
  | (.ok _, names, s) => (.ok names, s)

/-- The switch of `serderize_controller` as it reads. -/
def readCase (texts : RealTexts R) (c : RIController R) : Deserializing (RIController R) :=
  match ricCase c.ctType with
  | some .float => return { c with dataR := ← readData (readReal texts (str "float")) }
  | some .double => return { c with dataR := ← readData (readReal texts (str "double")) }
  | some .int | some .sigid => return { c with dataI := ← readData ItemDeserializer.processInt }
  | some .enum => do
    let data ← readData ItemDeserializer.processInt
    return { c with dataI := data, enumNames := ← readEnumNames }
  | some .bool => return { c with blData := ← ItemDeserializer.processBool }
  | some .string => return { c with strData := ← ItemDeserializer.processString }
  | none => return c

/-- The MIDI controllers, which come last. -/
def readMidi (c : RIController R) : Deserializing (RIController R) := do
  let coarse ← ItemDeserializer.processInt
  return { c with coarseController := coarse, fineController := ← ItemDeserializer.processInt }

/-- `serderize_controller` with an `ItemDeserializer`. -/
def readController (texts : RealTexts R) (fresh : RIController R) :
    Deserializing (RIController R) := do
  let ctrlId ← ItemDeserializer.processInt
  let name ← ItemDeserializer.processString
  let title ← ItemDeserializer.processString
  let ctType ← ItemDeserializer.processInt
  readMidi (← readCase texts { fresh with ctrlId, name, title, ctType })

/-- `RIController(send_obj_message, serialized)`, `src_jni/remote_interface.cc:1568–1574`; `fresh`
is what is in a new object. -/
def ofSerialized (texts : RealTexts R) (fresh : RIController R) (serialized : StdString) :
    Except ItemFault (RIController R) :=
  match Serialize.decodeString serialized with
  | none => .error .undefined
  | some text => ((readController texts fresh).scan (.front text)).1

/-! ## Shown and set from afar -/

/-- `get_value_name`, `src_jni/remote_interface.cc:1697–1719`, of a type that is no `ric_sigid`;
`none` where it throws `NoSuchEnumValue`. -/
def getValueName (c : RIController R) (val : Int32) : Option StdString := c.enumNames.lookup val

/-- `has_midi_controller`, `src_jni/remote_interface.cc:1782–1789`: the controllers, if any. -/
def hasMidiController (c : RIController R) : Option (Int32 × Int32) :=
  if c.coarseController = -1 ∧ c.fineController = -1 then none
  else some (c.coarseController, c.fineController)

/-- A value as the overloads of `set_value` write it, `src_jni/remote_interface.cc:1722–1780`. -/
def valueText (texts : RealTexts R) : ControllerValue R → StdString
  | .int v => decimalInt v.toInt
  | .real x => texts.decimal x
  | .bool b => if b then str "true" else str "false"
  | .string s => s

/-- What the overloads of `set_value` change in the object. -/
def store (c : RIController R) : ControllerValue R → RIController R
  | .int v => { c with dataI := { c.dataI with value := v } }
  | .real x => { c with dataR := { c.dataR with value := x } }
  | .bool b => { c with blData := b }
  | .string s => { c with strData := s }

/-- The overloads of `set_value`: the object after the call, and the message that is sent, less the
id of the machine. -/
def setValue (texts : RealTexts R) (c : RIController R) (value : ControllerValue R) :
    RIController R × List (StdString × StdString) :=
  (c.store value, [(str "command", str "setctrval"), (str "ctrl_id", decimalInt c.ctrlId.toInt),
    (str "value", valueText texts value)])

end RIController

/-! ## The server -/

/-- `ServerSideControllerContainer`, `src_jni/remote_interface.hh:1066–1076`. -/
structure ServerSideControllerContainer where
  ids : IDAllocator
  id2ctrl : Int32 → Option Controller

namespace ServerSideControllerContainer

/-- A new container. -/
def new : ServerSideControllerContainer := ⟨.new 32, fun _ ↦ none⟩

/-- A controller gets a new id, `src_jni/remote_interface.cc:2716–2719`. -/
def register (sscc : ServerSideControllerContainer) (ctrl : Controller) :
    Int32 × ServerSideControllerContainer :=
  let newId := sscc.ids.getId.1.toInt32
  (newId, ⟨sscc.ids.getId.2, Function.update sscc.id2ctrl newId (some ctrl)⟩)

end ServerSideControllerContainer

/-- `client2ctrl_container`, by the number of the client's agent. An agent that is gone compares
different from every later one. -/
abbrev ClientContainers : Type := Nat → Option ServerSideControllerContainer

/-- `cleanup_stray_controllers`, `src_jni/remote_interface.cc:2690–2699`. -/
def cleanupStrayControllers (alive : Nat → Bool) (containers : ClientContainers) :
    ClientContainers := fun k ↦ if alive k then containers k else none

/-- A machine that is controlled from afar, and what is in a new object of its clients. -/
structure RemoteMachine (R : Type) extends DescribedTable R where
  reals : Reals R
  texts : RealTexts R
  fresh : RIController R

/-- `process_get_ctrl_message`, `src_jni/remote_interface.cc:2701–2728`: the reply, and the
containers. `none` where the machine has no such controller, or it cannot be described. -/
def RemoteMachine.processGetCtrlMessage (m : RemoteMachine R) (alive : Nat → Bool)
    (memory : ControllerMemory R) (containers : ClientContainers) (src : Nat)
    (ctrlName : StdString) : Option (StdString × ClientContainers) := do
  let ctrl ← m.find ctrlName
  let (newId, sscc) := ((containers src).getD .new).register ctrl
  let rico ← RIController.ofController m.reals memory m.fresh newId ctrl (m.description ctrl.name)
  return (rico.getSerializedController m.texts,
    cleanupStrayControllers alive (Function.update containers src (some sscc)))

/-- What `do_read_body` catches, `src_jni/remote_interface.cc:300–310`. -/
inductive RequestFault
  | noSuchKey
  | conversion (e : ConversionError)
  deriving DecidableEq

/-- `get_value` of a message that has arrived. -/
def StringMap.getValue (msg : StringMap) (key : StdString) : Except RequestFault StdString :=
  match msg[key]? with
  | none => .error .noSuchKey
  | some value => .ok value

/-- A conversion of the standard library. -/
def converted {α : Type} : Except ConversionError α → Except RequestFault α
  | .error e => .error (.conversion e)
  | .ok a => .ok a

/-- The value for a controller of a type, `src_jni/remote_interface.cc:2745–2773`. -/
def readValue (texts : RealTexts R) (type : ControllerType) (text : StdString) :
    Except RequestFault (ControllerValue R) :=
  match type with
  | .float | .double => (converted (texts.read text)).map .real
  | .bool => .ok (.bool (text = str "true"))
  | .string => .ok (.string text)
  | .int | .enum | .sigid => (converted (stoi text)).map .int

/-- `process_setctrl_val_message`, `src_jni/remote_interface.cc:2730–2776`: which controller is set
to which value. -/
def processSetctrlValMessage (texts : RealTexts R) (containers : ClientContainers) (src : Nat)
    (msg : StringMap) : Except RequestFault (Option (Controller × ControllerValue R)) :=
  match containers src with
  | none => .ok none
  | some sscc => do
    let ctrlId ← converted (stoi (← StringMap.getValue msg (str "ctrl_id")))
    match sscc.id2ctrl ctrlId with
    | none => .ok none
    | some ctrl =>
      return some (ctrl, ← readValue texts ctrl.type (← StringMap.getValue msg (str "value")))

end Vuknob
