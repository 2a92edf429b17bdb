import Mathlib.Logic.Function.Basic
import Vuknob.Base.StdString
import Vuknob.Library.PointerList

/-!
# The machine space

Data model of `src_jni/machine.hh:60–790`: the machines, their signals and the static
members of class `Machine` that describe the network. A pointer is an address. Machine
objects live in `machines` from registration to deregistration, when the last owning
`shared_ptr` goes away; a read through a pointer to no live machine is undefined and
yields `none`. Signals are never destroyed (`destroy_signal` has no caller), so a signal
pointer can always be read.
-/

namespace Vuknob

/-- `enum Dimension`, `src_jni/dynlib/dynlib.h:112–118`. -/
inductive Dimension
  | zeroD
  | oneD
  | twoD
  | midi
  | maxD
  deriving DecidableEq, Repr

/-- `enum Resolution`, `src_jni/dynlib/dynlib.h:119–127`. -/
inductive Resolution
  | bits8
  | bits16
  | bits32
  | fl32bit
  | fx8p24bit
  | ptr
  | maxR
  deriving DecidableEq, Repr

/-- Address of a `Machine` object. -/
abbrev MachineId := Nat

/-- Address of a `Machine::Signal` object. -/
abbrev SignalId := Nat

/-- `Machine::Signal::Description`, `src_jni/machine.hh:408–415`. -/
structure Description where
  dimension : Dimension
  channels : Int
  premix : Bool
  deriving DecidableEq

/-- `Machine::Signal`, `src_jni/machine.hh:344–360`, less its buffer. A missing entry of
`next` or `previous` and a null one are read alike everywhere, so both are `none`. -/
structure Signal where
  originator : MachineId
  name : StdString
  dimension : Dimension
  channels : Int
  next : MachineId → Option SignalId
  previous : MachineId → Option SignalId
  attachedMachines : Std.ExtTreeMap MachineId Int

instance : Inhabited Signal where
  default := ⟨0, [], .maxD, 0, fun _ ↦ none, fun _ ↦ none, ∅⟩

/-- The members of `Machine` that describe its place in the network,
`src_jni/machine.hh:478–486,628–636`. -/
structure Machine where
  name : StdString
  inputDescriptor : Std.ExtTreeMap StdString Description
  input : Std.ExtTreeMap StdString SignalId
  output : Std.ExtTreeMap StdString SignalId
  dependant : Std.ExtTreeMap MachineId Int
  tightlyConnected : Std.ExtTreeSet MachineId
  nextRenderChain : Option MachineId

/-- What `MachineSetListener` objects are told, `src_jni/machine.hh:118–134`. -/
inductive Notification
  | machineRegistered (m : MachineId)
  | machineUnregistered (m : MachineId)
  | inputAttached (source destination : MachineId) (output input : StdString)
  | inputDetached (source destination : MachineId) (output input : StdString)
  deriving DecidableEq

/-- The machine objects with the static members `sink` and `top_render_chain`.
`signalCount` signals have been created so far, at the addresses below it. -/
structure Space where
  machines : Std.ExtTreeMap MachineId Machine
  signals : SignalId → Signal
  signalCount : Nat
  sink : Option MachineId
  topRenderChain : Option MachineId
  notifications : List Notification

/-- What a call does: nothing defined (`none`), or a normal or exceptional return
together with the state it leaves. -/
abbrev Outcome (α : Type) := Option (Except JException α × Space)

namespace Space

/-- No machines: the program has just started. -/
def empty : Space := ⟨∅, fun _ ↦ default, 0, none, none, []⟩

/-- A call that throws, leaving `σ`. -/
def throws {α : Type} (σ : Space) (message : StdString) : Outcome α :=
  some (.error ⟨message⟩, σ)

/-- A call that returns, leaving `σ`. -/
def returns {α : Type} (σ : Space) (a : α) : Outcome α := some (.ok a, σ)

/-- Write to members of the machine at `p`. -/
def modifyMachine (σ : Space) (p : MachineId) (f : Machine → Machine) : Space :=
  { σ with machines := σ.machines.modify p f }

/-- Write to members of the signal at `s`. -/
def modifySignal (σ : Space) (s : SignalId) (f : Signal → Signal) : Space :=
  { σ with signals := Function.update σ.signals s (f (σ.signals s)) }

/-- Tell the listeners. -/
def notify (σ : Space) (n : Notification) : Space :=
  { σ with notifications := σ.notifications ++ [n] }

/-- `s->next[m]`. -/
def next (σ : Space) (m : MachineId) (s : SignalId) : Option SignalId := (σ.signals s).next m

/-- `s->previous[m]`. -/
def previous (σ : Space) (m : MachineId) (s : SignalId) : Option SignalId :=
  (σ.signals s).previous m

/-- `s->next[m] = v`; erasing the entry stores null. -/
def setNext (σ : Space) (m : MachineId) (s : SignalId) (v : Option SignalId) : Space :=
  σ.modifySignal s fun x ↦ { x with next := Function.update x.next m v }

/-- `s->previous[m] = v`; erasing the entry stores null. -/
def setPrevious (σ : Space) (m : MachineId) (s : SignalId) (v : Option SignalId) : Space :=
  σ.modifySignal s fun x ↦ { x with previous := Function.update x.previous m v }

/-! ### Reference counts in maps -/

/-- Count one more use of `k`: `Signal::attach`, `src_jni/signal.cc:867–876`, and the
`dependant` update of `src_jni/machine.cc:492–499`. -/
def countUp (counts : Std.ExtTreeMap MachineId Int) (k : MachineId) :
    Std.ExtTreeMap MachineId Int :=
  counts.insert k (counts.getD k 0 + 1)

/-- Count one use of `k` less and drop an entry that reaches zero: `Signal::detach`,
`src_jni/signal.cc:878–888`, and `decr_dep_count`, `src_jni/machine.cc:1416–1431`. -/
def countDown (counts : Std.ExtTreeMap MachineId Int) (k : MachineId) :
    Std.ExtTreeMap MachineId Int :=
  match counts[k]? with
  | none => counts
  | some c => if c - 1 = 0 then counts.erase k else counts.insert k (c - 1)

/-- `Signal::attach`, `src_jni/signal.cc:867–876`. -/
def attach (σ : Space) (s : SignalId) (m : MachineId) : Space :=
  σ.modifySignal s fun x ↦ { x with attachedMachines := countUp x.attachedMachines m }

/-- `Signal::detach`, `src_jni/signal.cc:878–888`. -/
def detach (σ : Space) (s : SignalId) (m : MachineId) : Space :=
  σ.modifySignal s fun x ↦ { x with attachedMachines := countDown x.attachedMachines m }

/-- `Signal::get_attached_machines`, `src_jni/signal.cc:890–901`. -/
def getAttachedMachines (σ : Space) (s : SignalId) : List MachineId :=
  (σ.signals s).attachedMachines.keys

/-! ### The lists through `next` and `previous` -/

/-- `Signal::link`, `src_jni/signal.cc:903–919`, the pointers read and written in the
order of the source: `ns` may be `this` itself. -/
def link (σ : Space) (this : SignalId) (m : MachineId) (ns : SignalId) :
    Except JException Space :=
  if (σ.signals this).dimension = .midi then
    .error ⟨str "Cannot attach more than one midi signal to an input."⟩
  else
    let lastNext := σ.next m this
    let σ₁ := σ.setNext m this (some ns)
    let σ₂ := σ₁.setPrevious m ns (some this)
    let σ₃ := σ₂.setNext m ns lastNext
    match lastNext with
    | none => .ok σ₃
    | some t => .ok (σ₃.setPrevious m t (σ₃.next m this))

/-- `Signal::get_next`, `src_jni/signal.cc:921–925`. -/
def getNext (σ : Space) (s : SignalId) (m : MachineId) : Option SignalId := σ.next m s

/-- The nodes of an input list are followed through `next[m]`. -/
def nextPtr (σ : Space) (m : MachineId) (s : SignalId) : Option (Option SignalId) :=
  some (σ.getNext s m)

/-- `previous[m]->next[m] = next[m]` for the found signal `s`,
`src_jni/signal.cc:933–935`. -/
def skipNext (σ : Space) (m : MachineId) (s : SignalId) : Space :=
  match σ.previous m s with
  | none => σ
  | some p => σ.setNext m p (σ.next m s)

/-- `next[m]->previous[m] = previous[m]` for the found signal `s`,
`src_jni/signal.cc:936–938`. -/
def skipPrevious (σ : Space) (m : MachineId) (s : SignalId) : Space :=
  match σ.next m s with
  | none => σ
  | some n => σ.setPrevious m n (σ.previous m s)

/-- The pointer updates of `Signal::unlink` for the found signal `s`,
`src_jni/signal.cc:933–946`: the new head and the new state. -/
def unlinkFound (σ : Space) (head : SignalId) (m : MachineId) (s : SignalId) :
    Option SignalId × Space :=
  let σ₁ := (σ.skipNext m s).skipPrevious m s
  let head' := if s = head then σ₁.next m s else some head
  (head', (σ₁.setNext m s none).setPrevious m s none)

/-- `Signal::unlink`, `src_jni/signal.cc:927–950`: look for `ns` from `this` on. The walk
does not end when the pointers run in a circle without `ns`. -/
def unlink (σ : Space) (this : SignalId) (m : MachineId) (ns : SignalId) :
    Option (Except JException (Option SignalId × Space)) :=
  match Library.locate (σ.nextPtr m) ns σ.signalCount (some this) with
  | none => none
  | some false => some (.error ⟨str "Failed to unlink signal, not in list."⟩)
  | some true => some (.ok (σ.unlinkFound this m ns))

end Space
end Vuknob
