import Vuknob.Base.Number
import Vuknob.Library.Runs
import Vuknob.Machine.RenderChain

/-!
# Operations on the network

The operations that build, connect, disconnect and destroy machines,
`src_jni/machine.cc:421–566,643–667,1161–1185,1318–1341,1416–1491,1577–1593,1695–1775,
1912–1920`. Every call is on a live `this`; a call through a dangling pointer, or one
that does not come back, has no outcome.
-/

namespace Vuknob
namespace Space

/-! ### Attaching and detaching one connection -/

/-- The output and the input description cannot be connected,
`src_jni/machine.cc:439–462`: a mono signal also fits a premixed input. -/
def mismatch (des : Description) (s : Signal) : Bool :=
  des.dimension ≠ s.dimension ||
    ((s.channels ≠ 1 || !des.premix) && des.channels ≠ s.channels)

/-- `input[name] = head`, or `input.erase(name)` when the list became empty. -/
def setInput (σ : Space) (this : MachineId) (name : StdString) (head : Option SignalId) :
    Space :=
  σ.modifyMachine this fun x ↦
    { x with input := match head with
        | none => x.input.erase name
        | some h => x.input.insert name h }

/-- Put `s` on the list of an input whose first signal is `head`,
`src_jni/machine.cc:482–488`. -/
def linkInput (σ : Space) (this : MachineId) (head : Option SignalId) (s : SignalId)
    (name : StdString) : Except JException Space :=
  match head with
  | none => .ok (σ.setInput this name (some s))
  | some h => σ.link h this s

/-- Count the new connection, rebuild the chain and tell the listeners,
`src_jni/machine.cc:489–508`. -/
def finishAttach (σ : Space) (this m : MachineId) (s : SignalId)
    (outputName inputName : StdString) : Outcome Unit :=
  let σ₁ := σ.attach s this
  let σ₂ := σ₁.modifyMachine this fun x ↦ { x with dependant := countUp x.dependant m }
  match σ₂.recalculateRenderChain with
  | none => none
  | some σ₃ => (σ₃.notify (.inputAttached m this outputName inputName)).returns ()

/-- `this->internal_attach_input(m, output_name, input_name)`,
`src_jni/machine.cc:421–509`. -/
def internalAttachInput (σ : Space) (this : MachineId) (m : Option MachineId)
    (outputName inputName : StdString) : Outcome Unit :=
  match m with
  | none => σ.throws (str "Source machine pointer is NULL.")
  | some m =>
    match σ.machines[m]?, σ.machines[this]? with
    | some source, some t =>
      match source.output[outputName]? with
      | none => σ.throws (str "[" ++ outputName ++ str "]: No such output.")
      | some s =>
        match t.inputDescriptor[inputName]? with
        | none => σ.throws (str "[" ++ inputName ++ str "]: No such input")
        | some des =>
          if mismatch des (σ.signals s) then
            σ.throws (str "The signal type of output [" ++ outputName ++
              str "] does not match input [" ++ inputName ++
              str "] when trying to connect [" ++ source.name ++ str "] with [" ++
              t.name ++ str "].")
          else
            match σ.findMachineInGraph m this with
            | none => none
            | some true => σ.throws (str "Connection would create a loop.\n")
            | some false =>
              match σ.linkInput this t.input[inputName]? s inputName with
              | .error e => some (.error e, σ)
              | .ok σ₁ => σ₁.finishAttach this m s outputName inputName
    | _, _ => none

/-- Count the connection off, rebuild the chain and tell the listeners,
`src_jni/machine.cc:545–565`. -/
def finishDetach (σ : Space) (this m : MachineId) (outputName inputName : StdString) :
    Outcome Unit :=
  match σ.machines[this]? with
  | none => none
  | some t =>
    match t.dependant[m]? with
    | none => σ.throws (str "[" ++ inputName ++ str "]: dependant count error!")
    | some _ =>
      let σ₁ := σ.modifyMachine this fun x ↦ { x with dependant := countDown x.dependant m }
      match σ₁.recalculateRenderChain with
      | none => none
      | some σ₂ => (σ₂.notify (.inputDetached m this outputName inputName)).returns ()

/-- `this->internal_detach_input(m, output_name, input_name)`,
`src_jni/machine.cc:511–566`. The count of `s` goes down before the list is searched. -/
def internalDetachInput (σ : Space) (this : MachineId) (m : Option MachineId)
    (outputName inputName : StdString) : Outcome Unit :=
  match m with
  | none => σ.throws (str "Source machine pointer is NULL.")
  | some m =>
    match σ.machines[m]?, σ.machines[this]? with
    | some source, some t =>
      match source.output[outputName]? with
      | none => σ.throws (str "[" ++ outputName ++ str "]: No such output.")
      | some s =>
        match t.inputDescriptor[inputName]? with
        | none => σ.throws (str "[" ++ inputName ++ str "]: No such input")
        | some _ =>
          match t.input[inputName]? with
          | none => σ.throws (str "[" ++ inputName ++ str "]: Nothing attached to input")
          | some k =>
            let σ₁ := σ.detach s this
            match σ₁.unlink k this s with
            | none => none
            | some (.error e) => some (.error e, σ₁)
            | some (.ok (head, σ₂)) =>
              (σ₂.setInput this inputName head).finishDetach this m outputName inputName
    | _, _ => none

/-- The checks of a call that name an output `s` of `m` and an input of `this` are passed,
`src_jni/machine.cc:423–437,513–527`. -/
structure Names (σ : Space) (this : MachineId) (m : Option MachineId)
    (outputName inputName : StdString) (m₀ : MachineId) (t : Machine) (s : SignalId) :
    Prop where
  source_ne_null : m = some m₀
  this_live : σ.machines[this]? = some t
  output : ∃ source, σ.machines[m₀]? = some source ∧ source.output[outputName]? = some s
  input : ∃ des, t.inputDescriptor[inputName]? = some des

/-- The remaining checks of `internal_attach_input`, `src_jni/machine.cc:430–480`, turn the
output `s` of `m` away: the input is unknown, the types differ, or there would be a loop. -/
def refuses (σ : Space) (this m : MachineId) (t : Machine) (s : SignalId) (i : StdString) :
    Bool :=
  match t.inputDescriptor[i]? with
  | none => true
  | some des => mismatch des (σ.signals s) || σ.findMachineInGraph m this ≠ some false

/-- A call that throws changes nothing. -/
theorem throws_eq_some {σ σ' : Space} {text : StdString} {r : Except JException Unit}
    (h : σ.throws text = some (r, σ')) : ∃ e, r = .error e ∧ σ' = σ := by
  simp only [throws, Option.some.injEq, Prod.mk.injEq] at h
  exact ⟨_, h.1.symm, h.2.symm⟩

/-- A call of `internal_attach_input` that comes back either threw and changed nothing, or
passed the loop test and linked the signal. -/
theorem internalAttachInput_cases {σ σ' : Space} {this : MachineId} {m : Option MachineId}
    {o i : StdString} {r : Except JException Unit}
    (h : σ.internalAttachInput this m o i = some (r, σ')) :
    (∃ e, r = .error e ∧ σ' = σ) ∨
      ∃ m₀ t s σ₁, σ.Names this m o i m₀ t s ∧ σ.refuses this m₀ t s i = false ∧
        σ.linkInput this t.input[i]? s i = .ok σ₁ ∧
        σ₁.finishAttach this m₀ s o i = some (r, σ') := by
  unfold internalAttachInput at h
  cases m with
  | none => exact .inl (throws_eq_some h)
  | some m₀ =>
    cases hm : σ.machines[m₀]? with
    | none => simp [hm] at h
    | some source =>
      cases ht : σ.machines[this]? with
      | none => simp [hm, ht] at h
      | some t =>
        simp only [hm, ht] at h
        split at h
        · exact .inl (throws_eq_some h)
        · next s hs =>
          split at h
          · exact .inl (throws_eq_some h)
          · next des hdes =>
            split at h
            · exact .inl (throws_eq_some h)
            · next hmis =>
              split at h
              · cases h
              · exact .inl (throws_eq_some h)
              · next hfind =>
                split at h
                · next e _ =>
                  obtain ⟨rfl, rfl⟩ := Prod.mk.inj (Option.some.inj h)
                  exact .inl ⟨e, rfl, rfl⟩
                · next σ₁ hlink =>
                  refine .inr ⟨m₀, t, s, σ₁, ⟨rfl, ht, ⟨source, hm, hs⟩, des, hdes⟩, ?_,
                    hlink, h⟩
                  simpa [refuses, hdes, hfind] using hmis

/-- What `finish_attach` leaves when it comes back. -/
theorem finishAttach_eq_some {σ σ' : Space} {this m : MachineId} {s : SignalId}
    {o i : StdString} {r : Except JException Unit}
    (h : σ.finishAttach this m s o i = some (r, σ')) :
    r = .ok () ∧ ∃ σ₃, ((σ.attach s this).modifyMachine this fun x ↦
        { x with dependant := countUp x.dependant m }).recalculateRenderChain = some σ₃ ∧
      σ' = σ₃.notify (.inputAttached m this o i) := by
  unfold finishAttach at h
  dsimp only at h
  split at h
  · cases h
  · next σ₃ hr =>
    obtain ⟨rfl, rfl⟩ := Prod.mk.inj (Option.some.inj h)
    exact ⟨rfl, σ₃, hr, rfl⟩

/-- A call of `internal_detach_input` that comes back either threw and changed nothing, or
went on to search the list of the input, with the count of the signal already lowered. -/
theorem internalDetachInput_cases {σ σ' : Space} {this : MachineId} {m : Option MachineId}
    {o i : StdString} {r : Except JException Unit}
    (h : σ.internalDetachInput this m o i = some (r, σ')) :
    (∃ e, r = .error e ∧ σ' = σ) ∨
      ∃ m₀ t s k, σ.Names this m o i m₀ t s ∧ t.input[i]? = some k ∧
        ((∃ e, (σ.detach s this).unlink k this s = some (.error e) ∧ r = .error e ∧
            σ' = σ.detach s this) ∨
          ∃ head σ₂, (σ.detach s this).unlink k this s = some (.ok (head, σ₂)) ∧
            (σ₂.setInput this i head).finishDetach this m₀ o i = some (r, σ')) := by
  unfold internalDetachInput at h
  cases m with
  | none => exact .inl (throws_eq_some h)
  | some m₀ =>
    cases hm : σ.machines[m₀]? with
    | none => simp [hm] at h
    | some source =>
      cases ht : σ.machines[this]? with
      | none => simp [hm, ht] at h
      | some t =>
        simp only [hm, ht] at h
        split at h
        · exact .inl (throws_eq_some h)
        · next s hs =>
          split at h
          · exact .inl (throws_eq_some h)
          · next des hdes =>
            split at h
            · exact .inl (throws_eq_some h)
            · next k hk =>
              refine .inr ⟨m₀, t, s, k, ⟨rfl, ht, ⟨source, hm, hs⟩, des, hdes⟩, hk, ?_⟩
              split at h
              · cases h
              · next e he =>
                obtain ⟨rfl, rfl⟩ := Prod.mk.inj (Option.some.inj h)
                exact .inl ⟨e, he, rfl, rfl⟩
              · next head σ₂ hu => exact .inr ⟨head, σ₂, hu, h⟩

/-- What the end of `internal_detach_input` leaves when it comes back. -/
theorem finishDetach_cases {σ σ' : Space} {this m : MachineId} {o i : StdString}
    {r : Except JException Unit} (h : σ.finishDetach this m o i = some (r, σ')) :
    ∃ t, σ.machines[this]? = some t ∧
      ((∃ e, r = .error e ∧ t.dependant[m]? = none ∧ σ' = σ) ∨
        (r = .ok () ∧ (∃ c, t.dependant[m]? = some c) ∧
          ∃ σ₂, (σ.modifyMachine this fun x ↦
              { x with dependant := countDown x.dependant m }).recalculateRenderChain = some σ₂ ∧
            σ' = σ₂.notify (.inputDetached m this o i))) := by
  unfold finishDetach at h
  split at h
  · cases h
  · next t ht =>
    refine ⟨t, ht, ?_⟩
    split at h
    · next hd =>
      obtain ⟨rfl, rfl⟩ := Prod.mk.inj (Option.some.inj h)
      exact .inl ⟨_, rfl, hd, rfl⟩
    · next c hc =>
      dsimp only at h
      split at h
      · cases h
      · next σ₂ hr =>
        obtain ⟨rfl, rfl⟩ := Prod.mk.inj (Option.some.inj h)
        exact .inr ⟨rfl, ⟨c, hc⟩, σ₂, hr, rfl⟩

/-- The signals on the list of one input, from its head on. -/
def inputList (σ : Space) (this : MachineId) (head : SignalId) : Option (List SignalId) :=
  Library.walk (σ.nextPtr this) σ.signalCount (some head)

/-- The entries of all input lists of `this`: the input with the signal. -/
def inputEntries (σ : Space) (this : MachineId) : Option (List (StdString × SignalId)) :=
  match σ.machines[this]? with
  | none => none
  | some t => do
    let lists ← t.input.toList.mapM fun e ↦ do
      let l ← σ.inputList this e.2
      some (l.map fun s ↦ (e.1, s))
    some lists.flatten

/-- `this->internal_get_input_connections()`, `src_jni/machine.cc:643–667`: the input, the
source machine and the name of the output of every entry. -/
def internalGetInputConnections (σ : Space) (this : MachineId) :
    Option (List (StdString × MachineId × StdString)) :=
  (σ.inputEntries this).map fun l ↦
    l.map fun e ↦ (e.1, (σ.signals e.2).originator, (σ.signals e.2).name)

/-! ### Detaching everything -/

/-- Call `f` for every element until one throws. -/
def forEach {α : Type} (f : α → Space → Outcome Unit) : List α → Space → Outcome Unit
  | [], σ => σ.returns ()
  | a :: l, σ =>
    match f a σ with
    | some (.ok (), σ') => forEach f l σ'
    | r => r

/-- The four steps that take `s` off the list with first signal `head`,
`src_jni/machine.cc:1445–1451,1460–1468`. `broadcast_detach` reads the originator. -/
def dropSignal (σ : Space) (this : MachineId) (inputName : StdString) (head s : SignalId) :
    Option (Except JException (Option SignalId) × Space) :=
  let o := (σ.signals s).originator
  match σ.machines[o]? with
  | none => none
  | some _ =>
    let σ₁ := σ.notify (.inputDetached o this (σ.signals s).name inputName)
    let σ₂ := σ₁.modifyMachine this fun x ↦ { x with dependant := countDown x.dependant o }
    let σ₃ := σ₂.detach s this
    match σ₃.unlink head this s with
    | none => none
    | some (.error e) => some (.error e, σ₃)
    | some (.ok (head', σ₄)) => some (.ok head', σ₄)

/-- The loop for `m == NULL`, `src_jni/machine.cc:1443–1453`: drop the head until the list
is empty. -/
def detachWhole (this : MachineId) (inputName : StdString) :
    Nat → Option SignalId → Space → Outcome Unit
  | _, none, σ => (σ.setInput this inputName none).returns ()
  | 0, some _, _ => none
  | fuel + 1, some head, σ =>
    match σ.dropSignal this inputName head head with
    | none => none
    | some (.error e, σ') => some (.error e, σ')
    | some (.ok head', σ') => detachWhole this inputName fuel head' σ'

/-- The loop for `m != NULL`, `src_jni/machine.cc:1454–1477`: drop the signals of `m`,
starting over at the head after each. -/
def detachFrom (this : MachineId) (inputName : StdString) (m : MachineId) :
    Nat → Option SignalId → Option SignalId → Space → Outcome Unit
  | _, head, none, σ => (σ.setInput this inputName head).returns ()
  | 0, _, some _, _ => none
  | fuel + 1, head, some s, σ =>
    if (σ.signals s).originator = m then
      match head with
      | none => none
      | some h =>
        match σ.dropSignal this inputName h s with
        | none => none
        | some (.error e, σ') => some (.error e, σ')
        | some (.ok head', σ') => detachFrom this inputName m fuel head' head' σ'
    else detachFrom this inputName m fuel head (σ.getNext s this) σ

/-- One pass of the loop over the inputs. The two inner loops take at most one round for
each signal, and one walk of the list for each signal dropped. -/
def detachInputList (this : MachineId) (m : Option MachineId) (e : StdString × SignalId)
    (σ : Space) : Outcome Unit :=
  match m with
  | none => detachWhole this e.1 σ.signalCount (some e.2) σ
  | some m => detachFrom this e.1 m ((σ.signalCount + 1) ^ 2) (some e.2) (some e.2) σ

/-- A call that ends with `recalculate_render_chain`. -/
def thenRecalculate (r : Outcome Unit) : Outcome Unit :=
  match r with
  | some (.ok (), σ) =>
    match σ.recalculateRenderChain with
    | none => none
    | some σ' => σ'.returns ()
  | r => r

/-- `this->detach_all_inputs(m)`, `src_jni/machine.cc:1433–1480`. The loop writes to the
entry it is at and to no other, so it meets the entries that were there at the start. -/
def detachAllInputs (σ : Space) (this : MachineId) (m : Option MachineId) : Outcome Unit :=
  match σ.machines[this]? with
  | none => none
  | some t => thenRecalculate (forEach (detachInputList this m) t.input.toList σ)

/-- `this->detach_all_outputs()`, `src_jni/machine.cc:1482–1498`. -/
def detachAllOutputs (σ : Space) (this : MachineId) : Outcome Unit :=
  match σ.machines[this]? with
  | none => none
  | some t =>
    thenRecalculate (forEach (fun s σ ↦
      forEach (fun l σ ↦ σ.detachAllInputs l (some this)) (σ.getAttachedMachines s) σ)
      (t.output.toList.map Prod.snd) σ)

/-! ### Creating and destroying machines -/

/-- What a class derived from `Machine` hands to `setup_machine`. -/
structure MachineSpec where
  baseName : StdString
  baseNameIsName : Bool
  inputDescriptor : Std.ExtTreeMap StdString Description
  outputDescriptor : Std.ExtTreeMap StdString Description

/-- `SignalFactory::create_signal`, `src_jni/signal.cc:825–859,1068–1085`: only signals of
dimension 0 and MIDI signals can be created. -/
def createSignal (σ : Space) (channels : Int) (originator : MachineId) (name : StdString)
    (d : Dimension) : Outcome SignalId :=
  if d = .zeroD ∨ d = .midi then
    ({ σ with
        signals := Function.update σ.signals σ.signalCount
          ⟨originator, name, d, channels, fun _ ↦ none, fun _ ↦ none, ∅⟩
        signalCount := σ.signalCount + 1 } : Space).returns σ.signalCount
  else σ.throws (str "Unsupported dimension.")

/-- The loop over the output descriptors in `setup_machine`, `src_jni/machine.cc:1165–1172`. -/
def createOutputs (this : MachineId) : List (StdString × Description) →
    Std.ExtTreeMap StdString SignalId → Space → Outcome (Std.ExtTreeMap StdString SignalId)
  | [], output, σ => σ.returns output
  | (name, des) :: rest, output, σ =>
    match σ.createSignal des.channels this name des.dimension with
    | none => none
    | some (.error e, σ') => some (.error e, σ')
    | some (.ok s, σ') => createOutputs this rest (output.insert name s) σ'

/-- Construction and `setup_machine`, `src_jni/machine.cc:1161–1185,1724–1747`, of a machine
at the unused address `this`. `next_render_chain` is not initialised: it holds `garbage`. -/
def setupMachine (σ : Space) (this : MachineId) (spec : MachineSpec)
    (garbage : Option MachineId) : Outcome Unit :=
  if this ∈ σ.machines then none
  else
    match createOutputs this spec.outputDescriptor.toList ∅ σ with
    | none => none
    | some (.error e, σ') => some (.error e, σ')
    | some (.ok output, σ') =>
      let name := if spec.baseNameIsName then spec.baseName
        else str "m#" ++ decimal σ'.machines.size ++ str ":" ++ spec.baseName
      ({ σ' with
          machines := σ'.machines.insert this
            ⟨name, spec.inputDescriptor, ∅, output, ∅, ∅, garbage⟩ } : Space).notify
        (.machineRegistered this) |>.returns ()

/-- `Machine::internal_register_sink`, `src_jni/machine.cc:1695–1708`. -/
def internalRegisterSink (σ : Space) (s : MachineId) : Outcome Unit :=
  if s ∈ σ.machines then
    match σ.sink with
    | some _ => σ.throws (str "Multiple sinks not allowed.")
    | none => ({ σ with sink := some s } : Space).returns ()
  else none

/-- `Machine::internal_deregister_machine` with `internal_unregister_sink`,
`src_jni/machine.cc:1710–1722,1749–1775`. The map entry owned the machine. -/
def internalDeregisterMachine (σ : Space) (m : MachineId) : Outcome Unit :=
  if m ∈ σ.machines then
    let σ₁ := { σ.notify (.machineUnregistered m) with machines := σ.machines.erase m }
    if σ.sink = some m then
      ({ σ₁ with sink := none, topRenderChain := none } : Space).returns ()
    else σ₁.returns ()
  else σ.throws (str "Trying to deregister unknown machine.")

/-- `this->tightly_connect(m)`, `src_jni/machine.cc:1577–1593`. -/
def tightlyConnect (σ : Space) (this : MachineId) (m : Option MachineId) : Outcome Unit :=
  match m with
  | none => σ.throws (str "Source machine pointer is NULL.")
  | some m =>
    match σ.machines[this]?, σ.machines[m]? with
    | some t, some o =>
      if m ∈ t.tightlyConnected ∨ this ∈ o.tightlyConnected then
        σ.throws (str "Machines already tightly connected.")
      else
        ((σ.modifyMachine this fun x ↦
            { x with tightlyConnected := x.tightlyConnected.insert m }).modifyMachine m fun x ↦
            { x with tightlyConnected := x.tightlyConnected.insert this }).returns ()
    | _, _ => none

/-- `m->detach_and_destroy()`: the classes derived from `Machine` all detach their inputs
and then their outputs, and agree to be deleted (`src_jni/dynamic_machine.cc:997–1006`,
`src_jni/machine_sequencer.cc:489–494`, `src_jni/engine_code/sequence.cc:307–314`). -/
def detachAndDestroy (σ : Space) (m : MachineId) : Outcome Unit :=
  match σ.detachAllInputs m none with
  | some (.ok (), σ₁) => σ₁.detachAllOutputs m
  | r => r

/-- The loop of `destroy_tightly_attached_machines`, `src_jni/machine.cc:1318–1341`. The
iterator is at `other`: `destroy` may write to the set, but must neither delete `this`
nor erase the entry the iterator is at. -/
def destroyTight (destroy : MachineId → Space → Outcome Unit) (this : MachineId) :
    Nat → Option MachineId → Space → Outcome Unit
  | _, none, σ => σ.returns ()
  | 0, some _, _ => none
  | fuel + 1, some other, σ =>
    if other ∈ σ.machines then
      match destroy other (σ.modifyMachine other fun x ↦
        { x with tightlyConnected := x.tightlyConnected.erase this }) with
      | some (.ok (), σ') =>
        match σ'.machines[this]? with
        | none => none
        | some t =>
          if other ∈ t.tightlyConnected then
            destroyTight destroy this fuel (t.tightlyConnected.toList.find? (other < ·)) σ'
          else none
      | r => r
    else none

/-- `Machine::internal_disconnect_and_destroy(m)`, `src_jni/machine.cc:1912–1920`, to a depth
of `fuel` machines. -/
def disconnectAndDestroy : Nat → MachineId → Space → Outcome Unit
  | 0, _, _ => none
  | fuel + 1, m, σ =>
    match σ.detachAndDestroy m with
    | some (.ok (), σ₁) =>
      match σ₁.machines[m]? with
      | none => none
      | some t =>
        match destroyTight (disconnectAndDestroy fuel) m σ₁.machines.size
          t.tightlyConnected.toList.head? σ₁ with
        | some (.ok (), σ₂) => thenRecalculate (σ₂.internalDeregisterMachine m)
        | r => r
    | r => r

/-- `Machine::internal_disconnect_and_destroy(m)`: tightly connected machines that form no
circle are no deeper than there are machines. -/
def internalDisconnectAndDestroy (σ : Space) (m : MachineId) : Outcome Unit :=
  disconnectAndDestroy (σ.machines.size + 1) m σ

/-! ### Runs -/

/-- One call of an operation. -/
inductive Action
  | setupMachine (this : MachineId) (spec : MachineSpec) (garbage : Option MachineId)
  | registerSink (s : MachineId)
  | attachInput (this : MachineId) (m : Option MachineId) (outputName inputName : StdString)
  | detachInput (this : MachineId) (m : Option MachineId) (outputName inputName : StdString)
  | detachAllInputs (this : MachineId) (m : Option MachineId)
  | detachAllOutputs (this : MachineId)
  | tightlyConnect (this : MachineId) (m : Option MachineId)
  | disconnectAndDestroy (m : MachineId)

/-- Carry out one call. -/
def step (σ : Space) : Action → Outcome Unit
  | .setupMachine this spec garbage => σ.setupMachine this spec garbage
  | .registerSink s => σ.internalRegisterSink s
  | .attachInput this m o i => σ.internalAttachInput this m o i
  | .detachInput this m o i => σ.internalDetachInput this m o i
  | .detachAllInputs this m => σ.detachAllInputs this m
  | .detachAllOutputs this => σ.detachAllOutputs this
  | .tightlyConnect this m => σ.tightlyConnect this m
  | .disconnectAndDestroy m => σ.internalDisconnectAndDestroy m

end Space
end Vuknob
