import Vuknob.Machine.Names

/-!
# Saving and loading the machines of a project

`ProjectEntry::generate_xml` (`src_jni/machine_project_entry.cc:59–78`) writes the class and the
name of every machine and the connections of its inputs; `parse_machines`,
`parse_connections_entries` and `finalize_xml_initialization` read them back
(`src_jni/machine_project_entry.cc:178–252`, `src_jni/machine_sequencer.cc:1657–1721`). A file is
the elements and attributes in the order in which they were written. Loops, pads, controllers and
positions of machines are left out, and the `init` of a dynamic library is taken to succeed.
-/

namespace Vuknob

/-- What `get_class_name` and `get_descriptive_xml` say of a machine: the handle of a
`DynamicMachine`, the name of the sibling of a `MachineSequencer`, nothing for a `Sequence`. -/
inductive MachineClass
  | dynamicMachine (handle : StdString)
  | machineSequencer (siblingName : StdString)
  | sequence
  deriving DecidableEq

/-- What is declared with a dynamic library. -/
structure Declaration where
  inputDescriptor : Std.ExtTreeMap StdString Description
  outputDescriptor : Std.ExtTreeMap StdString Description
  isSink : Bool

/-- The descriptors of a dynamic machine, and its name unless one is generated from the name of
the handle, `src_jni/dynamic_machine.cc:888–908`. -/
def Declaration.spec (des : Declaration) (handle : StdString) (given : Option StdString) :
    Space.MachineSpec :=
  ⟨given.getD handle, given.isSome, des.inputDescriptor, des.outputDescriptor⟩

/-- The one MIDI output of a `MachineSequencer` or a `Sequence`. -/
def midiOutput : Std.ExtTreeMap StdString Description :=
  .ofList [(str "midi_OUTPUT", (⟨.midi, 1, false⟩ : Description))]

/-- The machine space with the classes of its machines. -/
structure Rig where
  space : Space
  cls : MachineId → MachineClass

/-- A project file: the `machine` elements and the `connections` elements, these with the inputs,
source machines and outputs of their `connection` elements. -/
structure ProjectFile where
  machines : List (StdString × MachineClass)
  connections : List (StdString × List (StdString × StdString × StdString))

namespace Rig

open Space

/-- No machines. -/
def empty : Rig := ⟨Space.empty, fun _ ↦ .sequence⟩

/-! ### Creating machines -/

/-- `setup_machine` for an object of class `c`. -/
def setupMachine (R : Rig) (this : MachineId) (c : MachineClass) (spec : MachineSpec)
    (garbage : Option MachineId) : Option (Except JException Unit × Rig) :=
  match R.space.setupMachine this spec garbage with
  | none => none
  | some (.error e, σ) => some (.error e, ⟨σ, R.cls⟩)
  | some (.ok (), σ) => some (.ok (), ⟨σ, Function.update R.cls this c⟩)

section

variable (name2handle : StdString → Option Declaration)

/-- `DynamicMachine::instance` and `instance_from_xml`, `src_jni/dynamic_machine.cc:1028–1063`,
with `Handle::get_handle` and the registration of a sink. A constructor that throws behind
`setup_machine` frees the object that the set now points to, and no later use of the set is
defined. -/
def instanceDynamic (R : Rig) (this : MachineId) (handle : StdString) (given : Option StdString)
    (garbage : Option MachineId) : Option (Except JException Unit × Rig) :=
  match name2handle handle with
  | none => some (.error ⟨str "No such machine handle. : " ++ handle⟩, R)
  | some des =>
    match R.setupMachine this (.dynamicMachine handle) (des.spec handle given) garbage with
    | some (.ok (), R') =>
      if des.isSink then
        match R'.space.internalRegisterSink this with
        | some (.ok (), σ) => some (.ok (), ⟨σ, R'.cls⟩)
        | _ => none
      else some (.ok (), R')
    | r => r

/-- What happens to the machine set in a session. -/
inductive Action
  | instanceDynamic (this : MachineId) (handle : StdString) (given : Option StdString)
      (garbage : Option MachineId)
  | machineSequencer (this : MachineId) (name siblingName : StdString)
      (garbage : Option MachineId)
  | sequence (this : MachineId) (garbage : Option MachineId)
  | network (a : Space.Action)

/-- One event of a session. `setup_machine` and `register_this_sink` are called by constructors
only. -/
def step (R : Rig) : Action → Option (Except JException Unit × Rig)
  | .instanceDynamic this handle given garbage =>
    R.instanceDynamic name2handle this handle given garbage
  | .machineSequencer this name siblingName garbage =>
    R.setupMachine this (.machineSequencer siblingName) ⟨name, true, ∅, midiOutput⟩ garbage
  | .sequence this garbage =>
    R.setupMachine this .sequence ⟨str "Sequencer", false, ∅, midiOutput⟩ garbage
  | .network (.setupMachine ..) | .network (.registerSink _) => none
  | .network a =>
    match R.space.step a with
    | none => none
    | some (r, σ) => some (r, ⟨σ, R.cls⟩)

end

/-! ### Writing a project -/

/-- The names and classes of the machines, as `generate_xml` writes them. -/
def listing (R : Rig) : List (StdString × MachineClass) :=
  R.space.machines.toList.map fun e ↦ (e.2.name, R.cls e.1)

/-- `Machine::internal_get_connection_xml`, `src_jni/machine.cc:604–631`. -/
def connectionXml (R : Rig) (p : MachineId) :
    Option (List (StdString × StdString × StdString)) :=
  match R.space.internalGetInputConnections p with
  | none => none
  | some l => l.mapM fun c ↦ R.space.machines[c.2.1]?.map fun x ↦ (c.1, x.name, c.2.2)

/-- The `connections` elements of all machines. -/
def connectionsXml (R : Rig) :
    Option (List (StdString × List (StdString × StdString × StdString))) :=
  R.space.machines.toList.mapM fun e ↦ (R.connectionXml e.1).map fun l ↦ (e.2.name, l)

/-- `ProjectEntry::generate_xml`, `src_jni/machine_project_entry.cc:59–78`, with
`get_descriptive_xml` of the classes (`src_jni/machine_sequencer.cc:500–504`). -/
def generateXml (R : Rig) : Option (Except JException ProjectFile) :=
  if R.listing.any fun e ↦ e.2 = .machineSequencer [] then
    some (.error ⟨str "MachineSequencer created without sibling, failure.\n"⟩)
  else R.connectionsXml.map fun l ↦ .ok ⟨R.listing, l⟩

/-! ### Reading it back -/

/-- Where loading has come to: the machines, the number of objects created, and
`machine_from_xml_cache` with the sibling names of the sequencers in it. -/
structure Loader where
  rig : Rig
  created : Nat
  cache : List (MachineId × StdString)

section

variable (name2handle : StdString → Option Declaration) (address : Nat ↪ MachineId)
  (garbage : Option MachineId)

/-- `ProjectEntry::parse_machine`, `src_jni/machine_project_entry.cc:178–191`: the new object is at
the next address. An element of another class is skipped. -/
def parseMachine (e : StdString × MachineClass) (L : Loader) :
    Option (Except JException Unit × Loader) :=
  let this := address L.created
  match e.2 with
  | .machineSequencer siblingName =>
    match L.rig.setupMachine this e.2 ⟨e.1, true, ∅, midiOutput⟩ garbage with
    | none => none
    | some (.error x, R) => some (.error x, ⟨R, L.created + 1, L.cache⟩)
    | some (.ok (), R) => some (.ok (), ⟨R, L.created + 1, L.cache ++ [(this, siblingName)]⟩)
  | .dynamicMachine handle =>
    match L.rig.instanceDynamic name2handle this handle (some e.1) garbage with
    | none => none
    | some (r, R) => some (r, ⟨R, L.created + 1, L.cache⟩)
  | .sequence => some (.ok (), L)

/-- `ProjectEntry::parse_machines`, `src_jni/machine_project_entry.cc:193–206`. -/
def parseMachines : List (StdString × MachineClass) → Loader →
    Option (Except JException Unit × Loader)
  | [], L => some (.ok (), L)
  | e :: l, L =>
    match parseMachine name2handle address garbage e L with
    | some (.ok (), L') => parseMachines l L'
    | r => r

end

/-- `ProjectEntry::parse_connection_entry`, `src_jni/machine_project_entry.cc:208–221`: the call is
made on whatever the lookup returned. -/
def parseConnectionEntry (machineName : StdString) (c : StdString × StdString × StdString)
    (R : Rig) : Option (Except JException Unit × Rig) :=
  match R.space.internalGetByName machineName, R.space.internalGetByName c.2.1 with
  | some (some destination), some source =>
    (R.space.internalAttachInput destination source c.2.2 c.1).map fun r ↦ (r.1, ⟨r.2, R.cls⟩)
  | _, _ => none

/-- The `connection` elements of one machine. -/
def parseConnectionsEntry (machineName : StdString) :
    List (StdString × StdString × StdString) → Rig → Option (Except JException Unit × Rig)
  | [], R => some (.ok (), R)
  | c :: l, R =>
    match parseConnectionEntry machineName c R with
    | some (.ok (), R') => parseConnectionsEntry machineName l R'
    | r => r

/-- `ProjectEntry::parse_connections_entries`, `src_jni/machine_project_entry.cc:223–252`. -/
def parseConnectionsEntries : List (StdString × List (StdString × StdString × StdString)) →
    Rig → Option (Except JException Unit × Rig)
  | [], R => some (.ok (), R)
  | e :: l, R =>
    match parseConnectionsEntry e.1 e.2 R with
    | some (.ok (), R') => parseConnectionsEntries l R'
    | r => r

/-- `MachineSequencer::finalize_xml_initialization`, `src_jni/machine_sequencer.cc:1676–1721`: the
sequencers in the cache are tightly connected to their siblings. -/
def finalizeXmlInitialization : List (MachineId × StdString) → Rig →
    Option (Except JException Unit × Rig)
  | [], R => some (.ok (), R)
  | (mseq, siblingName) :: l, R =>
    match R.space.internalGetByName siblingName with
    | none => none
    | some none =>
      some (.error ⟨str "Project file contains a MachineSequencer, but no matching sibling ]" ++
        siblingName ++ str "["⟩, R)
    | some (some sibling) =>
      match R.space.tightlyConnect mseq (some sibling) with
      | some (.ok (), σ) => finalizeXmlInitialization l ⟨σ, R.cls⟩
      | some (.error x, σ) => some (.error x, ⟨σ, R.cls⟩)
      | none => none

/-- Read a project into an empty machine set. -/
def load (name2handle : StdString → Option Declaration) (address : Nat ↪ MachineId)
    (garbage : Option MachineId) (file : ProjectFile) : Option (Except JException Unit × Rig) :=
  match parseMachines name2handle address garbage file.machines ⟨empty, 0, []⟩ with
  | none => none
  | some (.error x, L) => some (.error x, L.rig)
  | some (.ok (), L) =>
    match parseConnectionsEntries file.connections L.rig with
    | some (.ok (), R) => finalizeXmlInitialization L.cache R
    | r => r

/-- Writing the machines and reading them back gives the same names and classes, and the same
connections between machines of these names. -/
def RoundTrips (name2handle : StdString → Option Declaration) (address : Nat ↪ MachineId)
    (garbage : Option MachineId) (R : Rig) : Prop :=
  ∃ file R', R.generateXml = some (.ok file) ∧
    load name2handle address garbage file = some (.ok (), R') ∧ R'.listing.Perm R.listing ∧
    ∃ l l', R.connectionsXml = some l ∧ R'.connectionsXml = some l' ∧
      (l'.flatMap fun e ↦ e.2.map (Prod.mk e.1)).Perm (l.flatMap fun e ↦ e.2.map (Prod.mk e.1))

/-! ### What a session keeps -/

/-- The machines that are left were there before, and a sink that is left is still the sink. -/
def Survives (σ σ' : Space) : Prop :=
  ∀ p, p ∈ σ'.machines → p ∈ σ.machines ∧ (σ.sink = some p → σ'.sink = some p)

theorem Survives.of_shrinks {σ σ' : Space} (h : Shrinks σ σ') : Survives σ σ' := by
  intro p hp
  refine ⟨(h.live p).mp hp, fun hs ↦ ?_⟩
  rw [h.sink, hs]

theorem kept_survives : KeptByDestroying Survives where
  refl σ := .of_shrinks (.refl σ)
  trans h₁ h₂ p hp := by
    obtain ⟨hτ, hsτ⟩ := h₂ p hp
    obtain ⟨hσ, hsσ⟩ := h₁ p hτ
    exact ⟨hσ, fun hs ↦ hsτ (hsσ hs)⟩
  signals hm hs hn := .of_shrinks (kept_shrinks.signals hm hs hn)
  detached σ source destination output input :=
    .of_shrinks (kept_shrinks.detached σ source destination output input)
  countDown σ this m := .of_shrinks (kept_shrinks.countDown σ this m)
  setInput σ this name head := .of_shrinks (kept_shrinks.setInput σ this name head)
  recalculate h := .of_shrinks (kept_shrinks.recalculate h)
  setTight σ p f := .of_shrinks (shrinks_modifyMachine σ p (fun x ↦
    { x with tightlyConnected := f x.tightlyConnected }) fun _ _ h ↦ h)
  deregister {σ σ' m r} h := by
    unfold internalDeregisterMachine at h
    split at h
    · dsimp only at h
      split at h
      · next hsink =>
        obtain ⟨_, rfl⟩ := Prod.mk.inj (Option.some.inj h)
        intro p hp
        obtain ⟨hne, hp⟩ := Std.ExtTreeMap.mem_erase.mp hp
        refine ⟨hp, fun hs ↦ ?_⟩
        rw [hsink] at hs
        simp [Option.some.inj hs] at hne
      · obtain ⟨_, rfl⟩ := Prod.mk.inj (Option.some.inj h)
        intro p hp
        exact ⟨(Std.ExtTreeMap.mem_erase.mp hp).2, fun hs ↦ hs⟩
    · obtain ⟨_, rfl⟩ := Prod.mk.inj (Option.some.inj h)
      exact fun p hp ↦ ⟨hp, fun hs ↦ hs⟩

/-- All outputs have a dimension that signals are created for. -/
def Creatable (outputs : List (StdString × Description)) : Prop :=
  ∀ e ∈ outputs, e.2.dimension = .zeroD ∨ e.2.dimension = .midi

theorem createOutputs_ok_iff (this : MachineId) (l : List (StdString × Description))
    (output : Std.ExtTreeMap StdString SignalId) (σ : Space) :
    (∃ output' σ', createOutputs this l output σ = some (.ok output', σ')) ↔ Creatable l := by
  induction l generalizing output σ with
  | nil => simp [createOutputs, returns, Creatable]
  | cons e l ih =>
    simp only [createOutputs, createSignal, Creatable, List.forall_mem_cons]
    by_cases hd : e.2.dimension = .zeroD ∨ e.2.dimension = .midi
    · simp only [returns, hd, true_and]
      exact ih _ _
    · simp [throws, hd]

/-- A dynamic machine in the set can be created anew from its handle, and one that is declared a
sink is the sink. -/
def Recreatable (name2handle : StdString → Option Declaration) (R : Rig) : Prop :=
  ∀ p ∈ R.space.machines, ∀ handle, R.cls p = .dynamicMachine handle →
    ∃ des, name2handle handle = some des ∧ Creatable des.outputDescriptor.toList ∧
      (des.isSink = true → R.space.sink = some p)

theorem Recreatable.of_survives {name2handle : StdString → Option Declaration} {R : Rig} {σ : Space}
    (h : R.Recreatable name2handle) (hs : Survives R.space σ) :
    Recreatable name2handle ⟨σ, R.cls⟩ := by
  intro p hp handle hc
  obtain ⟨hlive, hsink⟩ := hs p hp
  obtain ⟨des, hdes, hcreate, hreg⟩ := h p hlive handle hc
  exact ⟨des, hdes, hcreate, fun hd ↦ hsink (hreg hd)⟩

/-- A call of `setup_machine` that comes back threw and left the machines alone, or put one more
into the set. -/
theorem setupMachine_rig_cases {R R' : Rig} {this : MachineId} {c : MachineClass}
    {spec : MachineSpec} {garbage : Option MachineId} {r : Except JException Unit}
    (h : R.setupMachine this c spec garbage = some (r, R')) :
    this ∉ R.space.machines ∧ R'.space.sink = R.space.sink ∧
      ((∃ e, r = .error e ∧ R'.space.machines = R.space.machines ∧ R'.cls = R.cls) ∨
        ∃ output, r = .ok () ∧ Creatable spec.outputDescriptor.toList ∧
          R'.space.machines = R.space.machines.insert this
            ⟨if spec.baseNameIsName then spec.baseName
              else str "m#" ++ decimal R.space.machines.size ++ str ":" ++ spec.baseName,
              spec.inputDescriptor, ∅, output, ∅, ∅, garbage⟩ ∧
          R'.cls = Function.update R.cls this c) := by
  unfold setupMachine at h
  split at h
  · cases h
  · next e σ hσ =>
    obtain ⟨rfl, rfl⟩ := Prod.mk.inj (Option.some.inj h)
    obtain ⟨hthis, ⟨_, _, hc⟩ | ⟨_, _, _, hr, _⟩⟩ := setupMachine_cases hσ
    · obtain ⟨hm, hs, _⟩ := machines_createOutputs _ _ hc
      exact ⟨hthis, hs, .inl ⟨e, rfl, hm, rfl⟩⟩
    · cases hr
  · next σ hσ =>
    obtain ⟨rfl, rfl⟩ := Prod.mk.inj (Option.some.inj h)
    obtain ⟨hthis, ⟨_, hr, _⟩ | ⟨output, σ₁, x, _, hc, rfl, rfl⟩⟩ := setupMachine_cases hσ
    · cases hr
    · obtain ⟨hm, hs, _⟩ := machines_createOutputs _ _ hc
      refine ⟨hthis, hs, .inr ⟨output, rfl, ?_, ?_, rfl⟩⟩
      · exact (createOutputs_ok_iff _ _ _ _).mp ⟨output, σ₁, hc⟩
      · simp only [notify, hm]

theorem setupMachine_rig_ok {R : Rig} {this : MachineId} (c : MachineClass) {spec : MachineSpec}
    (garbage : Option MachineId) (hthis : this ∉ R.space.machines)
    (hcreate : Creatable spec.outputDescriptor.toList) :
    ∃ R', R.setupMachine this c spec garbage = some (.ok (), R') := by
  obtain ⟨output, σ', hc⟩ := (createOutputs_ok_iff this _ ∅ R.space).mpr hcreate
  unfold setupMachine Space.setupMachine
  simp [hthis, hc, returns]

/-- A dynamic machine that was created is the sink if it is declared one. -/
theorem instanceDynamic_cases {name2handle : StdString → Option Declaration} {R R' : Rig}
    {this : MachineId} {handle : StdString} {given : Option StdString}
    {garbage : Option MachineId} {r : Except JException Unit}
    (h : R.instanceDynamic name2handle this handle given garbage = some (r, R')) :
    (∃ e, r = .error e ∧ R'.space.machines = R.space.machines ∧
        R'.space.sink = R.space.sink ∧ R'.cls = R.cls) ∨
      ∃ des R₁, r = .ok () ∧ name2handle handle = some des ∧
        R.setupMachine this (.dynamicMachine handle) (des.spec handle given) garbage =
          some (.ok (), R₁) ∧
        R'.space.machines = R₁.space.machines ∧ R'.cls = R₁.cls ∧
        (if des.isSink then R.space.sink = none ∧ R'.space.sink = some this
          else R'.space.sink = R.space.sink) := by
  unfold instanceDynamic at h
  split at h
  · obtain ⟨rfl, rfl⟩ := Prod.mk.inj (Option.some.inj h)
    exact .inl ⟨_, rfl, rfl, rfl, rfl⟩
  · next des hdes =>
    split at h
    · next R₁ hset =>
      obtain ⟨_, hsink, _⟩ := setupMachine_rig_cases hset
      split at h
      · next hd =>
        split at h
        · next σ hreg =>
          obtain ⟨rfl, rfl⟩ := Prod.mk.inj (Option.some.inj h)
          unfold internalRegisterSink at hreg
          split at hreg
          · split at hreg
            · cases hreg
            · next hnone =>
              obtain ⟨_, rfl⟩ := Prod.mk.inj (Option.some.inj hreg)
              exact .inr ⟨des, R₁, rfl, hdes, hset, rfl, rfl, by simp [hd, ← hsink, hnone]⟩
          · cases hreg
        · cases h
      · next hd =>
        obtain ⟨rfl, rfl⟩ := Prod.mk.inj (Option.some.inj h)
        exact .inr ⟨des, _, rfl, hdes, hset, rfl, rfl, by simp [hd, hsink]⟩
    · next hne =>
      obtain ⟨_, hsink, ⟨e, rfl, hm, hc⟩ | ⟨_, rfl, _⟩⟩ := setupMachine_rig_cases h
      · exact .inl ⟨e, rfl, hm, hsink, hc⟩
      · exact absurd h (hne _)

/-- Creating a machine that is not a dynamic one, or was declared and is the sink if it should. -/
theorem Recreatable.insert {name2handle : StdString → Option Declaration} {R R' : Rig}
    {this : MachineId} {c : MachineClass} {x : Machine} (h : R.Recreatable name2handle)
    (hm : R'.space.machines = R.space.machines.insert this x)
    (hcls : R'.cls = Function.update R.cls this c)
    (hsink : ∀ p ∈ R.space.machines, R.space.sink = some p → R'.space.sink = some p)
    (hnew : ∀ handle, c = .dynamicMachine handle →
      ∃ des, name2handle handle = some des ∧ Creatable des.outputDescriptor.toList ∧
        (des.isSink = true → R'.space.sink = some this)) :
    R'.Recreatable name2handle := by
  intro p hp handle hc
  by_cases heq : p = this
  · rw [hcls, heq, Function.update_self] at hc
    rw [heq]
    exact hnew handle hc
  · rw [hcls, Function.update_of_ne heq] at hc
    rw [hm, Std.ExtTreeMap.mem_insert] at hp
    have hp : p ∈ R.space.machines := hp.resolve_left (by simpa using Ne.symm heq)
    obtain ⟨des, hdes, hcreate, hreg⟩ := h p hp handle hc
    exact ⟨des, hdes, hcreate, fun hd ↦ hsink p hp (hreg hd)⟩

theorem Recreatable.setupMachine {name2handle : StdString → Option Declaration} {R R' : Rig}
    {this : MachineId} {c : MachineClass} {spec : MachineSpec} {garbage : Option MachineId}
    {r : Except JException Unit} (h : R.Recreatable name2handle)
    (hc : ∀ handle, c ≠ .dynamicMachine handle)
    (hset : R.setupMachine this c spec garbage = some (r, R')) : R'.Recreatable name2handle := by
  obtain ⟨_, hsink, ⟨_, _, hm, hcls⟩ | ⟨_, _, _, hm, hcls⟩⟩ := setupMachine_rig_cases hset
  · have hs : Survives R.space R'.space := .of_shrinks (.of_machines_eq hm hsink)
    have hkept := h.of_survives hs
    rw [← hcls] at hkept
    exact hkept
  · exact h.insert hm hcls (fun p _ hp ↦ hsink.trans hp) fun handle heq ↦ absurd heq (hc handle)

theorem Recreatable.instanceDynamic {name2handle : StdString → Option Declaration} {R R' : Rig}
    {this : MachineId} {handle : StdString} {given : Option StdString}
    {garbage : Option MachineId} {r : Except JException Unit} (h : R.Recreatable name2handle)
    (hi : R.instanceDynamic name2handle this handle given garbage = some (r, R')) :
    R'.Recreatable name2handle := by
  obtain ⟨_, _, hm, hsink, hcls⟩ | ⟨des, R₁, _, hdes, hset, hm, hcls, hsink⟩ :=
    instanceDynamic_cases hi
  · have hs : Survives R.space R'.space := .of_shrinks (.of_machines_eq hm hsink)
    have hkept := h.of_survives hs
    rw [← hcls] at hkept
    exact hkept
  obtain ⟨_, _, ⟨_, hr, _⟩ | ⟨output, _, hcreate, hm₁, hcls₁⟩⟩ := setupMachine_rig_cases hset
  · cases hr
  refine h.insert (hm.trans hm₁) (hcls.trans hcls₁) (fun p _ hp ↦ ?_) fun handle' heq ↦ ?_
  · split at hsink
    · rw [hsink.1] at hp
      cases hp
    · exact hsink.trans hp
  · obtain rfl := MachineClass.dynamicMachine.inj heq
    refine ⟨des, hdes, hcreate, fun hd ↦ ?_⟩
    rw [if_pos hd] at hsink
    exact hsink.2

theorem step_recreatable {name2handle : StdString → Option Declaration} {R R' : Rig} {a : Action}
    {r : Except JException Unit} (h : R.Recreatable name2handle)
    (hstep : R.step name2handle a = some (r, R')) : R'.Recreatable name2handle := by
  cases a with
  | instanceDynamic this handle given garbage => exact h.instanceDynamic hstep
  | machineSequencer this name siblingName garbage =>
    exact h.setupMachine (fun _ ↦ by simp) hstep
  | sequence this garbage => exact h.setupMachine (fun _ ↦ by simp) hstep
  | network a =>
    have hkept : ∀ {o : Outcome Unit}, (∀ r σ, o = some (r, σ) → Survives R.space σ) →
        (match o with
          | none => none
          | some (r, σ) => some (r, (⟨σ, R.cls⟩ : Rig))) = some (r, R') →
        R'.Recreatable name2handle := by
      intro o hs heq
      split at heq
      · cases heq
      · obtain ⟨_, rfl⟩ := Prod.mk.inj (Option.some.inj heq)
        exact h.of_survives (hs _ _ rfl)
    cases a with
    | setupMachine this spec garbage => cases hstep
    | registerSink s => cases hstep
    | attachInput this m o i =>
      refine hkept (fun _ _ h ↦ ?_) hstep
      rcases internalAttachInput_connects h with rfl | ⟨m₀, hm⟩
      · exact kept_survives.refl _
      · exact fun p hp ↦ ⟨(hm.live p).mp hp, fun hs ↦ hm.sink.trans hs⟩
    | detachInput this m o i =>
      exact hkept (fun _ _ h ↦ kept_survives.internalDetachInput h) hstep
    | detachAllInputs this m => exact hkept (fun _ _ h ↦ kept_survives.detachAllInputs h) hstep
    | detachAllOutputs this => exact hkept (fun _ _ h ↦ kept_survives.detachAllOutputs h) hstep
    | tightlyConnect this m => exact hkept (fun _ _ h ↦ kept_survives.tightlyConnect h) hstep
    | disconnectAndDestroy m =>
      exact hkept (fun _ _ h ↦ kept_survives.disconnectAndDestroy _ h) hstep

/-! ### What loading does -/

/-- Entries are read one by one, and a connection is never made: the lookup of its machines does
not return one. -/
theorem parseConnectionsEntries_ok {l : List (StdString × List (StdString × StdString × StdString))}
    {R R' : Rig} (h : parseConnectionsEntries l R = some (.ok (), R')) :
    R' = R ∧ ∀ e ∈ l, e.2 = [] := by
  induction l with
  | nil =>
    obtain ⟨_, rfl⟩ := Prod.mk.inj (Option.some.inj h)
    exact ⟨rfl, by simp⟩
  | cons e l ih =>
    obtain ⟨name, cs⟩ := e
    have hempty : cs = [] := by
      cases cs with
      | nil => rfl
      | cons c cs =>
        have hnone : parseConnectionEntry name c R = none := by
          unfold parseConnectionEntry
          split
          · next hd _ =>
            unfold internalGetByName at hd
            split at hd <;> simp at hd
          · rfl
        simp [parseConnectionsEntries, parseConnectionsEntry, hnone] at h
    subst hempty
    obtain ⟨rfl, hl⟩ := ih h
    exact ⟨rfl, by simpa using hl⟩

theorem parseConnectionsEntries_of_empty
    {l : List (StdString × List (StdString × StdString × StdString))} (R : Rig)
    (h : ∀ e ∈ l, e.2 = []) : parseConnectionsEntries l R = some (.ok (), R) := by
  induction l with
  | nil => rfl
  | cons e l ih =>
    obtain ⟨name, cs⟩ := e
    obtain rfl : cs = [] := h (name, cs) (by simp)
    exact ih fun e he ↦ h e (by simp [he])

/-- A sequencer is never connected to its sibling again. -/
theorem finalizeXmlInitialization_ok {cache : List (MachineId × StdString)} {R R' : Rig}
    (h : finalizeXmlInitialization cache R = some (.ok (), R')) : cache = [] ∧ R' = R := by
  cases cache with
  | nil =>
    obtain ⟨_, rfl⟩ := Prod.mk.inj (Option.some.inj h)
    exact ⟨rfl, rfl⟩
  | cons e cache =>
    obtain ⟨mseq, siblingName⟩ := e
    unfold finalizeXmlInitialization internalGetByName at h
    split at h
    · cases h
    · cases h
    · next hs => split at hs <;> simp at hs

/-- Reading a machine of the file: a `Sequence` is skipped, and a sequencer waits in the cache. -/
theorem parseMachine_ok {name2handle : StdString → Option Declaration} {address : Nat ↪ MachineId}
    {garbage : Option MachineId} {e : StdString × MachineClass} {L L' : Loader}
    (h : parseMachine name2handle address garbage e L = some (.ok (), L')) :
    (∀ siblingName, e.2 = .machineSequencer siblingName → L'.cache ≠ []) ∧
      (L.cache ≠ [] → L'.cache ≠ []) ∧
      ((∀ p ∈ L.rig.space.machines, L.rig.cls p ≠ .sequence) →
        ∀ p ∈ L'.rig.space.machines, L'.rig.cls p ≠ .sequence) := by
  obtain ⟨name, c⟩ := e
  have hclass : ∀ {R' : Rig} {x : Machine}, c ≠ .sequence →
      R'.space.machines = L.rig.space.machines.insert (address L.created) x →
      R'.cls = Function.update L.rig.cls (address L.created) c →
      (∀ p ∈ L.rig.space.machines, L.rig.cls p ≠ .sequence) →
      ∀ p ∈ R'.space.machines, R'.cls p ≠ .sequence := by
    intro R' x hne hm hc hold p hp
    rw [hc]
    by_cases heq : p = address L.created
    · rwa [heq, Function.update_self]
    · rw [Function.update_of_ne heq]
      rw [hm, Std.ExtTreeMap.mem_insert] at hp
      exact hold p (hp.resolve_left (by simpa using Ne.symm heq))
  unfold parseMachine at h
  dsimp only at h
  split at h
  · next siblingName hc =>
    split at h
    · cases h
    · cases h
    · next R hset =>
      obtain ⟨_, rfl⟩ := Prod.mk.inj (Option.some.inj h)
      obtain ⟨_, _, ⟨_, hr, _⟩ | ⟨_, _, _, hm, hcls⟩⟩ := setupMachine_rig_cases hset
      · cases hr
      · exact ⟨by simp, by simp, hclass (by simp) hm hcls⟩
  · next handle hc =>
    split at h
    · cases h
    · next r R hi =>
      obtain ⟨rfl, rfl⟩ := Prod.mk.inj (Option.some.inj h)
      obtain ⟨_, hr, _⟩ | ⟨des, R₁, _, _, hset, hm, hcls, _⟩ := instanceDynamic_cases hi
      · cases hr
      obtain ⟨_, _, ⟨_, hr, _⟩ | ⟨_, _, _, hm₁, hcls₁⟩⟩ := setupMachine_rig_cases hset
      · cases hr
      · exact ⟨by simp, id, hclass (by simp) (hm.trans hm₁) (hcls.trans hcls₁)⟩
  · obtain ⟨_, rfl⟩ := Prod.mk.inj (Option.some.inj h)
    exact ⟨by simp, id, id⟩

theorem parseMachines_ok {name2handle : StdString → Option Declaration} {address : Nat ↪ MachineId}
    {garbage : Option MachineId} {l : List (StdString × MachineClass)} {L L' : Loader}
    (h : parseMachines name2handle address garbage l L = some (.ok (), L')) :
    (∀ e ∈ l, ∀ siblingName, e.2 = .machineSequencer siblingName → L'.cache ≠ []) ∧
      (L.cache ≠ [] → L'.cache ≠ []) ∧
      ((∀ p ∈ L.rig.space.machines, L.rig.cls p ≠ .sequence) →
        ∀ p ∈ L'.rig.space.machines, L'.rig.cls p ≠ .sequence) := by
  induction l generalizing L with
  | nil =>
    obtain ⟨_, rfl⟩ := Prod.mk.inj (Option.some.inj h)
    exact ⟨by simp, id, id⟩
  | cons e l ih =>
    rw [parseMachines] at h
    split at h
    · next L₁ hL₁ =>
      obtain ⟨hseq, hcache, hcls⟩ := parseMachine_ok hL₁
      obtain ⟨hseqs, hcaches, hclss⟩ := ih h
      refine ⟨fun d hd siblingName hs ↦ ?_, fun hc ↦ hcaches (hcache hc), fun hc ↦ hclss (hcls hc)⟩
      rcases List.mem_cons.mp hd with rfl | hd
      · exact hcaches (hseq siblingName hs)
      · exact hseqs d hd siblingName hs
    · next hne => exact absurd h (hne _)

/-- Only files with nothing but dynamic machines and no connections are read without failure, or
those that also hold a `Sequence`, which is lost. -/
theorem load_ok {name2handle : StdString → Option Declaration} {address : Nat ↪ MachineId}
    {garbage : Option MachineId} {file : ProjectFile} {R : Rig}
    (h : load name2handle address garbage file = some (.ok (), R)) :
    (∀ e ∈ file.connections, e.2 = []) ∧
      (∀ e ∈ file.machines, ∀ siblingName, e.2 ≠ .machineSequencer siblingName) ∧
      ∀ p ∈ R.space.machines, R.cls p ≠ .sequence := by
  unfold load at h
  split at h
  · cases h
  · cases h
  · next L hL =>
    obtain ⟨hseq, _, hcls⟩ := parseMachines_ok hL
    split at h
    · next R₁ hR₁ =>
      obtain ⟨rfl, hempty⟩ := parseConnectionsEntries_ok hR₁
      obtain ⟨hcache, rfl⟩ := finalizeXmlInitialization_ok h
      refine ⟨hempty, fun e he siblingName hs ↦ hseq e he siblingName hs hcache, hcls ?_⟩
      intro p hp
      simp [empty, Space.empty] at hp
    · next hne => exact absurd h (hne _)

theorem toList_insert_perm {machines : Std.ExtTreeMap MachineId Machine} {p : MachineId}
    (hp : p ∉ machines) (x : Machine) :
    (machines.insert p x).toList.Perm ((p, x) :: machines.toList) := by
  have hnodup : ∀ m : Std.ExtTreeMap MachineId Machine, m.toList.Nodup := by
    intro m
    refine m.distinct_keys_toList.imp fun {a b} hne heq ↦ hne ?_
    simp [heq]
  refine (List.perm_ext_iff_of_nodup (hnodup _) (List.nodup_cons.mpr ⟨?_, hnodup _⟩)).mpr ?_
  · intro hmem
    exact hp (mem_of_getElem? (σ := ⟨machines, fun _ ↦ default, 0, none, none, []⟩)
      (Std.ExtTreeMap.mem_toList_iff_getElem?_eq_some.mp hmem))
  · rintro ⟨q, y⟩
    rw [Std.ExtTreeMap.mem_toList_iff_getElem?_eq_some, Std.ExtTreeMap.getElem?_insert,
      List.mem_cons, Std.ExtTreeMap.mem_toList_iff_getElem?_eq_some]
    by_cases hq : p = q
    · subst hq
      have hnone : machines[p]? = none := Std.ExtTreeMap.getElem?_eq_none hp
      simp [hnone, eq_comm]
    · simp [hq, Ne.symm hq]

theorem mem_listing {R : Rig} {p : MachineId} {x : Machine} (h : R.space.machines[p]? = some x) :
    (x.name, R.cls p) ∈ R.listing :=
  List.mem_map.mpr ⟨(p, x), Std.ExtTreeMap.mem_toList_iff_getElem?_eq_some.mpr h, rfl⟩

theorem listing_insert {R R' : Rig} {this : MachineId} {c : MachineClass} {x : Machine}
    (hthis : this ∉ R.space.machines) (hm : R'.space.machines = R.space.machines.insert this x)
    (hcls : R'.cls = Function.update R.cls this c) :
    R'.listing.Perm ((x.name, c) :: R.listing) := by
  unfold listing
  rw [hm, hcls]
  refine ((toList_insert_perm hthis x).map _).trans (List.Perm.of_eq ?_)
  rw [List.map_cons, Function.update_self]
  refine congrArg _ (List.map_congr_left fun e he ↦ ?_)
  have hlive := mem_of_getElem? (σ := R.space)
    (Std.ExtTreeMap.mem_toList_iff_getElem?_eq_some.mp he)
  rw [Function.update_of_ne]
  rintro rfl
  exact hthis hlive

/-- The class is a dynamic machine that is declared a sink. -/
def DeclaredSink (name2handle : StdString → Option Declaration) (c : MachineClass) : Prop :=
  ∃ handle des, c = .dynamicMachine handle ∧ name2handle handle = some des ∧ des.isSink = true

/-- The machines of the file are dynamic machines that can be created, at most one of them a
sink. -/
structure Loadable (name2handle : StdString → Option Declaration)
    (l : List (StdString × MachineClass)) : Prop where
  known : ∀ e ∈ l, ∃ handle des, e.2 = .dynamicMachine handle ∧ name2handle handle = some des ∧
    Creatable des.outputDescriptor.toList
  sink : l.Pairwise fun a b ↦ DeclaredSink name2handle a.2 → ¬ DeclaredSink name2handle b.2

/-- What has been read so far, with the machines in `l` still to come. -/
structure Loader.Ready (name2handle : StdString → Option Declaration) (address : Nat ↪ MachineId)
    (L : Loader) (l : List (StdString × MachineClass)) : Prop where
  fresh : ∀ p ∈ L.rig.space.machines, ∃ i < L.created, p = address i
  bare : ∀ (p : MachineId) x, L.rig.space.machines[p]? = some x → x.input = ∅
  cache : L.cache = []
  sink : L.rig.space.sink = none ∨ ∀ e ∈ l, ¬ DeclaredSink name2handle e.2

theorem instanceDynamic_ok {name2handle : StdString → Option Declaration} {R : Rig}
    {this : MachineId} {handle : StdString} (given : Option StdString)
    (garbage : Option MachineId) {des : Declaration} (hthis : this ∉ R.space.machines)
    (hdes : name2handle handle = some des) (hcreate : Creatable des.outputDescriptor.toList)
    (hsink : des.isSink = true → R.space.sink = none) :
    ∃ R', R.instanceDynamic name2handle this handle given garbage = some (.ok (), R') := by
  have hsetup : ∃ R₁, R.setupMachine this (.dynamicMachine handle) (des.spec handle given) garbage =
      some (.ok (), R₁) := setupMachine_rig_ok _ garbage hthis hcreate
  obtain ⟨R₁, hR₁⟩ := hsetup
  obtain ⟨_, hsame, ⟨_, hr, _⟩ | ⟨_, _, _, hm, _⟩⟩ := setupMachine_rig_cases hR₁
  · cases hr
  unfold instanceDynamic
  simp only [hdes, hR₁]
  split
  · next hd =>
    have hlive : this ∈ R₁.space.machines := by
      rw [hm]
      exact Std.ExtTreeMap.mem_insert_self
    simp [internalRegisterSink, hlive, hsame, hsink hd, returns]
  · exact ⟨R₁, rfl⟩

/-- Reading one more dynamic machine. -/
theorem Loader.Ready.parseMachine {name2handle : StdString → Option Declaration}
    {address : Nat ↪ MachineId} (garbage : Option MachineId) {L : Loader}
    {e : StdString × MachineClass} {l : List (StdString × MachineClass)}
    (h : L.Ready name2handle address (e :: l)) (hl : Loadable name2handle (e :: l)) :
    ∃ L', Rig.parseMachine name2handle address garbage e L = some (.ok (), L') ∧
      L'.Ready name2handle address l ∧ L'.rig.listing.Perm (e :: L.rig.listing) := by
  obtain ⟨handle, des, hc, hdes, hcreate⟩ := hl.known e (by simp)
  have hnew : address L.created ∉ L.rig.space.machines := by
    intro hmem
    obtain ⟨i, hi, heq⟩ := h.fresh _ hmem
    exact absurd (address.injective heq) (by omega)
  have hsink : des.isSink = true → L.rig.space.sink = none := by
    intro hd
    exact h.sink.resolve_right fun hno ↦ hno e (by simp) ⟨handle, des, hc, hdes, hd⟩
  obtain ⟨R, hR⟩ := instanceDynamic_ok (some e.1) garbage hnew hdes hcreate hsink
  obtain ⟨_, hr, _⟩ | ⟨des', R₁, _, hdes', hset, hm, hcls, hs⟩ := instanceDynamic_cases hR
  · cases hr
  obtain rfl : des = des' := Option.some.inj (hdes.symm.trans hdes')
  obtain ⟨_, _, ⟨_, hr, _⟩ | ⟨output, _, _, hm₁, hcls₁⟩⟩ := setupMachine_rig_cases hset
  · cases hr
  refine ⟨⟨R, L.created + 1, L.cache⟩, by simp [Rig.parseMachine, hc, hR], ⟨?_, ?_, h.cache, ?_⟩, ?_⟩
  · intro p hp
    rw [hm, hm₁, Std.ExtTreeMap.mem_insert] at hp
    rcases hp with heq | hp
    · obtain rfl : address L.created = p := by simpa using heq
      exact ⟨L.created, by simp, rfl⟩
    · obtain ⟨i, hi, heq⟩ := h.fresh p hp
      exact ⟨i, by simp only; omega, heq⟩
  · intro p x hx
    rw [hm, hm₁, Std.ExtTreeMap.getElem?_insert] at hx
    split at hx
    · obtain rfl := Option.some.inj hx
      rfl
    · exact h.bare p x hx
  · split at hs
    · next hd =>
      refine .inr fun d hmem ↦ ?_
      exact (List.pairwise_cons.mp hl.sink).1 d hmem ⟨handle, des, hc, hdes, hd⟩
    · rcases h.sink with hnone | hno
      · exact .inl (hs.trans hnone)
      · exact .inr fun d hmem ↦ hno d (by simp [hmem])
  · have hperm := listing_insert hnew (hm.trans hm₁) (hcls.trans hcls₁)
    simpa [Declaration.spec, ← hc] using hperm

/-- All dynamic machines of the file are created, under their names. -/
theorem Loader.Ready.parseMachines {name2handle : StdString → Option Declaration}
    {address : Nat ↪ MachineId} (garbage : Option MachineId) {L : Loader}
    {l : List (StdString × MachineClass)} (h : L.Ready name2handle address l)
    (hl : Loadable name2handle l) :
    ∃ L', Rig.parseMachines name2handle address garbage l L = some (.ok (), L') ∧
      L'.Ready name2handle address [] ∧ L'.rig.listing.Perm (l ++ L.rig.listing) := by
  induction l generalizing L with
  | nil => exact ⟨L, rfl, h, .refl _⟩
  | cons e l ih =>
    obtain ⟨L₁, hL₁, hready, hperm⟩ := h.parseMachine garbage hl
    have hl' : Loadable name2handle l :=
      ⟨fun d hd ↦ hl.known d (by simp [hd]), (List.pairwise_cons.mp hl.sink).2⟩
    obtain ⟨L₂, hL₂, hready₂, hperm₂⟩ := ih hready hl'
    refine ⟨L₂, by simp [Rig.parseMachines, hL₁, hL₂], hready₂, ?_⟩
    exact hperm₂.trans ((hperm.append_left l).trans List.perm_middle)

/-! ### The round trip -/

/-- Every machine is a dynamic machine, and nothing is connected to an input. -/
def Plain (R : Rig) : Prop :=
  ∀ (p : MachineId) x, R.space.machines[p]? = some x →
    (∃ handle, R.cls p = .dynamicMachine handle) ∧ x.input = ∅

theorem mem_of_mapM {α β : Type} {f : α → Option β} {l : List α} {l' : List β}
    (h : l.mapM f = some l') {a : α} (ha : a ∈ l) : ∃ b ∈ l', f a = some b := by
  induction l generalizing l' with
  | nil => simp at ha
  | cons c l ih =>
    simp only [List.mapM_cons, Option.pure_def, Option.bind_eq_bind, Option.bind_eq_some_iff,
      Option.some.injEq] at h
    obtain ⟨b, hb, l'', hl, rfl⟩ := h
    rcases List.mem_cons.mp ha with rfl | ha
    · exact ⟨b, by simp, hb⟩
    · obtain ⟨d, hd, hf⟩ := ih hl ha
      exact ⟨d, by simp [hd], hf⟩

/-- An input with something on its list is written with at least one connection. -/
theorem connectionXml_eq_nil_iff {R : Rig} {p : MachineId} {x : Machine}
    (h : R.space.machines[p]? = some x) : R.connectionXml p = some [] ↔ x.input = ∅ := by
  constructor
  · intro hc
    unfold connectionXml at hc
    split at hc
    · cases hc
    next conns hconns =>
    have hnil : conns = [] := by
      refine List.eq_nil_iff_forall_not_mem.mpr fun c hmem ↦ ?_
      obtain ⟨_, hb, _⟩ := mem_of_mapM hc hmem
      simp at hb
    obtain ⟨entries, hentries, hmap⟩ := Option.map_eq_some_iff.mp hconns
    unfold inputEntries at hentries
    simp only [h, Option.bind_eq_bind, Option.bind_eq_some_iff] at hentries
    obtain ⟨lists, hlists, hflat⟩ := hentries
    obtain rfl : entries = [] := List.map_eq_nil_iff.mp (hmap.trans hnil)
    rw [Option.some.injEq, List.flatten_eq_nil_iff] at hflat
    rw [← Std.ExtTreeMap.toList_eq_nil_iff]
    refine List.eq_nil_iff_forall_not_mem.mpr fun e he ↦ ?_
    obtain ⟨b, hb, hread⟩ := mem_of_mapM hlists he
    simp only [Option.bind_eq_some_iff, Option.some.injEq, hflat b hb,
      List.map_eq_nil_iff] at hread
    obtain ⟨l, hl, rfl⟩ := hread
    have hlist := ((Library.walk_eq_some_iff _ _ _ _).mp hl).1
    cases hlist
  · intro hx
    have hentries : R.space.inputEntries p = some [] := by
      simp [inputEntries, h, Std.ExtTreeMap.toList_eq_nil_iff.mpr hx]
    simp [connectionXml, internalGetInputConnections, hentries]

theorem connectionsXml_of_bare {R : Rig}
    (h : ∀ (p : MachineId) x, R.space.machines[p]? = some x → x.input = ∅) :
    R.connectionsXml = some (R.space.machines.toList.map fun e ↦ (e.2.name, [])) := by
  refine mapM_eq_some _ fun e he ↦ ?_
  have hx := Std.ExtTreeMap.mem_toList_iff_getElem?_eq_some.mp he
  rw [(connectionXml_eq_nil_iff hx).mpr (h e.1 e.2 hx)]
  rfl

theorem generateXml_ok {R : Rig} {file : ProjectFile} (h : R.generateXml = some (.ok file)) :
    file.machines = R.listing ∧ R.connectionsXml = some file.connections := by
  unfold generateXml at h
  split at h
  · cases h
  · obtain ⟨l, hl, heq⟩ := Option.map_eq_some_iff.mp h
    obtain rfl := Except.ok.inj heq
    exact ⟨rfl, hl⟩

theorem RoundTrips.plain {name2handle : StdString → Option Declaration}
    {address : Nat ↪ MachineId} {garbage : Option MachineId} {R : Rig}
    (h : R.RoundTrips name2handle address garbage) : R.Plain := by
  obtain ⟨file, R', hgen, hload, hperm, _⟩ := h
  obtain ⟨hmachines, hconns⟩ := generateXml_ok hgen
  obtain ⟨hempty, hseq, hcls⟩ := load_ok hload
  intro p x hx
  have hmem := mem_listing hx
  constructor
  · cases hc : R.cls p with
    | dynamicMachine handle => exact ⟨handle, rfl⟩
    | machineSequencer siblingName =>
      exact absurd hc (hseq _ (hmachines ▸ hmem) siblingName)
    | sequence =>
      obtain ⟨e, he, heq⟩ := List.mem_map.mp (hperm.mem_iff.mpr hmem)
      have hlive := mem_of_getElem? (σ := R'.space)
        (Std.ExtTreeMap.mem_toList_iff_getElem?_eq_some.mp he)
      exact absurd ((Prod.mk.inj heq).2.trans hc) (hcls e.1 hlive)
  · obtain ⟨b, hb, hread⟩ := mem_of_mapM hconns
      (Std.ExtTreeMap.mem_toList_iff_getElem?_eq_some.mpr hx)
    obtain ⟨l, hl, rfl⟩ := Option.map_eq_some_iff.mp hread
    obtain rfl : l = [] := hempty _ hb
    exact (connectionXml_eq_nil_iff hx).mp hl

theorem Plain.loadable {name2handle : StdString → Option Declaration} {R : Rig} (h : R.Plain)
    (hr : R.Recreatable name2handle) : Loadable name2handle R.listing where
  known := by
    intro e he
    obtain ⟨⟨p, x⟩, hmem, rfl⟩ := List.mem_map.mp he
    have hx := Std.ExtTreeMap.mem_toList_iff_getElem?_eq_some.mp hmem
    obtain ⟨⟨handle, hc⟩, _⟩ := h p x hx
    obtain ⟨des, hdes, hcreate, _⟩ := hr p (mem_of_getElem? hx) handle hc
    exact ⟨handle, des, hc, hdes, hcreate⟩
  sink := by
    have hsink : ∀ e ∈ R.space.machines.toList, DeclaredSink name2handle (R.cls e.1) →
        R.space.sink = some e.1 := by
      rintro e he ⟨handle, des, hc, hdes, hd⟩
      obtain ⟨des', hdes', _, hreg⟩ := hr e.1 (mem_of_getElem? (σ := R.space)
        (Std.ExtTreeMap.mem_toList_iff_getElem?_eq_some.mp he)) handle hc
      obtain rfl : des = des' := Option.some.inj (hdes.symm.trans hdes')
      exact hreg hd
    refine List.pairwise_map.mpr ?_
    refine R.space.machines.distinct_keys_toList.imp_of_mem fun {a b} ha hb hne hda hdb ↦ hne ?_
    have heq := (hsink a ha hda).symm.trans (hsink b hb hdb)
    simp [Option.some.inj heq]

theorem Plain.roundTrips {name2handle : StdString → Option Declaration} {R : Rig} (h : R.Plain)
    (hr : R.Recreatable name2handle) (address : Nat ↪ MachineId) (garbage : Option MachineId) :
    R.RoundTrips name2handle address garbage := by
  have hconns := connectionsXml_of_bare fun p x hx ↦ (h p x hx).2
  have hno : (R.listing.any fun e ↦ e.2 = .machineSequencer []) = false := by
    rw [List.any_eq_false]
    intro e he
    obtain ⟨handle, _, hc, _⟩ := (h.loadable hr).known e he
    simp [hc]
  have hgen : R.generateXml =
      some (.ok ⟨R.listing, R.space.machines.toList.map fun e ↦ (e.2.name, [])⟩) := by
    simp [generateXml, hno, hconns]
  have hready : Loader.Ready name2handle address ⟨empty, 0, []⟩ R.listing :=
    ⟨by simp [empty, Space.empty], by simp [empty, Space.empty], rfl, .inl rfl⟩
  obtain ⟨L, hL, hdone, hperm⟩ := hready.parseMachines garbage (h.loadable hr)
  have hparse := parseConnectionsEntries_of_empty
    (l := R.space.machines.toList.map fun e ↦ (e.2.name, [])) L.rig (by simp)
  have hload : load name2handle address garbage
      ⟨R.listing, R.space.machines.toList.map fun e ↦ (e.2.name, [])⟩ = some (.ok (), L.rig) := by
    simp [load, hL, hparse, hdone.cache, finalizeXmlInitialization]
  refine ⟨_, L.rig, hgen, hload, ?_, _, _, hconns, connectionsXml_of_bare hdone.bare, ?_⟩
  · have hnil : empty.listing = [] :=
      List.map_eq_nil_iff.mpr (Std.ExtTreeMap.toList_eq_nil_iff.mpr rfl)
    rwa [hnil, List.append_nil] at hperm
  · have hnone : ∀ σ : Space, ((σ.machines.toList.map fun e ↦ (e.2.name, [])).flatMap
        fun e : StdString × List (StdString × StdString × StdString) ↦ e.2.map (Prod.mk e.1)) =
        [] := by
      intro σ
      rw [List.flatMap_eq_nil_iff]
      simp
    rw [hnone, hnone]

/-- In every session, what is written is read back exactly if all machines are dynamic machines
and nothing is connected. -/
theorem reloads_iff (name2handle : StdString → Option Declaration) (address : Nat ↪ MachineId)
    (garbage : Option MachineId) {R : Rig} {as : List Action}
    (h : Library.Run (step name2handle) (fun _ _ _ ↦ True) empty as R) :
    R.RoundTrips name2handle address garbage ↔ R.Plain := by
  have hr : R.Recreatable name2handle := by
    refine h.invariant (Recreatable name2handle) (fun _ _ _ _ hs _ ↦ step_recreatable hs) ?_
    intro p hp
    simp [empty, Space.empty] at hp
  exact ⟨RoundTrips.plain, fun hp ↦ hp.roundTrips hr address garbage⟩

/-- Libraries for an oscillator and for a mixer that is a sink. -/
def studio (handle : StdString) : Option Declaration :=
  if handle = str "osc" then
    some ⟨∅, .ofList [(str "out", (⟨.zeroD, 1, false⟩ : Description))], false⟩
  else if handle = str "mixer" then
    some ⟨.ofList [(str "in", (⟨.zeroD, 1, false⟩ : Description))], ∅, true⟩
  else none

/-- The oscillator and the mixer. -/
def unpatched : List Action :=
  [.instanceDynamic 1 (str "mixer") none none, .instanceDynamic 2 (str "osc") none none]

/-- The two are written and read back as long as they are not connected. -/
theorem reloads_iff_unpatched :
    ∃ R, Library.Run (step studio) (fun _ _ _ ↦ True) empty unpatched R ∧
      R.space.machineNames = [str "m#0:mixer", str "m#1:osc"] ∧
      R.RoundTrips studio (Function.Embedding.refl _) none := by
  have heval : (Library.runAll (step studio) (fun _ _ _ ↦ true) empty unpatched).map (fun R ↦
      (R.space.machineNames, R.space.machines.toList.all fun e ↦
        decide (R.cls e.1 ∈ [.dynamicMachine (str "mixer"), .dynamicMachine (str "osc")]) &&
          e.2.input.isEmpty)) = some ([str "m#0:mixer", str "m#1:osc"], true) := by
    decide +kernel
  obtain ⟨R, hR, h⟩ := Option.map_eq_some_iff.mp heval
  obtain ⟨hnames, hall⟩ := Prod.mk.inj h
  have hrun : Library.Run (step studio) (fun _ _ _ ↦ True) empty unpatched R :=
    (Library.Run.of_runAll hR).mono fun _ _ _ _ ↦ trivial
  refine ⟨R, hrun, hnames, (reloads_iff studio _ none hrun).mpr fun p x hx ↦ ?_⟩
  have hpx := List.all_eq_true.mp hall (p, x)
    (Std.ExtTreeMap.mem_toList_iff_getElem?_eq_some.mpr hx)
  simp only [Bool.and_eq_true, decide_eq_true_eq, List.mem_cons, List.not_mem_nil,
    or_false] at hpx
  refine ⟨?_, by simpa using hpx.2⟩
  rcases hpx.1 with hc | hc
  · exact ⟨_, hc⟩
  · exact ⟨_, hc⟩

/-- With the oscillator connected to the mixer, the project cannot be read any more. -/
theorem connected_project_not_loaded :
    ¬ ∀ (name2handle : StdString → Option Declaration) (address : Nat ↪ MachineId)
      (garbage : Option MachineId) (as : List Action) (R : Rig),
      Library.Run (step name2handle) (fun _ _ _ ↦ True) empty as R →
      R.space.machineNames.Nodup → R.RoundTrips name2handle address garbage := by
  intro hall
  let patched : List Action :=
    unpatched ++ [.network (.attachInput 1 (some 2) (str "out") (str "in"))]
  have heval : (Library.runAll (step studio) (fun _ _ _ ↦ true) empty patched).map (fun R ↦
      (R.space.machineNames, R.space.machines[1]?.map (·.input.isEmpty))) =
      some ([str "m#0:mixer", str "m#1:osc"], some false) := by
    decide +kernel
  obtain ⟨R, hR, h⟩ := Option.map_eq_some_iff.mp heval
  obtain ⟨hnames, hinput⟩ := Prod.mk.inj h
  obtain ⟨x, hx, hne⟩ := Option.map_eq_some_iff.mp hinput
  have hplain := (hall studio (Function.Embedding.refl _) none patched R
    ((Library.Run.of_runAll hR).mono fun _ _ _ _ ↦ trivial) (by rw [hnames]; decide)).plain
  obtain ⟨_, hempty⟩ := hplain 1 x hx
  simp [hempty] at hne

end Rig
end Vuknob
