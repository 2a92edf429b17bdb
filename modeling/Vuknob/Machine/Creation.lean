import Vuknob.Machine.Acyclic

/-!
# Creating dynamic machines

The constructors of `DynamicMachine` (`src_jni/dynamic_machine.cc:882–986`): the outputs are
created and entered in the registry of signals (`src_jni/signal.cc:819–859,973–1132`), the
machine is registered, it becomes the sink if its library says so, and the library's `init` is
called. Each of these can throw, and nothing is taken back.
-/

namespace Vuknob

/-- The entries of `def_samples`, `def_resolution` and `def_frequency` for one dimension. -/
structure Format where
  samples : Int
  resolution : Resolution
  frequency : Int
  deriving DecidableEq

/-- The static members of class `Signal`, `src_jni/signal.cc:819–823`, with the signals of a
dimension in the order of their addresses. Nothing that is modelled reads the members that a
buffer allocation writes to a signal. -/
structure Registry where
  initiated : Bool
  defaults : Dimension → Format
  signalMap : Dimension → List SignalId

namespace Registry

/-- Whether a new signal of this dimension finds its defaults, `src_jni/signal.cc:831`. -/
def ready (reg : Registry) (d : Dimension) : Bool := reg.initiated && 0 < (reg.defaults d).samples

/-- `internal_alloc_0d_buffer` and `internal_alloc_MIDI_buffer`, `src_jni/signal.cc:975–1066`;
other dimensions are turned away by the callers. `alloc` says whether there is memory for the
buffer of a signal. The result is the exception, if any. -/
def internalAllocBuffer (alloc : SignalId → Bool) (reg : Registry) (d : Dimension)
    (s : SignalId) : Option JException :=
  let allocated : Option JException :=
    if alloc s then none else some ⟨str "Failed to allocate buffer."⟩
  match d, (reg.defaults d).resolution with
  | .zeroD, .bits8 | .zeroD, .bits16 | .zeroD, .bits32 | .zeroD, .fl32bit
  | .zeroD, .fx8p24bit => allocated
  | .zeroD, _ => some ⟨str "Unsupported resolution for 0D signal."⟩
  | .midi, .ptr => allocated
  | .midi, _ => some ⟨str "Unsupported resolution for MIDI signal."⟩
  | _, _ => some ⟨str "Unsupported dimension"⟩

/-- `Signal::internal_set_defaults`, `src_jni/signal.cc:1100–1132`: the buffers of all signals of
the dimension are allocated anew. -/
def internalSetDefaults (alloc : SignalId → Bool) (reg : Registry) (d : Dimension) (f : Format) :
    Option JException × Registry :=
  let cleared : Dimension → Format :=
    if reg.initiated then reg.defaults else fun d ↦ { reg.defaults d with samples := 0 }
  let reg' : Registry := ⟨true, Function.update cleared d f, reg.signalMap⟩
  ((reg'.signalMap d).findSome? (reg'.internalAllocBuffer alloc d), reg')

/-- What the constructor of `Signal` does first, `src_jni/signal.cc:831–848`. -/
def prepare (alloc : SignalId → Bool) (reg : Registry) (d : Dimension) :
    Option JException × Registry :=
  if reg.ready d then (none, reg)
  else
    match d with
    | .zeroD => reg.internalSetDefaults alloc d ⟨1024, .fx8p24bit, 44100⟩
    | .twoD => reg.internalSetDefaults alloc d ⟨12, .fl32bit, 24⟩
    | .midi => reg.internalSetDefaults alloc d ⟨1024, .ptr, 44100⟩
    | .oneD | .maxD => (some ⟨str "Unsupported dimension."⟩, reg)

/-- `Signal::internal_register_signal`, `src_jni/signal.cc:1068–1085`. -/
def internalRegisterSignal (alloc : SignalId → Bool) (reg : Registry) (d : Dimension)
    (s : SignalId) : Option JException × Registry :=
  if d = .zeroD ∨ d = .midi then
    match reg.internalAllocBuffer alloc d s with
    | some e => (some e, reg)
    | none =>
      (none, { reg with signalMap := Function.update reg.signalMap d (reg.signalMap d ++ [s]) })
  else (some ⟨str "Unsupported dimension."⟩, reg)

/-- The constructor of `Signal`, `src_jni/signal.cc:826–859`, at the address `s`. -/
def newSignal (alloc : SignalId → Bool) (reg : Registry) (d : Dimension) (s : SignalId) :
    Option JException × Registry :=
  match reg.prepare alloc d with
  | (some e, reg₁) => (some e, reg₁)
  | (none, reg₁) => reg₁.internalRegisterSignal alloc d s

/-- The registry has grown: signals that were listed still are, and defaults are still there. -/
structure Grows (reg reg' : Registry) : Prop where
  initiated : reg.initiated = true → reg'.initiated = true
  ready : ∀ d, reg.ready d = true → reg'.ready d = true
  listed : ∀ d, (reg.signalMap d).length ≤ (reg'.signalMap d).length

theorem Grows.refl (reg : Registry) : Grows reg reg :=
  ⟨id, fun _ h ↦ h, fun _ ↦ Nat.le_refl _⟩

theorem Grows.trans {a b c : Registry} (h : Grows a b) (h' : Grows b c) : Grows a c :=
  ⟨fun hi ↦ h'.initiated (h.initiated hi), fun d hd ↦ h'.ready d (h.ready d hd),
    fun d ↦ (h.listed d).trans (h'.listed d)⟩

/-- Setting defaults leaves them there. -/
theorem grows_internalSetDefaults {alloc : SignalId → Bool} {reg : Registry} {d : Dimension}
    {f : Format} (hf : 0 < f.samples) :
    Grows reg (reg.internalSetDefaults alloc d f).2 ∧
      (reg.internalSetDefaults alloc d f).2.ready d = true := by
  have hready : (reg.internalSetDefaults alloc d f).2.ready d = true := by
    simp [internalSetDefaults, ready, hf]
  refine ⟨⟨fun _ ↦ rfl, fun e he ↦ ?_, fun e ↦ Nat.le_refl _⟩, hready⟩
  by_cases hed : e = d
  · rw [hed]
    exact hready
  · have hinit : reg.initiated = true := by
      simp only [ready, Bool.and_eq_true] at he
      exact he.1
    simpa [internalSetDefaults, ready, hinit, hed] using he

/-- What the first part of the constructor leaves: the registry as it was, or one with defaults
for the dimension. -/
theorem prepare_cases (alloc : SignalId → Bool) (reg : Registry) (d : Dimension) :
    (reg.ready d = true ∧ reg.prepare alloc d = (none, reg)) ∨
      (reg.ready d = false ∧ (d = .oneD ∨ d = .maxD) ∧
        ∃ e, reg.prepare alloc d = (some e, reg)) ∨
      (reg.ready d = false ∧ d ≠ .oneD ∧ d ≠ .maxD ∧ Grows reg (reg.prepare alloc d).2 ∧
        (reg.prepare alloc d).2.ready d = true) := by
  cases hready : reg.ready d with
  | true => exact .inl ⟨rfl, by simp [prepare, hready]⟩
  | false =>
    have hset : ∀ f : Format, 0 < f.samples →
        reg.prepare alloc d = reg.internalSetDefaults alloc d f →
        Grows reg (reg.prepare alloc d).2 ∧ (reg.prepare alloc d).2.ready d = true := by
      intro f hf heq
      rw [heq]
      exact grows_internalSetDefaults hf
    refine .inr ?_
    cases d with
    | zeroD =>
      exact .inr ⟨rfl, by simp, by simp,
        hset ⟨1024, .fx8p24bit, 44100⟩ (by decide) (by simp [prepare, hready])⟩
    | oneD => exact .inl ⟨rfl, by simp, _, by simp [prepare, hready]; rfl⟩
    | twoD =>
      exact .inr ⟨rfl, by simp, by simp,
        hset ⟨12, .fl32bit, 24⟩ (by decide) (by simp [prepare, hready])⟩
    | midi =>
      exact .inr ⟨rfl, by simp, by simp,
        hset ⟨1024, .ptr, 44100⟩ (by decide) (by simp [prepare, hready])⟩
    | maxD => exact .inl ⟨rfl, by simp, _, by simp [prepare, hready]; rfl⟩

/-- The registry as it was, or the new signal in it. -/
theorem internalRegisterSignal_cases (alloc : SignalId → Bool) (reg : Registry) (d : Dimension)
    (s : SignalId) :
    (∃ e, reg.internalRegisterSignal alloc d s = (some e, reg)) ∨
      ((d = .zeroD ∨ d = .midi) ∧ reg.internalRegisterSignal alloc d s = (none,
        { reg with signalMap := Function.update reg.signalMap d (reg.signalMap d ++ [s]) })) := by
  unfold internalRegisterSignal
  split
  · next hd =>
    split
    · next e _ => exact .inl ⟨e, rfl⟩
    · exact .inr ⟨hd, rfl⟩
  · exact .inl ⟨_, rfl⟩

theorem grows_internalRegisterSignal (alloc : SignalId → Bool) (reg : Registry) (d : Dimension)
    (s : SignalId) : Grows reg (reg.internalRegisterSignal alloc d s).2 := by
  rcases internalRegisterSignal_cases alloc reg d s with ⟨e, he⟩ | ⟨_, he⟩
  · rw [he]
    exact .refl reg
  · rw [he]
    refine ⟨id, fun _ h ↦ h, fun e ↦ ?_⟩
    by_cases hed : e = d
    · simp [hed]
    · simp [hed]

theorem grows_newSignal (alloc : SignalId → Bool) (reg : Registry) (d : Dimension)
    (s : SignalId) : Grows reg (reg.newSignal alloc d s).2 := by
  have hprepare : Grows reg (reg.prepare alloc d).2 := by
    rcases prepare_cases alloc reg d with ⟨_, h⟩ | ⟨_, _, e, h⟩ | ⟨_, _, _, h, _⟩
    · rw [h]
      exact .refl reg
    · rw [h]
      exact .refl reg
    · exact h
  unfold newSignal
  split
  · next e reg₁ h =>
    rw [h] at hprepare
    exact hprepare
  · next reg₁ h =>
    rw [h] at hprepare
    exact hprepare.trans (grows_internalRegisterSignal alloc reg₁ d s)

/-- The registry shows that a signal was created, or that its constructor set defaults. -/
def Marked (reg reg' : Registry) : Prop :=
  ∃ d, (reg.ready d = false ∧ reg'.ready d = true) ∨
    (reg.signalMap d).length < (reg'.signalMap d).length

theorem Marked.grows {a b c : Registry} (h : Marked a b) (h' : Grows b c) : Marked a c := by
  obtain ⟨d, ⟨ha, hb⟩ | hlt⟩ := h
  · exact ⟨d, .inl ⟨ha, h'.ready d hb⟩⟩
  · exact ⟨d, .inr (hlt.trans_le (h'.listed d))⟩

theorem Marked.ne {a b : Registry} (h : Marked a b) : b ≠ a := by
  rintro rfl
  obtain ⟨d, ⟨ha, hb⟩ | hlt⟩ := h
  · rw [ha] at hb
    cases hb
  · exact Nat.lt_irrefl _ hlt

/-- The constructor of `Signal` throws before it has written anything: signals of this dimension
do not exist, or the defaults are there and the buffer cannot be allocated with them. -/
def refusesAtOnce (alloc : SignalId → Bool) (reg : Registry) (d : Dimension) (s : SignalId) :
    Bool :=
  d = .oneD || d = .maxD ||
    (reg.ready d && (d = .twoD || (reg.internalAllocBuffer alloc d s).isSome))

theorem newSignal_of_refuses {alloc : SignalId → Bool} {reg : Registry} {d : Dimension}
    {s : SignalId} (h : reg.refusesAtOnce alloc d s = true) :
    ∃ e, reg.newSignal alloc d s = (some e, reg) := by
  simp only [refusesAtOnce, Bool.or_eq_true, decide_eq_true_eq, Bool.and_eq_true] at h
  -- With the defaults in place it is the registration that throws.
  have hregister : (d = .oneD ∨ d = .maxD ∨ d = .twoD ∨
      ∃ e, reg.internalAllocBuffer alloc d s = some e) →
      ∃ e, reg.internalRegisterSignal alloc d s = (some e, reg) := by
    rintro (rfl | rfl | rfl | ⟨e, he⟩)
    · exact ⟨_, rfl⟩
    · exact ⟨_, rfl⟩
    · exact ⟨_, rfl⟩
    · unfold internalRegisterSignal
      split
      · exact ⟨e, by rw [he]⟩
      · exact ⟨_, rfl⟩
  rcases prepare_cases alloc reg d with ⟨_, hp⟩ | ⟨_, _, e, hp⟩ | ⟨hnot, h₁, hmax, _⟩
  · simp only [newSignal, hp]
    apply hregister
    rcases h with (h | h) | ⟨_, h | h⟩
    · exact .inl h
    · exact .inr (.inl h)
    · exact .inr (.inr (.inl h))
    · exact .inr (.inr (.inr (Option.isSome_iff_exists.mp h)))
  · exact ⟨e, by simp only [newSignal, hp]⟩
  · rcases h with (h | h) | ⟨h, _⟩
    · exact absurd h h₁
    · exact absurd h hmax
    · rw [hnot] at h
      cases h

theorem marked_of_not_refuses {alloc : SignalId → Bool} {reg : Registry} {d : Dimension}
    {s : SignalId} (h : reg.refusesAtOnce alloc d s = false) :
    Marked reg (reg.newSignal alloc d s).2 := by
  rcases prepare_cases alloc reg d with ⟨hready, hp⟩ | ⟨_, hd, _⟩ | ⟨hnot, _, _, hgrows, hready⟩
  · -- The defaults were there: the signal is registered.
    simp only [newSignal, hp]
    rcases internalRegisterSignal_cases alloc reg d s with ⟨e, he⟩ | ⟨_, he⟩
    · exfalso
      simp only [refusesAtOnce, hready, Bool.true_and, Bool.or_eq_false_iff,
        decide_eq_false_iff_not] at h
      obtain ⟨⟨h₁, hmax⟩, h₂, halloc⟩ := h
      have hd : d = .zeroD ∨ d = .midi := by
        cases d <;> simp_all
      have hsome : reg.internalAllocBuffer alloc d s = none := by
        simpa using halloc
      simp [internalRegisterSignal, hd, hsome] at he
    · rw [he]
      exact ⟨d, .inr (by simp)⟩
  · simp only [refusesAtOnce, Bool.or_eq_false_iff, decide_eq_false_iff_not] at h
    rcases hd with hd | hd
    · exact absurd hd h.1.1
    · exact absurd hd h.1.2
  · have hmark : Marked reg (reg.prepare alloc d).2 := ⟨d, .inl ⟨hnot, hready⟩⟩
    unfold newSignal
    split
    · next e reg₁ hp =>
      rw [hp] at hmark
      exact hmark
    · next reg₁ hp =>
      rw [hp] at hmark
      exact hmark.grows (grows_internalRegisterSignal alloc reg₁ d s)

end Registry

/-! ### The constructor -/

/-- The machine space with the registry of its signals. -/
structure Studio where
  space : Space
  registry : Registry

/-- What a dynamic library and its declaration bring: the descriptors, whether it is a sink, and
its `init`, which may set signal defaults on its way to returning null or not. -/
structure Handle where
  spec : Space.MachineSpec
  isSink : Bool
  initSetsDefaults : List (Dimension × Format)
  initReturnsNull : Bool

namespace Studio

/-- The loop over the output descriptors, `src_jni/machine.cc:1165–1172`. -/
def createOutputs (alloc : SignalId → Bool) (this : MachineId) :
    List (StdString × Description) → Std.ExtTreeMap StdString SignalId → Studio →
    Option (Except JException (Std.ExtTreeMap StdString SignalId) × Studio)
  | [], output, σ => some (.ok output, σ)
  | (name, des) :: rest, output, σ =>
    match σ.registry.newSignal alloc des.dimension σ.space.signalCount with
    | (some e, reg) => some (.error e, ⟨σ.space, reg⟩)
    | (none, reg) =>
      match σ.space.createSignal des.channels this name des.dimension with
      | some (.ok s, space) =>
        createOutputs alloc this rest (output.insert name s) ⟨space, reg⟩
      | _ => none

/-- `setup_machine`, `src_jni/machine.cc:1165–1185`, as in the space alone but for the outputs. -/
def setupMachine (alloc : SignalId → Bool) (σ : Studio) (this : MachineId)
    (spec : Space.MachineSpec) (garbage : Option MachineId) :
    Option (Except JException Unit × Studio) :=
  if this ∈ σ.space.machines then none
  else
    match createOutputs alloc this spec.outputDescriptor.toList ∅ σ with
    | none => none
    | some (.error e, τ) => some (.error e, τ)
    | some (.ok output, τ) =>
      let name := if spec.baseNameIsName then spec.baseName
        else str "m#" ++ decimal τ.space.machines.size ++ str ":" ++ spec.baseName
      some (.ok (), ⟨({ τ.space with
          machines := τ.space.machines.insert this
            ⟨name, spec.inputDescriptor, ∅, output, ∅, ∅, garbage⟩ } : Space).notify
        (.machineRegistered this), τ.registry⟩)

/-- `set_ssignal_defaults`, `src_jni/machine.cc:1148–1159`, for the calls that `init` makes. -/
def setSignalDefaults (alloc : SignalId → Bool) (this : MachineId) :
    List (Dimension × Format) → Studio → Except JException Unit × Studio
  | [], σ => (.ok (), σ)
  | (d, f) :: calls, σ =>
    if σ.space.sink = some this then
      match σ.registry.internalSetDefaults alloc d f with
      | (some e, reg) => (.error e, ⟨σ.space, reg⟩)
      | (none, reg) => setSignalDefaults alloc this calls ⟨σ.space, reg⟩
    else setSignalDefaults alloc this calls σ

/-- `setup_dynamic_machine`, `src_jni/dynamic_machine.cc:924–986`. -/
def setupDynamicMachine (alloc : SignalId → Bool) (σ : Studio) (this : MachineId)
    (handle : Handle) : Option (Except JException Unit × Studio) :=
  let registered : Outcome Unit :=
    if handle.isSink then σ.space.internalRegisterSink this else σ.space.returns ()
  match registered with
  | none => none
  | some (.error e, space) => some (.error e, ⟨space, σ.registry⟩)
  | some (.ok (), space) =>
    match setSignalDefaults alloc this handle.initSetsDefaults ⟨space, σ.registry⟩ with
    | (.error e, τ) => some (.error e, τ)
    | (.ok (), τ) =>
      if handle.initReturnsNull then some (.error ⟨str "Failed to initiate dynamic machine."⟩, τ)
      else some (.ok (), τ)

/-- The constructors of `DynamicMachine`, `src_jni/dynamic_machine.cc:882–908`, for a new object
at the unused address `this`. -/
def dynamicMachine (alloc : SignalId → Bool) (σ : Studio) (this : MachineId) (handle : Handle)
    (garbage : Option MachineId) : Option (Except JException Unit × Studio) :=
  match σ.setupMachine alloc this handle.spec garbage with
  | some (.ok (), τ) => τ.setupDynamicMachine alloc this handle
  | r => r

/-- The machine set, the sink, what the listeners were told and the registry are the same. -/
def SameRecords (σ τ : Studio) : Prop :=
  τ.space.machines = σ.space.machines ∧ τ.space.sink = σ.space.sink ∧
    τ.space.notifications = σ.space.notifications ∧ τ.registry = σ.registry

/-! ### The network sees the same machines -/

theorem createOutputs_space {alloc : SignalId → Bool} {this : MachineId}
    (l : List (StdString × Description)) {output out : Std.ExtTreeMap StdString SignalId}
    {σ τ : Studio} (h : createOutputs alloc this l output σ = some (.ok out, τ)) :
    Space.createOutputs this l output σ.space = some (.ok out, τ.space) := by
  induction l generalizing output σ with
  | nil =>
    obtain ⟨hout, rfl⟩ := Prod.mk.inj (Option.some.inj h)
    rw [← Except.ok.inj hout]
    rfl
  | cons a l ih =>
    rw [createOutputs] at h
    split at h
    · cases (Prod.mk.inj (Option.some.inj h)).1
    · split at h
      · next s space hs => simpa only [Space.createOutputs, hs] using ih h
      · cases h

/-- Where `setup_machine` returns, it does to the machine space what it does there without a
registry of signals. -/
theorem setupMachine_space {alloc : SignalId → Bool} {σ τ : Studio} {this : MachineId}
    {spec : Space.MachineSpec} {garbage : Option MachineId}
    (h : σ.setupMachine alloc this spec garbage = some (.ok (), τ)) :
    σ.space.setupMachine this spec garbage = some (.ok (), τ.space) := by
  unfold setupMachine at h
  split at h
  · cases h
  · next hthis =>
    split at h
    · cases h
    · cases (Prod.mk.inj (Option.some.inj h)).1
    · next output υ hc =>
      obtain ⟨_, rfl⟩ := Prod.mk.inj (Option.some.inj h)
      simp only [Space.setupMachine, if_neg hthis, createOutputs_space _ hc, Space.returns]

/-! ### What is left of a failed construction -/

theorem createOutputs_grows {alloc : SignalId → Bool} {this : MachineId}
    (l : List (StdString × Description)) {output : Std.ExtTreeMap StdString SignalId}
    {σ τ : Studio} {r : Except JException (Std.ExtTreeMap StdString SignalId)}
    (h : createOutputs alloc this l output σ = some (r, τ)) :
    Registry.Grows σ.registry τ.registry ∧ τ.space.machines = σ.space.machines := by
  induction l generalizing output σ with
  | nil =>
    obtain ⟨_, rfl⟩ := Prod.mk.inj (Option.some.inj h)
    exact ⟨.refl _, rfl⟩
  | cons a l ih =>
    have hfirst := Registry.grows_newSignal alloc σ.registry a.2.dimension σ.space.signalCount
    rw [createOutputs] at h
    split at h
    · next e reg hn =>
      rw [hn] at hfirst
      obtain ⟨_, rfl⟩ := Prod.mk.inj (Option.some.inj h)
      exact ⟨hfirst, rfl⟩
    · next reg hn =>
      rw [hn] at hfirst
      split at h
      · next s space hs =>
        obtain ⟨hgrows, hm⟩ := ih h
        refine ⟨hfirst.trans hgrows, hm.trans ?_⟩
        unfold Space.createSignal at hs
        split at hs
        · obtain ⟨_, rfl⟩ := Prod.mk.inj (Option.some.inj hs)
          rfl
        · cases (Prod.mk.inj (Option.some.inj hs)).1
      · cases h

/-- Creating the outputs throws at once, or leaves a mark. -/
theorem createOutputs_cons {alloc : SignalId → Bool} {this : MachineId}
    {a : StdString × Description} {l : List (StdString × Description)}
    {output : Std.ExtTreeMap StdString SignalId} {σ τ : Studio}
    {r : Except JException (Std.ExtTreeMap StdString SignalId)}
    (h : createOutputs alloc this (a :: l) output σ = some (r, τ)) :
    (σ.registry.refusesAtOnce alloc a.2.dimension σ.space.signalCount = true →
        (∃ e, r = .error e) ∧ τ = σ) ∧
      (σ.registry.refusesAtOnce alloc a.2.dimension σ.space.signalCount = false →
        Registry.Marked σ.registry τ.registry) := by
  constructor
  · intro href
    obtain ⟨e, he⟩ := Registry.newSignal_of_refuses href
    rw [createOutputs, he] at h
    obtain ⟨rfl, rfl⟩ := Prod.mk.inj (Option.some.inj h)
    exact ⟨⟨e, rfl⟩, rfl⟩
  · intro href
    have hmark := Registry.marked_of_not_refuses href
    rw [createOutputs] at h
    split at h
    · next e reg hn =>
      rw [hn] at hmark
      obtain ⟨_, rfl⟩ := Prod.mk.inj (Option.some.inj h)
      exact hmark
    · next reg hn =>
      rw [hn] at hmark
      split at h
      · exact hmark.grows (createOutputs_grows l h).1
      · cases h

/-- Setting defaults and registering the sink do not take the machine out of the set. -/
theorem setupDynamicMachine_machines {alloc : SignalId → Bool} {σ τ : Studio} {this : MachineId}
    {handle : Handle} {r : Except JException Unit}
    (h : σ.setupDynamicMachine alloc this handle = some (r, τ)) :
    τ.space.machines = σ.space.machines := by
  have hdefaults : ∀ (calls : List (Dimension × Format)) (σ : Studio),
      (setSignalDefaults alloc this calls σ).2.space = σ.space := by
    intro calls
    induction calls with
    | nil => exact fun _ ↦ rfl
    | cons c calls ih =>
      intro σ
      rw [setSignalDefaults]
      split
      · split
        · rfl
        · exact ih _
      · exact ih σ
  have hsink : ∀ (r : Except JException Unit) (space : Space),
      (if handle.isSink then σ.space.internalRegisterSink this else σ.space.returns ()) =
        some (r, space) → space.machines = σ.space.machines := by
    intro r space hr
    split at hr
    · obtain ⟨_, rfl | rfl⟩ := Space.registerSink_cases hr
      · rfl
      · rfl
    · obtain ⟨_, rfl⟩ := Prod.mk.inj (Option.some.inj hr)
      rfl
  unfold setupDynamicMachine at h
  dsimp only at h
  split at h
  · cases h
  · next e space hr =>
    obtain ⟨_, rfl⟩ := Prod.mk.inj (Option.some.inj h)
    exact hsink _ space hr
  · next space hr =>
    have hspace := hdefaults handle.initSetsDefaults ⟨space, σ.registry⟩
    split at h
    · next e υ hυ =>
      rw [hυ] at hspace
      obtain ⟨_, rfl⟩ := Prod.mk.inj (Option.some.inj h)
      exact (congrArg Space.machines hspace).trans (hsink _ space hr)
    · next υ hυ =>
      rw [hυ] at hspace
      split at h
      · obtain ⟨_, rfl⟩ := Prod.mk.inj (Option.some.inj h)
        exact (congrArg Space.machines hspace).trans (hsink _ space hr)
      · obtain ⟨_, rfl⟩ := Prod.mk.inj (Option.some.inj h)
        exact (congrArg Space.machines hspace).trans (hsink _ space hr)

/-- What `setup_machine` leaves when it returns: the outputs were created and the machine is in
the set. -/
theorem setupMachine_ok {alloc : SignalId → Bool} {σ τ : Studio} {this : MachineId}
    {spec : Space.MachineSpec} {garbage : Option MachineId}
    (h : σ.setupMachine alloc this spec garbage = some (.ok (), τ)) :
    this ∉ σ.space.machines ∧ this ∈ τ.space.machines ∧ ∃ output υ,
      createOutputs alloc this spec.outputDescriptor.toList ∅ σ = some (.ok output, υ) := by
  unfold setupMachine at h
  split at h
  · cases h
  · next hthis =>
    split at h
    · cases h
    · cases (Prod.mk.inj (Option.some.inj h)).1
    · next output υ hc =>
      obtain ⟨_, rfl⟩ := Prod.mk.inj (Option.some.inj h)
      exact ⟨hthis, Std.ExtTreeMap.mem_insert_self, output, υ, hc⟩

/-- A construction that throws leaves no trace exactly when it is the first output that cannot be
created, for want of its dimension or, its defaults being set, of a buffer. -/
theorem failed_creation_traceless_iff {alloc : SignalId → Bool} {σ τ : Studio} {this : MachineId}
    {handle : Handle} {garbage : Option MachineId} {e : JException}
    (h : σ.dynamicMachine alloc this handle garbage = some (.error e, τ)) :
    SameRecords σ τ ↔ ∃ name des rest,
      handle.spec.outputDescriptor.toList = (name, des) :: rest ∧
        σ.registry.refusesAtOnce alloc des.dimension σ.space.signalCount = true := by
  unfold dynamicMachine at h
  split at h
  · -- The machine is in the set by now.
    next υ hυ =>
    obtain ⟨hthis, hin, output, υ', hc⟩ := setupMachine_ok hυ
    have hm := setupDynamicMachine_machines h
    constructor
    · intro hsame
      rw [← hm, hsame.1] at hin
      exact absurd hin hthis
    · rintro ⟨name, des, rest, hl, href⟩
      rw [hl] at hc
      obtain ⟨⟨e', he⟩, _⟩ := (createOutputs_cons hc).1 href
      cases he
  · unfold setupMachine at h
    split at h
    · cases h
    · split at h
      · cases h
      · next e' υ hc =>
        obtain ⟨_, rfl⟩ := Prod.mk.inj (Option.some.inj h)
        cases hl : handle.spec.outputDescriptor.toList with
        | nil =>
          rw [hl] at hc
          cases (Prod.mk.inj (Option.some.inj hc)).1
        | cons a l =>
          rw [hl] at hc
          obtain ⟨hat, hmark⟩ := createOutputs_cons hc
          cases href : σ.registry.refusesAtOnce alloc a.2.dimension σ.space.signalCount with
          | true =>
            obtain ⟨_, rfl⟩ := hat href
            exact ⟨fun _ ↦ ⟨a.1, a.2, l, rfl, href⟩, fun _ ↦ ⟨rfl, rfl, rfl, rfl⟩⟩
          | false =>
            constructor
            · exact fun hsame ↦ absurd hsame.2.2.2 (hmark href).ne
            · rintro ⟨name, des, rest, heq, href'⟩
              obtain ⟨rfl, rfl⟩ := List.cons.inj heq
              rw [href] at href'
              cases href'
      · cases (Prod.mk.inj (Option.some.inj h)).1

/-- No machines and no signals. The zero in `def_resolution` is no resolution. -/
def empty : Studio := ⟨Space.empty, ⟨false, fun _ ↦ ⟨0, .maxR, 0⟩, fun _ ↦ []⟩⟩

/-- A library that declares one output of dimension `d` and fails to initialise. -/
def broken (outputs : List (StdString × Description)) : Handle :=
  ⟨⟨str "broken", false, ∅, .ofList outputs⟩, false, [], true⟩

/-- The result applies to a library that declares an output of dimension 1. -/
theorem failed_creation_traceless_iff_oneD :
    ∃ e τ, empty.dynamicMachine (fun _ ↦ true) 1 (broken [(str "out", ⟨.oneD, 1, false⟩)]) none =
        some (.error e, τ) ∧ SameRecords empty τ := by
  have hout : (broken [(str "out", ⟨.oneD, 1, false⟩)]).spec.outputDescriptor.toList =
      [(str "out", ⟨.oneD, 1, false⟩)] := by decide
  have hrun : empty.dynamicMachine (fun _ ↦ true) 1 (broken [(str "out", ⟨.oneD, 1, false⟩)])
      none = some (.error ⟨str "Unsupported dimension."⟩, empty) := by
    simp only [dynamicMachine, setupMachine, hout]
    rfl
  exact ⟨_, _, hrun, (failed_creation_traceless_iff hrun).mpr ⟨_, _, _, hout, rfl⟩⟩

/-- A library whose `init` returns null leaves its machine in the set. -/
theorem failed_creation_leaves_machine :
    ¬ ∀ (alloc : SignalId → Bool) (σ τ : Studio) (this : MachineId) (handle : Handle)
      (garbage : Option MachineId) (e : JException),
      σ.dynamicMachine alloc this handle garbage = some (.error e, τ) → SameRecords σ τ := by
  intro hall
  have heval : (empty.dynamicMachine (fun _ ↦ true) 1 (broken []) none).map (fun r ↦
      (r.1.isOk, decide (1 ∈ r.2.space.machines))) = some (false, true) := by decide +kernel
  obtain ⟨⟨r, τ⟩, hrun, h⟩ := Option.map_eq_some_iff.mp heval
  obtain ⟨hr, hin⟩ := Prod.mk.inj h
  cases r with
  | ok _ => cases hr
  | error e =>
    obtain ⟨hm, _⟩ := hall _ _ _ _ _ _ e hrun
    have hlive : 1 ∈ τ.space.machines := of_decide_eq_true hin
    rw [hm] at hlive
    simp [empty, Space.empty] at hlive

end Studio
end Vuknob
