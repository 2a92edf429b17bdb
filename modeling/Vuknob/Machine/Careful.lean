import Vuknob.Machine.Destruction

/-!
# Careful runs

The input lists run through the signals, with one pair of pointers per signal and
destination, and `Signal::detach` counts down before the list is searched. So two kinds of
calls can break the bookkeeping: an attachment that would thread a signal into a second
list, and a detachment that names the wrong input. Runs without such calls keep every
space sound: the counts agree with the lists, and no pointer dangles.
-/

namespace Vuknob
namespace Space

/-- An input without connections takes an output that has no neighbour on a list of the
machine. Another one takes an output that is not attached to the machine, and its first
signal is attached to the machine only once; a MIDI input is then refused by
`Signal::link`. -/
def hasRoom (σ : Space) (this : MachineId) (t : Machine) (s : SignalId) (i : StdString) : Bool :=
  match t.input[i]? with
  | none => σ.next this s = none ∧ σ.previous this s = none
  | some k => (σ.signals k).dimension = .midi ∨
      (this ∉ (σ.signals s).attachedMachines ∧
        (σ.signals k).attachedMachines[this]? = some 1)

/-- The output that a call names, and the machine it is called on. -/
def named (σ : Space) (this m : MachineId) (o : StdString) : Option (Machine × SignalId) := do
  let source ← σ.machines[m]?
  let t ← σ.machines[this]?
  let s ← source.output[o]?
  some (t, s)

/-- An attachment that is not refused finds room, and a detachment does not name an attached
output together with an input on whose list it is not. -/
def careful (σ : Space) : Action → Bool
  | .attachInput this (some m) o i =>
    match σ.named this m o with
    | none => true
    | some (t, s) => σ.refuses this m t s i || σ.hasRoom this t s i
  | .detachInput this (some m) o i =>
    match σ.named this m o with
    | none => true
    | some (t, s) =>
      match t.input[i]? with
      | none => true
      | some k => Library.locate (σ.nextPtr this) s σ.signalCount (some k) ≠ some false ∨
          this ∉ (σ.signals s).attachedMachines
  | _ => true

theorem Names.named_eq {σ : Space} {this m₀ : MachineId} {m : Option MachineId}
    {o i : StdString} {t : Machine} {s : SignalId} (h : σ.Names this m o i m₀ t s) :
    σ.named this m₀ o = some (t, s) := by
  obtain ⟨source, hm, hs⟩ := h.output
  simp [named, hm, h.this_live, hs]

/-! ### Steps -/

/-- A careful attachment throws and changes nothing, or makes its connection. -/
theorem attachInput_sound {σ σ' : Space} {lists : Lists} {conns : Finset Connection}
    (h : Sound σ lists conns) {this : MachineId} {m : Option MachineId} {o i : StdString}
    {r : Except JException Unit} (hc : σ.careful (.attachInput this m o i) = true)
    (hstep : σ.internalAttachInput this m o i = some (r, σ')) :
    (∃ e, r = .error e ∧ σ' = σ) ∨
      (r = .ok () ∧ ∃ m₀ t s, σ.Names this m o i m₀ t s ∧ (this, i, s) ∉ conns ∧
        σ'.wiring = σ.wiring.connect this i s ∧
        Sound σ' (lists.connect this i s) (insert (this, i, s) conns)) := by
  rcases internalAttachInput_cases hstep with hthrow | ⟨m₀, t, s, σ₁, hn, href, hl, hf⟩
  · exact .inl hthrow
  have hm := hn.source_ne_null
  subst hm
  have hroom : σ.wiring.Room this i s := by
    simp only [careful, hn.named_eq, href, Bool.false_or] at hc
    unfold hasRoom at hc
    unfold Wiring.Room
    rw [head_eq hn.this_live]
    unfold linkInput at hl
    cases hk : t.input[i]? with
    | none =>
      rw [hk] at hc
      simpa [wiring] using hc
    | some k =>
      rw [hk] at hc hl
      have hmidi : (σ.signals k).dimension ≠ .midi := by
        intro hmidi
        simp [link, hmidi] at hl
      simp only [hmidi, false_or, decide_eq_true_eq] at hc
      exact ⟨Std.ExtTreeMap.getElem?_eq_none hc.1, hc.2⟩
  have hw := wiring_attach h.wired hn hroom hl hf
  obtain ⟨hr, σ₃, hrec, rfl⟩ := finishAttach_eq_some hf
  refine .inr ⟨hr, m₀, t, s, hn, ?_, hw, ?_, ?_, ?_⟩
  · exact fun hmem ↦ h.wired.not_mem_of_room hroom ((h.wired.mem this i s).mp hmem)
  · rw [hw]
    exact h.wired.connect hroom hn.output_eq
  · rcases internalAttachInput_connects hstep with heq | ⟨p, hcon⟩
    · rw [heq]
      exact h.sink
    · exact fun s hs ↦ (hcon.live s).mpr (h.sink s (hcon.sink.symm.trans hs))
  · exact chained_notify _ (chained_recalculateRenderChain hrec)

/-- Lowering a count that is not there changes nothing. -/
theorem detach_eq_self {σ : Space} {s : SignalId} {d : MachineId}
    (h : d ∉ (σ.signals s).attachedMachines) : σ.detach s d = σ := by
  have hc : countDown (σ.signals s).attachedMachines d = (σ.signals s).attachedMachines := by
    simp [countDown, Std.ExtTreeMap.getElem?_eq_none h]
  simp only [detach, modifySignal, hc]
  rw [Function.update_eq_self]

/-- A careful detachment throws and changes nothing, or cuts its connection. -/
theorem detachInput_sound {σ σ' : Space} {lists : Lists} {conns : Finset Connection}
    (h : Sound σ lists conns) {this : MachineId} {m : Option MachineId} {o i : StdString}
    {r : Except JException Unit} (hc : σ.careful (.detachInput this m o i) = true)
    (hstep : σ.internalDetachInput this m o i = some (r, σ')) :
    (∃ e, r = .error e ∧ σ' = σ) ∨
      (r = .ok () ∧ ∃ m₀ t s, σ.Names this m o i m₀ t s ∧ (this, i, s) ∈ conns ∧
        σ'.wiring = σ.wiring.disconnect this i s ∧
        Sound σ' (lists.disconnect this i s) (conns.erase (this, i, s))) := by
  rcases internalDetachInput_wired h.wired hstep with hthrow | ⟨m₀, t, s, k, hn, hk, hr⟩
  · exact .inl hthrow
  have hm := hn.source_ne_null
  subst hm
  rcases hr with ⟨hs, ⟨e, rfl⟩, rfl⟩ | ⟨hs, rfl, hw, hchained⟩
  · refine .inl ⟨e, rfl, detach_eq_self ?_⟩
    simp only [careful, hn.named_eq, hk,
      locate_wired h.wired ((head_eq hn.this_live i).trans hk), hs] at hc
    simpa using hc
  · have hsh := kept_shrinks.internalDetachInput hstep
    refine .inr ⟨rfl, m₀, t, s, hn, (h.wired.mem this i s).mpr hs, hw, ?_, ?_, hchained⟩
    · rw [hw]
      exact h.wired.disconnect hs
    · exact fun p hp ↦ (hsh.live p).mpr (h.sink p (hsh.sink.symm.trans hp))

/-- A careful step keeps a space sound, whether it throws or not. -/
theorem step_sound {σ σ' : Space} {lists : Lists} {conns : Finset Connection} {a : Action}
    {r : Except JException Unit} (h : Sound σ lists conns) (hc : σ.careful a = true)
    (hstep : σ.step a = some (r, σ')) : ∃ lists' conns', Sound σ' lists' conns' := by
  cases a with
  | setupMachine this spec garbage => exact ⟨lists, conns, setupMachine_sound h hstep⟩
  | registerSink s =>
    obtain ⟨hs, rfl | rfl⟩ := registerSink_cases hstep
    · exact ⟨lists, conns, h⟩
    · exact ⟨lists, conns, h.wired, fun p hp ↦ Option.some.inj hp ▸ hs, h.chained⟩
  | attachInput this m o i =>
    rcases attachInput_sound h hc hstep with ⟨e, _, rfl⟩ | ⟨_, m₀, t, s, _, _, _, hs⟩
    · exact ⟨lists, conns, h⟩
    · exact ⟨_, _, hs⟩
  | detachInput this m o i =>
    rcases detachInput_sound h hc hstep with ⟨e, _, rfl⟩ | ⟨_, m₀, t, s, _, _, _, hs⟩
    · exact ⟨lists, conns, h⟩
    · exact ⟨_, _, hs⟩
  | detachAllInputs this m =>
    have hlive : this ∈ σ.machines := by
      by_contra hm
      simp [step, detachAllInputs, Std.ExtTreeMap.getElem?_eq_none hm] at hstep
    obtain ⟨τ, lists', conns', hrun, hs, _⟩ := detachAllInputs_sound h hlive m
    simp only [step, hrun, Option.some.injEq, Prod.mk.injEq] at hstep
    exact ⟨lists', conns', hstep.2 ▸ hs⟩
  | detachAllOutputs this =>
    have hlive : this ∈ σ.machines := by
      by_contra hm
      simp [step, detachAllOutputs, Std.ExtTreeMap.getElem?_eq_none hm] at hstep
    obtain ⟨τ, lists', conns', hrun, hs, _⟩ := detachAllOutputs_sound h hlive
    simp only [step, hrun, Option.some.injEq, Prod.mk.injEq] at hstep
    exact ⟨lists', conns', hstep.2 ▸ hs⟩
  | tightlyConnect this m =>
    rcases tightlyConnect_cases hstep with rfl | ⟨p, _, _, rfl⟩
    · exact ⟨lists, conns, h⟩
    · exact ⟨lists, conns, sound_setTight (sound_setTight h this (·.insert p)) p (·.insert this)⟩
  | disconnectAndDestroy m =>
    obtain ⟨_, lists', conns', _, hs, _⟩ := disconnectAndDestroy_sound _ _ _ _ _ _ _ h hstep
    exact ⟨lists', conns', hs.sound⟩

theorem sound_empty : Sound Space.empty (fun _ _ ↦ []) ∅ where
  wired := Wired.none_connected _ (by simp [wiring, Space.empty]) (by simp [wiring, Space.empty])
    (by simp [wiring, Space.empty]) (fun _ _ ↦ rfl) (fun _ _ ↦ rfl)
    (fun _ _ ↦ Std.ExtTreeMap.getElem?_empty)
  sink _ h := by cases h
  chained := ⟨[], rfl⟩

/-- Every careful run leads to a sound space. -/
theorem run_sound {σ : Space} {as : List Action}
    (h : Library.Run step (fun σ a _ ↦ σ.careful a = true) Space.empty as σ) :
    ∃ lists conns, Sound σ lists conns := by
  refine h.invariant (fun σ ↦ ∃ lists conns, Sound σ lists conns) ?_ ⟨_, _, sound_empty⟩
  rintro σ a r σ' ⟨lists, conns, hs⟩ hc hstep
  exact step_sound hs hc hstep

/-! ### The counts agree with the lists -/

theorem mapM_eq_some {α β : Type} {f : α → Option β} {g : α → β} (l : List α)
    (h : ∀ a ∈ l, f a = some (g a)) : l.mapM f = some (l.map g) := by
  induction l with
  | nil => rfl
  | cons a l ih =>
    rw [List.mapM_cons, h a (by simp), ih fun b hb ↦ h b (by simp [hb])]
    rfl

/-- The entries of the input lists are read completely, each once. -/
theorem inputEntries_wired {σ : Space} {lists : Lists} {conns : Finset Connection}
    (h : Wired σ.wiring lists conns) {d : MachineId} {t : Machine}
    (ht : σ.machines[d]? = some t) :
    ∃ entries, σ.inputEntries d = some entries ∧ entries.Nodup ∧
      ∀ e, e ∈ entries ↔ (d, e.1, e.2) ∈ conns := by
  have hread : ∀ e ∈ t.input.toList, (do
      let l ← σ.inputList d e.2
      some (l.map fun s ↦ (e.1, s))) = some ((lists d e.1).map fun s ↦ (e.1, s)) := by
    intro e he
    have hk : σ.wiring.head d e.1 = some e.2 :=
      (head_eq ht e.1).trans (Std.ExtTreeMap.mem_toList_iff_getElem?_eq_some.mp he)
    have hl := (h.linked d e.1).isList
    rw [← h.head d e.1, hk] at hl
    have hw : σ.inputList d e.2 = some (lists d e.1) :=
      (Library.walk_eq_some_iff _ _ _ _).mpr ⟨hl, h.length_le d e.1⟩
    rw [hw]
    rfl
  refine ⟨(t.input.toList.map fun e ↦ (lists d e.1).map fun s ↦ (e.1, s)).flatten, ?_, ?_, ?_⟩
  · simp only [inputEntries, ht, mapM_eq_some _ hread]
    rfl
  · rw [List.nodup_flatten]
    constructor
    · intro l hl
      obtain ⟨e, _, rfl⟩ := List.mem_map.mp hl
      exact (h.nodup d e.1).map fun a b hab ↦ (Prod.mk.inj hab).2
    · rw [List.pairwise_map]
      refine t.input.distinct_keys_toList.imp fun {a b} hab x hxa hxb ↦ hab ?_
      obtain ⟨s, _, rfl⟩ := List.mem_map.mp hxa
      obtain ⟨s', _, hs'⟩ := List.mem_map.mp hxb
      rw [(Prod.mk.inj hs').1]
      exact Std.ReflCmp.compare_self
  · rintro ⟨i, s⟩
    rw [h.mem]
    simp only [List.mem_flatten, List.mem_map, exists_exists_and_eq_and]
    constructor
    · rintro ⟨e, _, a, ha, heq⟩
      obtain ⟨rfl, rfl⟩ := Prod.mk.inj heq
      exact ha
    · intro hs
      cases hl : lists d i with
      | nil => simp [hl] at hs
      | cons k l =>
        have hk : t.input[i]? = some k := by
          rw [← head_eq ht, h.head, hl]
          rfl
        exact ⟨(i, k), Std.ExtTreeMap.mem_toList_iff_getElem?_eq_some.mpr hk, s, hs, rfl⟩

/-- Counting entries of `d` is counting connections to `d`. -/
private theorem countP_entries {conns : Finset Connection} {d : MachineId}
    {entries : List (StdString × SignalId)} (hn : entries.Nodup)
    (hmem : ∀ e, e ∈ entries ↔ (d, e.1, e.2) ∈ conns) (p : SignalId → Prop) [DecidablePred p] :
    (conns.filter fun c ↦ c.1 = d ∧ p c.2.2).card = entries.countP fun e ↦ p e.2 := by
  have himage : conns.filter (fun c ↦ c.1 = d ∧ p c.2.2) =
      ((entries.filter fun e ↦ p e.2).toFinset).image fun e ↦ (d, e.1, e.2) := by
    ext ⟨e, i, s⟩
    simp only [Finset.mem_filter, Finset.mem_image, List.mem_toFinset, List.mem_filter, hmem,
      decide_eq_true_eq, Prod.mk.injEq]
    constructor
    · rintro ⟨hc, rfl, hp⟩
      exact ⟨(i, s), ⟨hc, hp⟩, rfl, rfl, rfl⟩
    · rintro ⟨⟨j, a⟩, ⟨hc, hp⟩, rfl, rfl, rfl⟩
      exact ⟨hc, rfl, hp⟩
  rw [himage, Finset.card_image_of_injective _ fun a b hab ↦ by
      simp only [Prod.mk.injEq, true_and] at hab
      exact Prod.ext hab.1 hab.2,
    List.toFinset_card_of_nodup (hn.filter _), List.countP_eq_length_filter]

/-- After every careful run the counts in `dependant` and `attached_machines` are the
numbers of list entries; a zero has no entry. -/
theorem run_counts_agree {σ : Space} {as : List Action}
    (h : Library.Run step (fun σ a _ ↦ σ.careful a = true) Space.empty as σ)
    (d : MachineId) (t : Machine) (ht : σ.machines[d]? = some t) :
    ∃ entries, σ.inputEntries d = some entries ∧
      (∀ m, t.dependant[m]? =
        Wiring.tally (entries.countP fun e ↦ (σ.signals e.2).originator = m)) ∧
      ∀ s, (σ.signals s).attachedMachines[d]? = Wiring.tally (entries.countP fun e ↦ e.2 = s) := by
  obtain ⟨lists, conns, hs⟩ := run_sound h
  obtain ⟨entries, he, hn, hmem⟩ := inputEntries_wired hs.wired ht
  refine ⟨entries, he, ?_, ?_⟩
  · intro m
    have hd : σ.wiring.depend d m = t.dependant[m]? := by simp [wiring, ht]
    rw [← hd, hs.wired.depend]
    exact congrArg Wiring.tally (countP_entries hn hmem fun s ↦ (σ.signals s).originator = m)
  · intro s
    change σ.wiring.attached s d = _
    rw [hs.wired.attached]
    exact congrArg Wiring.tally (countP_entries hn hmem fun a ↦ a = s)

/-- One output feeds two inputs of a machine. -/
def stereo : List Action :=
  [.setupMachine 1 (.mono ["left", "right"] []) none,
    .setupMachine 2 (.mono [] ["out"]) none,
    .attachInput 1 (some 2) (str "out") (str "left"),
    .attachInput 1 (some 2) (str "out") (str "right")]

/-- The result applies where one output feeds two inputs. -/
theorem run_counts_agree_stereo :
    ∃ σ t, Library.Run step (fun σ a _ ↦ σ.careful a = true) Space.empty stereo σ ∧
      σ.machines[1]? = some t ∧ ∃ entries, σ.inputEntries 1 = some entries ∧
      (∀ m, t.dependant[m]? =
        Wiring.tally (entries.countP fun e ↦ (σ.signals e.2).originator = m)) ∧
      ∀ s, (σ.signals s).attachedMachines[1]? =
        Wiring.tally (entries.countP fun e ↦ e.2 = s) := by
  have hsome : ((Library.runAll step (fun σ a _ ↦ σ.careful a) Space.empty stereo).bind
      fun σ ↦ σ.machines[1]?).isSome = true := by decide +kernel
  obtain ⟨t, ht⟩ := Option.isSome_iff_exists.mp hsome
  obtain ⟨σ, hσ, ht⟩ := Option.bind_eq_some_iff.mp ht
  have hrun := Library.Run.of_runAll hσ
  exact ⟨σ, t, hrun, ht, run_counts_agree hrun 1 t ht⟩

/-- An output that is attached to one input twice is counted twice and listed once. -/
theorem counts_disagree :
    ¬ ∀ (as : List Action) (σ : Space) (d : MachineId) (t : Machine),
      Library.Run step (fun _ _ _ ↦ True) Space.empty as σ → σ.machines[d]? = some t →
      ∃ entries, σ.inputEntries d = some entries ∧
        (∀ m, t.dependant[m]? =
          Wiring.tally (entries.countP fun e ↦ (σ.signals e.2).originator = m)) ∧
        ∀ s, (σ.signals s).attachedMachines[d]? =
          Wiring.tally (entries.countP fun e ↦ e.2 = s) := by
  intro hall
  let twice : List Action :=
    [.setupMachine 1 (.mono ["in"] []) none, .setupMachine 2 (.mono [] ["out"]) none,
      .attachInput 1 (some 2) (str "out") (str "in"), .attachInput 1 (some 2) (str "out") (str "in")]
  have heval : (Library.runAll step (fun _ _ _ ↦ true) Space.empty twice).bind (fun σ ↦
      σ.machines[1]?.bind fun _ ↦
        (σ.inputEntries 1).map fun l ↦ (l, (σ.signals 0).attachedMachines[1]?)) =
      some ([(str "in", 0)], some 2) := by decide +kernel
  obtain ⟨σ, hσ, h⟩ := Option.bind_eq_some_iff.mp heval
  obtain ⟨t, ht, h⟩ := Option.bind_eq_some_iff.mp h
  obtain ⟨l, hl, h⟩ := Option.map_eq_some_iff.mp h
  obtain ⟨rfl, hatt⟩ := Prod.mk.inj h
  obtain ⟨entries, he, _, hs⟩ :=
    hall twice σ 1 t ((Library.Run.of_runAll hσ).mono fun _ _ _ _ ↦ trivial) ht
  rw [hl] at he
  obtain rfl := Option.some.inj he
  have hzero := hs 0
  rw [hatt] at hzero
  simp [Wiring.tally] at hzero

/-! ### Termination of the graph functions -/

/-- The network is acyclic after every run. After a careful one every pointer is to a live
machine as well, so the loop test decides reachability and the chain can be built. -/
theorem run_acyclic_terminating {σ : Space} {as : List Action}
    (h : Library.Run step (fun _ _ _ ↦ True) Space.empty as σ) :
    σ.Acyclic ∧
      (Library.Run step (fun σ a _ ↦ σ.careful a = true) Space.empty as σ →
        (∀ a ∈ σ.machines, ∀ b, ∃ r, σ.findMachineInGraph a b = some r ∧
          (r = true ↔ Library.Reach σ.dependants a b)) ∧
        (∀ a ∈ σ.machines, ∃ σ', σ.pushToRenderChain a = some σ') ∧
        ∃ σ', σ.recalculateRenderChain = some σ') := by
  refine ⟨run_acyclic h, fun hc ↦ ?_⟩
  obtain ⟨lists, conns, hs⟩ := run_sound hc
  refine ⟨?_, ?_, ?_⟩
  · exact fun a ha b ↦ findMachineInGraph_spec hs.closed (run_acyclic h) a b ha
  · exact fun a ha ↦ pushToRenderChain_returns hs.closed hs.chained a ha
  · obtain ⟨σ', hrec, _⟩ := recalculate_sound hs.wired hs.sink
    exact ⟨σ', hrec⟩

/-- The result applies to a machine that is disconnected and destroyed again. -/
theorem run_acyclic_terminating_destroyed :
    ∃ σ, Library.Run step (fun σ a _ ↦ σ.careful a = true) Space.empty
        (stereo ++ [.disconnectAndDestroy 2]) σ ∧
      σ.Acyclic ∧ (∀ a ∈ σ.machines, ∀ b, ∃ r, σ.findMachineInGraph a b = some r ∧
        (r = true ↔ Library.Reach σ.dependants a b)) := by
  have hsome : (Library.runAll step (fun σ a _ ↦ σ.careful a) Space.empty
      (stereo ++ [.disconnectAndDestroy 2])).isSome = true := by decide +kernel
  obtain ⟨σ, hσ⟩ := Option.isSome_iff_exists.mp hsome
  have hrun := Library.Run.of_runAll hσ
  obtain ⟨hac, hrest⟩ := run_acyclic_terminating (hrun.mono fun _ _ _ _ ↦ trivial)
  exact ⟨σ, hrun, hac, (hrest hrun).1⟩

/-- A source that was attached twice to one input leaves a pointer behind when it is
destroyed, and the loop test follows it. -/
theorem findMachineInGraph_dangles :
    ¬ ∀ (as : List Action) (σ : Space),
      Library.Run step (fun _ _ _ ↦ True) Space.empty as σ →
      σ.Acyclic ∧ (∀ a ∈ σ.machines, ∀ b, ∃ r, σ.findMachineInGraph a b = some r ∧
          (r = true ↔ Library.Reach σ.dependants a b)) ∧
        ∀ a ∈ σ.machines, ∃ σ', σ.pushToRenderChain a = some σ' := by
  intro hall
  let dangling : List Action :=
    [.setupMachine 1 (.mono ["in"] []) none, .setupMachine 2 (.mono [] ["out"]) none,
      .setupMachine 3 (.mono [] []) none, .attachInput 1 (some 2) (str "out") (str "in"),
      .attachInput 1 (some 2) (str "out") (str "in"), .disconnectAndDestroy 2]
  have heval : (Library.runAll step (fun _ _ _ ↦ true) Space.empty dangling).map (fun σ ↦
      (decide (1 ∈ σ.machines), σ.findMachineInGraph 1 3)) = some (true, none) := by
    decide +kernel
  obtain ⟨σ, hσ, h⟩ := Option.map_eq_some_iff.mp heval
  obtain ⟨hlive, hnone⟩ := Prod.mk.inj h
  obtain ⟨_, hfind, _⟩ :=
    hall dangling σ ((Library.Run.of_runAll hσ).mono fun _ _ _ _ ↦ trivial)
  obtain ⟨r, hr, _⟩ := hfind 1 (of_decide_eq_true hlive) 3
  rw [hnone] at hr
  cases hr

end Space
end Vuknob
