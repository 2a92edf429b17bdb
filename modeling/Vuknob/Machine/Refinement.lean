import Mathlib.Data.Multiset.Filter
import Vuknob.Machine.Careful

/-!
# The connection store refines a multiset

What the input lists are for: a store of connections (destination, input, source, output),
to which `internal_attach_input` adds and from which `internal_detach_input` takes one.
In careful runs of successful calls `internal_get_input_connections`
(`src_jni/machine.cc:643–667`) reports exactly what is in the store.
-/

namespace Vuknob
namespace Space

/-- A connection as the callers name it: destination, input, source machine, output. -/
abbrev Triple := MachineId × StdString × MachineId × StdString

/-- The abstract store: what a successful call does to the multiset of connections. -/
def storeStep (store : Multiset Triple) : Action → Multiset Triple
  | .attachInput this (some m) o i => (this, i, m, o) ::ₘ store
  | .detachInput this (some m) o i => store.erase (this, i, m, o)
  | _ => store

/-- The connections attached and not yet detached. -/
def store (as : List Action) : Multiset Triple := as.foldl storeStep 0

/-- Calls that create machines and make or cut single connections. -/
def Action.connects : Action → Bool
  | .setupMachine _ _ _ => true
  | .registerSink _ => true
  | .attachInput _ _ _ _ => true
  | .detachInput _ _ _ _ => true
  | _ => false

/-- A connection under the names of its signal. -/
def triple (w : Wiring) (c : Connection) : Triple := (c.1, c.2.1, w.origin c.2.2, w.name c.2.2)

/-- The store that a wiring represents. -/
def represented (w : Wiring) (conns : Finset Connection) : Multiset Triple :=
  conns.val.map (triple w)

/-- The names of the signals that exist do not change when a machine is created. -/
theorem createOutputs_old {this : MachineId} (l : List (StdString × Description))
    {output : Std.ExtTreeMap StdString SignalId} {σ σ' : Space}
    {r : Except JException (Std.ExtTreeMap StdString SignalId)}
    (h : createOutputs this l output σ = some (r, σ')) (s : SignalId) (hs : s < σ.signalCount) :
    σ'.signals s = σ.signals s := by
  induction l generalizing output σ with
  | nil =>
    obtain ⟨_, rfl⟩ := Prod.mk.inj (Option.some.inj h)
    rfl
  | cons e l ih =>
    simp only [createOutputs, createSignal] at h
    split at h
    · cases h
    · next err σ₁ hc =>
      obtain ⟨_, rfl⟩ := Prod.mk.inj (Option.some.inj h)
      split at hc
      · cases (Prod.mk.inj (Option.some.inj hc)).1
      · obtain ⟨_, rfl⟩ := Prod.mk.inj (Option.some.inj hc)
        rfl
    · next s₀ σ₁ hc =>
      split at hc
      · obtain ⟨_, rfl⟩ := Prod.mk.inj (Option.some.inj hc)
        rw [ih h (Nat.lt_succ_of_lt hs)]
        simp [Nat.ne_of_lt hs]
      · cases (Prod.mk.inj (Option.some.inj hc)).1

private theorem setupMachine_old {σ σ' : Space} {this : MachineId} {spec : MachineSpec}
    {garbage : Option MachineId} {r : Except JException Unit}
    (h : σ.setupMachine this spec garbage = some (r, σ')) (s : SignalId)
    (hs : s < σ.signalCount) : σ'.signals s = σ.signals s := by
  obtain ⟨_, ⟨e, _, hc⟩ | ⟨output, σ₁, x, _, hc, _, rfl⟩⟩ := setupMachine_cases h
  · exact createOutputs_old _ hc s hs
  · exact createOutputs_old _ hc s hs

/-- A successful careful call does to the represented store what it does to the abstract
one. -/
theorem step_refines {σ σ' : Space} {lists : Lists} {conns : Finset Connection} {a : Action}
    {r : Except JException Unit} (h : Sound σ lists conns) (ha : a.connects = true)
    (hc : σ.careful a = true) (hr : r.isOk = true) (hstep : σ.step a = some (r, σ')) :
    ∃ lists' conns', Sound σ' lists' conns' ∧
      represented σ'.wiring conns' = storeStep (represented σ.wiring conns) a := by
  cases a with
  | setupMachine this spec garbage =>
    refine ⟨lists, conns, setupMachine_sound h hstep, Multiset.map_congr rfl ?_⟩
    intro c hmem
    have hlt : c.2.2 < σ.signalCount :=
      h.wired.lt_count ((h.wired.mem c.1 c.2.1 c.2.2).mp hmem)
    have hold := setupMachine_old hstep c.2.2 hlt
    simp [triple, wiring, hold]
  | registerSink s =>
    obtain ⟨hs, rfl | rfl⟩ := registerSink_cases hstep
    · exact ⟨lists, conns, h, rfl⟩
    · exact ⟨lists, conns, ⟨h.wired, fun p hp ↦ Option.some.inj hp ▸ hs, h.chained⟩, rfl⟩
  | attachInput this m o i =>
    rcases attachInput_sound h hc hstep with ⟨e, rfl, _⟩ | ⟨_, m₀, t, s, hn, hnew, hw, hs⟩
    · cases hr
    have hm := hn.source_ne_null
    subst hm
    obtain ⟨ho, hname, _⟩ := h.wired.owner m₀ o s hn.output_eq
    refine ⟨_, _, hs, ?_⟩
    have horigin : triple σ'.wiring = triple σ.wiring := by
      rw [hw]
      unfold Wiring.connect Wiring.place
      cases σ.wiring.head this i <;> rfl
    rw [represented, horigin, Finset.insert_val_of_notMem hnew, Multiset.map_cons]
    simp [storeStep, represented, triple, ho, hname]
  | detachInput this m o i =>
    rcases detachInput_sound h hc hstep with ⟨e, rfl, _⟩ | ⟨_, m₀, t, s, hn, hmem, hw, hs⟩
    · cases hr
    have hm := hn.source_ne_null
    subst hm
    obtain ⟨ho, hname, _⟩ := h.wired.owner m₀ o s hn.output_eq
    refine ⟨_, _, hs, ?_⟩
    have horigin : triple σ'.wiring = triple σ.wiring := by
      rw [hw]
      rfl
    rw [represented, horigin, Finset.erase_val, Multiset.map_erase_of_mem _ _ hmem]
    simp [storeStep, represented, triple, ho, hname]
  | detachAllInputs this m => cases ha
  | detachAllOutputs this => cases ha
  | tightlyConnect this m => cases ha
  | disconnectAndDestroy m => cases ha

/-- Whole runs refine the store, from any sound space on. -/
private theorem run_refines {σ σ' : Space} {as : List Action} {lists : Lists}
    {conns : Finset Connection} (h : Sound σ lists conns)
    (hrun : Library.Run step (fun σ a r ↦ a.connects = true ∧ σ.careful a = true ∧ r.isOk = true)
      σ as σ') :
    ∃ lists' conns', Sound σ' lists' conns' ∧
      represented σ'.wiring conns' = as.foldl storeStep (represented σ.wiring conns) := by
  induction hrun generalizing lists conns with
  | nil σ => exact ⟨lists, conns, h, rfl⟩
  | cons hstep hok _ ih =>
    obtain ⟨lists₁, conns₁, hs₁, hrep₁⟩ := step_refines h hok.1 hok.2.1 hok.2.2 hstep
    obtain ⟨lists', conns', hs, hrep⟩ := ih hs₁
    exact ⟨lists', conns', hs, by rw [hrep, hrep₁]; rfl⟩

/-- After every careful run of successful calls `internal_get_input_connections` of every
machine returns, and reports exactly the connections attached and not yet detached. -/
theorem run_connections_refine {σ : Space} {as : List Action}
    (h : Library.Run step (fun σ a r ↦ a.connects = true ∧ σ.careful a = true ∧ r.isOk = true)
      Space.empty as σ) (d : MachineId) (hd : d ∈ σ.machines) :
    ∃ l, σ.internalGetInputConnections d = some l ∧
      (l : Multiset (StdString × MachineId × StdString)) =
        ((store as).filter fun c ↦ c.1 = d).map Prod.snd := by
  obtain ⟨t, ht⟩ := Option.isSome_iff_exists.mp (Std.ExtTreeMap.mem_iff_isSome_getElem?.mp hd)
  obtain ⟨lists, conns, hs, hrep⟩ := run_refines sound_empty h
  have hstore : store as = represented σ.wiring conns := hrep.symm
  obtain ⟨entries, he, hn, hmem⟩ := inputEntries_wired hs.wired ht
  refine ⟨_, by rw [internalGetInputConnections, he]; rfl, ?_⟩
  -- The entries are the connections to `d`.
  have hentries : (entries : Multiset (StdString × SignalId)) =
      (conns.filter fun c ↦ c.1 = d).val.map Prod.snd := by
    have hnodup : ((conns.filter fun c ↦ c.1 = d).val.map Prod.snd).Nodup := by
      refine Multiset.Nodup.map_on ?_ (Finset.nodup _)
      intro a ha b hb hab
      have had : a.1 = d := (Finset.mem_filter.mp ha).2
      have hbd : b.1 = d := (Finset.mem_filter.mp hb).2
      exact Prod.ext (had.trans hbd.symm) hab
    refine (Multiset.Nodup.ext (Multiset.coe_nodup.mpr hn) hnodup).mpr ?_
    intro e
    rw [Multiset.mem_coe, hmem, Multiset.mem_map]
    constructor
    · exact fun hc ↦ ⟨(d, e.1, e.2), Finset.mem_filter.mpr ⟨hc, rfl⟩, rfl⟩
    · rintro ⟨c, hc, rfl⟩
      obtain ⟨hin, hcd⟩ := Finset.mem_filter.mp hc
      rw [← hcd]
      exact hin
  have hcoe : ((entries.map fun e ↦ (e.1, (σ.signals e.2).originator, (σ.signals e.2).name) :
      List (StdString × MachineId × StdString)) : Multiset _) =
      (entries : Multiset (StdString × SignalId)).map fun e ↦
        (e.1, (σ.signals e.2).originator, (σ.signals e.2).name) := rfl
  rw [hcoe, hentries, hstore, represented, Multiset.filter_map, Multiset.map_map,
    Multiset.map_map]
  rfl

/-- The result applies where one output feeds two inputs and is detached from one. -/
theorem run_connections_refine_stereo :
    ∃ σ, Library.Run step
        (fun σ a r ↦ a.connects = true ∧ σ.careful a = true ∧ r.isOk = true) Space.empty
        (stereo ++ [.detachInput 1 (some 2) (str "out") (str "left")]) σ ∧ 1 ∈ σ.machines ∧
      ∃ l, σ.internalGetInputConnections 1 = some l ∧
        (l : Multiset (StdString × MachineId × StdString)) =
          ((store (stereo ++ [.detachInput 1 (some 2) (str "out") (str "left")])).filter
            fun c ↦ c.1 = 1).map Prod.snd := by
  have hsome : (Library.runAll step (fun σ a r ↦ a.connects && σ.careful a && r.isOk) Space.empty
      (stereo ++ [.detachInput 1 (some 2) (str "out") (str "left")])).map
        (fun σ ↦ decide (1 ∈ σ.machines)) = some true := by decide +kernel
  obtain ⟨σ, hσ, hlive⟩ := Option.map_eq_some_iff.mp hsome
  have hrun := (Library.Run.of_runAll hσ).mono (o := fun σ a r ↦
    a.connects = true ∧ σ.careful a = true ∧ r.isOk = true) fun σ a r h ↦ by
      simpa [and_assoc] using h
  exact ⟨σ, hrun, of_decide_eq_true hlive,
    run_connections_refine hrun 1 (of_decide_eq_true hlive)⟩

/-- The same connection made twice is reported once. -/
theorem connections_not_refined :
    ¬ ∀ (as : List Action) (σ : Space) (d : MachineId),
      Library.Run step (fun _ a r ↦ a.connects = true ∧ r.isOk = true) Space.empty as σ →
      d ∈ σ.machines → ∃ l, σ.internalGetInputConnections d = some l ∧
        (l : Multiset (StdString × MachineId × StdString)) =
          ((store as).filter fun c ↦ c.1 = d).map Prod.snd := by
  intro hall
  let twice : List Action :=
    [.setupMachine 1 (.mono ["in"] []) none, .setupMachine 2 (.mono [] ["out"]) none,
      .attachInput 1 (some 2) (str "out") (str "in"), .attachInput 1 (some 2) (str "out") (str "in")]
  have heval : (Library.runAll step (fun _ a r ↦ a.connects && r.isOk) Space.empty twice).bind
      (fun σ ↦ (σ.internalGetInputConnections 1).map fun l ↦
        (decide (1 ∈ σ.machines), l.length)) = some (true, 1) := by decide +kernel
  obtain ⟨σ, hσ, h⟩ := Option.bind_eq_some_iff.mp heval
  obtain ⟨l, hl, h⟩ := Option.map_eq_some_iff.mp h
  obtain ⟨hlive, hlen⟩ := Prod.mk.inj h
  have hrun := (Library.Run.of_runAll hσ).mono
    (o := fun _ a r ↦ a.connects = true ∧ r.isOk = true) fun _ a r h ↦ by simpa using h
  obtain ⟨l', hl', heq⟩ := hall twice σ 1 hrun (of_decide_eq_true hlive)
  rw [hl] at hl'
  obtain rfl := Option.some.inj hl'
  have hcard := congrArg Multiset.card heq
  rw [Multiset.coe_card, hlen] at hcard
  simp [twice, store, storeStep] at hcard

end Space
end Vuknob
