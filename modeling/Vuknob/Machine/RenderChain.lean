import Vuknob.Machine.Space
import Vuknob.Library.DepthFirst

/-!
# Loop detection and the render chain

`find_machine_in_graph`, `src_jni/machine.cc:1554–1575`, and the render chain functions,
`src_jni/machine.cc:1068–1102`. Both recurse along the `dependant` maps; the chain is a
list through the `next_render_chain` members, which still hold what earlier chains left.
-/

namespace Vuknob
namespace Space

/-- The keys of the `dependant` map of `p`, in the order of iteration. -/
def dependants (σ : Space) (p : MachineId) : List MachineId :=
  match σ.machines[p]? with
  | none => []
  | some m => m.dependant.keys

/-- The recursion of `Machine::find_machine_in_graph`, `src_jni/machine.cc:1554–1575`. -/
def findFrom (σ : Space) (m : MachineId) : Nat → MachineId → Option Bool
  | 0, _ => none
  | fuel + 1, this => do
    let t ← σ.machines[this]?
    if m = this then some true
    else if m ∈ t.dependant then some true
    else t.dependant.keys.anyM (findFrom σ m fuel)

/-- `this->find_machine_in_graph(m)`. A recursion deeper than there are machines has
met a machine twice and does not end. -/
def findMachineInGraph (σ : Space) (this m : MachineId) : Option Bool :=
  σ.findFrom m σ.machines.size this

/-- `p->next_render_chain`. -/
def renderPtr (σ : Space) (p : MachineId) : Option (Option MachineId) :=
  σ.machines[p]?.map (·.nextRenderChain)

/-- `this->next_render_chain = top_render_chain; top_render_chain = this`. -/
def pushTop (σ : Space) (this : MachineId) : Space :=
  { σ.modifyMachine this fun x ↦ { x with nextRenderChain := σ.topRenderChain } with
    topRenderChain := some this }

/-- The recursion of `Machine::push_to_render_chain`, `src_jni/machine.cc:1068–1087`. -/
def pushFrom : Nat → MachineId → Space → Option Space
  | 0, _, _ => none
  | fuel + 1, this, σ => do
    let t ← σ.machines[this]?
    let found ← Library.locate σ.renderPtr this σ.machines.size σ.topRenderChain
    if found then some σ
    else t.dependant.keys.foldlM (fun σ d ↦ pushFrom fuel d σ) (σ.pushTop this)

/-- `this->push_to_render_chain()`. -/
def pushToRenderChain (σ : Space) (this : MachineId) : Option Space :=
  pushFrom (σ.machines.size + 1) this σ

/-- `Machine::recalculate_render_chain`, `src_jni/machine.cc:1089–1094`. -/
def recalculateRenderChain (σ : Space) : Option Space :=
  let σ₀ := { σ with topRenderChain := none }
  match σ.sink with
  | none => some σ₀
  | some s => σ₀.pushToRenderChain s

/-- `Machine::render_chain`, `src_jni/machine.cc:1096–1102`: the machines in the order in
which they are executed. -/
def renderChain (σ : Space) : Option (List MachineId) :=
  Library.walk σ.renderPtr σ.machines.size σ.topRenderChain

/-! ### Live pointers -/

/-- Every pointer kept in a `dependant` map, and the sink pointer, is to a live machine. -/
structure Closed (σ : Space) : Prop where
  dependant : ∀ (p : MachineId) (m : Machine), σ.machines[p]? = some m →
    ∀ q ∈ m.dependant, q ∈ σ.machines
  sink : ∀ s, σ.sink = some s → s ∈ σ.machines

/-- The `dependant` maps describe an acyclic graph. -/
def Acyclic (σ : Space) : Prop := Library.Acyclic σ.dependants

theorem mem_dependants {σ : Space} {p q : MachineId} :
    q ∈ σ.dependants p ↔ ∃ m, σ.machines[p]? = some m ∧ q ∈ m.dependant := by
  unfold dependants
  cases hp : σ.machines[p]? with
  | none => simp
  | some m => simp [Std.ExtTreeMap.mem_keys]

theorem Closed.mem_keys {σ : Space} (h : σ.Closed) (p : MachineId) (_ : p ∈ σ.machines.keys) :
    ∀ q ∈ σ.dependants p, q ∈ σ.machines.keys := by
  intro q hq
  obtain ⟨m, hm, hq⟩ := mem_dependants.mp hq
  exact Std.ExtTreeMap.mem_keys.mpr (h.dependant p m hm q hq)

private theorem closed_iff (σ : Space) :
    (σ.machines.toList.all (fun e ↦ e.2.dependant.keys.all (· ∈ σ.machines)) &&
      σ.sink.all (· ∈ σ.machines)) = true ↔ σ.Closed := by
  simp only [Bool.and_eq_true, List.all_eq_true, decide_eq_true_eq, Option.all_eq_true]
  constructor
  · rintro ⟨hd, hs⟩
    refine ⟨fun p m hm q hq ↦ ?_, hs⟩
    exact hd (p, m) (Std.ExtTreeMap.mem_toList_iff_getElem?_eq_some.mpr hm) q
      (Std.ExtTreeMap.mem_keys.mpr hq)
  · intro h
    refine ⟨fun e he q hq ↦ ?_, h.sink⟩
    exact h.dependant e.1 e.2 (Std.ExtTreeMap.mem_toList_iff_getElem?_eq_some.mp he) q
      (Std.ExtTreeMap.mem_keys.mp hq)

instance (σ : Space) : Decidable σ.Closed := decidable_of_iff _ (closed_iff σ)

/-! ### Loop detection -/

/-- With live pointers only, the recursion of the source is the search without marks. -/
theorem findFrom_eq_search {σ : Space} (h : σ.Closed) (m : MachineId) (fuel : Nat)
    (this : MachineId) (ht : this ∈ σ.machines) :
    σ.findFrom m fuel this = Library.search σ.dependants m fuel this := by
  induction fuel generalizing this with
  | zero => rfl
  | succ fuel ih =>
    obtain ⟨t, hm⟩ := Option.isSome_iff_exists.mp (Std.ExtTreeMap.mem_iff_isSome_getElem?.mp ht)
    have hd : σ.dependants this = t.dependant.keys := by simp [dependants, hm]
    rw [findFrom, Library.search, hm, hd]
    simp only [Option.bind_eq_bind, Option.bind_some, Std.ExtTreeMap.mem_keys]
    have hany : ∀ l : List MachineId, (∀ q ∈ l, q ∈ σ.machines) →
        l.anyM (σ.findFrom m fuel) = l.anyM (Library.search σ.dependants m fuel) := by
      intro l
      induction l with
      | nil => exact fun _ ↦ rfl
      | cons q l ihl =>
        intro hl
        rw [List.anyM, List.anyM, ih q (hl q (by simp)), ihl fun r hr ↦ hl r (by simp [hr])]
    rw [hany _ fun q hq ↦ h.dependant this t hm q (Std.ExtTreeMap.mem_keys.mp hq)]

/-- In an acyclic network the loop test returns, and finds exactly what is reachable. -/
theorem findMachineInGraph_spec {σ : Space} (h : σ.Closed) (hac : σ.Acyclic)
    (this m : MachineId) (ht : this ∈ σ.machines) :
    ∃ b, σ.findMachineInGraph this m = some b ∧
      (b = true ↔ Library.Reach σ.dependants this m) := by
  have hk : this ∈ σ.machines.keys := Std.ExtTreeMap.mem_keys.mpr ht
  obtain ⟨b, hb⟩ := Library.search_returns hac h.mem_keys m σ.machines.size this hk
    (by rw [Std.ExtTreeMap.length_keys])
  exact ⟨b, by rw [findMachineInGraph, findFrom_eq_search h m _ this ht, hb],
    Library.search_iff hb⟩

private theorem anyM_mono {f g : MachineId → Option Bool} (h : ∀ q b, f q = some b → g q = some b)
    (l : List MachineId) (b : Bool) (hf : l.anyM f = some b) : l.anyM g = some b := by
  induction l with
  | nil => exact hf
  | cons q l ih =>
    rw [List.anyM] at hf ⊢
    obtain ⟨c, hc, hr⟩ := Option.bind_eq_some_iff.mp hf
    rw [h q c hc]
    cases c with
    | true => exact hr
    | false => exact ih hr

private theorem search_of_findFrom {σ : Space} {m : MachineId} (fuel : Nat) (this : MachineId)
    (b : Bool) (h : σ.findFrom m fuel this = some b) :
    Library.search σ.dependants m fuel this = some b := by
  induction fuel generalizing this b with
  | zero => cases h
  | succ fuel ih =>
    rw [findFrom] at h
    obtain ⟨t, ht, hr⟩ := Option.bind_eq_some_iff.mp h
    have hd : σ.dependants this = t.dependant.keys := by simp [dependants, ht]
    rw [Library.search, hd]
    simp only [Std.ExtTreeMap.mem_keys]
    split
    · next he => simpa [he] using hr
    · next he =>
      rw [if_neg he] at hr
      split
      · next hm => simpa [hm] using hr
      · next hm =>
        rw [if_neg hm] at hr
        exact anyM_mono (fun q b hq ↦ ih q b hq) _ b hr

/-- Whatever the loop test returns is right, also where other pointers dangle. -/
theorem findMachineInGraph_iff {σ : Space} {this m : MachineId} {b : Bool}
    (h : σ.findMachineInGraph this m = some b) :
    b = true ↔ Library.Reach σ.dependants this m :=
  Library.search_iff (search_of_findFrom _ _ _ h)

/-! ### The chain -/

/-- The space without its render chain. -/
def network (σ : Space) : Space :=
  { σ with
    machines := σ.machines.map fun _ m ↦ { m with nextRenderChain := none }
    topRenderChain := none }

private theorem network_getElem? (σ : Space) (p : MachineId) :
    σ.network.machines[p]? = σ.machines[p]?.map fun m ↦ { m with nextRenderChain := none } := by
  simp [network]

/-- Spaces with one network have the same live machines. -/
theorem mem_of_network {σ σ' : Space} (h : σ'.network = σ.network) (p : MachineId) :
    p ∈ σ'.machines ↔ p ∈ σ.machines := by
  have hp := congrArg (fun τ : Space ↦ (τ.machines[p]?).isSome) h
  simp only [network_getElem?, Option.isSome_map] at hp
  rw [Std.ExtTreeMap.mem_iff_isSome_getElem?, Std.ExtTreeMap.mem_iff_isSome_getElem?, hp]

/-- Spaces with one network have the same machines up to their place in the chain. -/
theorem getElem?_of_network {σ σ' : Space} (h : σ'.network = σ.network) (p : MachineId) :
    σ'.machines[p]? =
      σ.machines[p]?.map fun m ↦
        { m with nextRenderChain := (σ'.machines[p]?.bind (·.nextRenderChain)) } := by
  have hp := congrArg (fun τ : Space ↦ τ.machines[p]?) h
  simp only [network_getElem?] at hp
  cases h1 : σ'.machines[p]? with
  | none =>
    cases h2 : σ.machines[p]? with
    | none => rfl
    | some m => simp [h1, h2] at hp
  | some m' =>
    cases h2 : σ.machines[p]? with
    | none => simp [h1, h2] at hp
    | some m =>
      simp only [h1, h2, Option.map_some, Option.some.injEq, Machine.mk.injEq] at hp
      obtain ⟨e1, e2, e3, e4, e5, e6, -⟩ := hp
      simp [← e1, ← e2, ← e3, ← e4, ← e5, ← e6]

theorem dependants_of_network {σ σ' : Space} (h : σ'.network = σ.network) :
    σ'.dependants = σ.dependants := by
  funext p
  unfold dependants
  rw [getElem?_of_network h p]
  cases σ.machines[p]? <;> rfl

theorem closed_of_network {σ σ' : Space} (h : σ'.network = σ.network) (hc : σ.Closed) :
    σ'.Closed where
  dependant p m hm q hq := by
    rw [mem_of_network h]
    have hq' : q ∈ σ'.dependants p := mem_dependants.mpr ⟨m, hm, hq⟩
    rw [dependants_of_network h] at hq'
    obtain ⟨m', hm', hq'⟩ := mem_dependants.mp hq'
    exact hc.dependant p m' hm' q hq'
  sink s hs := by
    rw [mem_of_network h]
    exact hc.sink s ((congrArg Space.sink h).symm.trans hs)

private theorem pushTop_getElem? (σ : Space) (this p : MachineId) :
    (σ.pushTop this).machines[p]? =
      if this = p then σ.machines[this]?.map fun x ↦ { x with nextRenderChain := σ.topRenderChain }
      else σ.machines[p]? := by
  simp [pushTop, modifyMachine, Std.ExtTreeMap.getElem?_modify]

private theorem network_pushTop (σ : Space) (this : MachineId) :
    (σ.pushTop this).network = σ.network := by
  have : (σ.pushTop this).network.machines = σ.network.machines := by
    apply Std.ExtTreeMap.ext_getElem?
    intro p
    rw [network_getElem?, network_getElem?, pushTop_getElem?]
    split
    · next he =>
      subst he
      cases σ.machines[this]? <;> rfl
    · rfl
  simp only [network] at this ⊢
  rw [this]
  rfl

private theorem network_pushFrom (fuel : Nat) (this : MachineId) (σ σ' : Space)
    (h : pushFrom fuel this σ = some σ') : σ'.network = σ.network := by
  induction fuel generalizing this σ σ' with
  | zero => cases h
  | succ fuel ih =>
    rw [pushFrom] at h
    obtain ⟨t, _, h⟩ := Option.bind_eq_some_iff.mp h
    obtain ⟨found, _, h⟩ := Option.bind_eq_some_iff.mp h
    split at h
    · rw [Option.some.inj h]
    · have loop : ∀ (l : List MachineId) (τ : Space),
          l.foldlM (fun σ d ↦ pushFrom fuel d σ) τ = some σ' → σ'.network = τ.network := by
        intro l
        induction l with
        | nil => exact fun τ hτ ↦ by rw [Option.some.inj hτ]
        | cons d l ihl =>
          intro τ hτ
          rw [List.foldlM_cons] at hτ
          obtain ⟨τ', hd, hr⟩ := Option.bind_eq_some_iff.mp hτ
          exact (ihl τ' hr).trans (ih d τ τ' hd)
      exact (loop _ _ h).trans (network_pushTop σ this)

/-- `recalculate_render_chain` writes to the chain only. -/
theorem network_recalculateRenderChain {σ σ' : Space}
    (h : σ.recalculateRenderChain = some σ') : σ'.network = σ.network := by
  unfold recalculateRenderChain at h
  dsimp only at h
  split at h
  · rw [← Option.some.inj h]
    rfl
  · next s _ => exact network_pushFrom _ s { σ with topRenderChain := none } σ' h

private theorem isList_pushTop {σ : Space} {this : MachineId} {chain : List MachineId}
    (hl : Library.IsList σ.renderPtr σ.topRenderChain chain) (ht : this ∈ σ.machines)
    (hn : this ∉ chain) :
    Library.IsList (σ.pushTop this).renderPtr (σ.pushTop this).topRenderChain
      (this :: chain) := by
  obtain ⟨t, hm⟩ := Option.isSome_iff_exists.mp (Std.ExtTreeMap.mem_iff_isSome_getElem?.mp ht)
  refine ⟨rfl, σ.topRenderChain, by simp [renderPtr, pushTop_getElem?, hm], ?_⟩
  apply hl.congr
  intro a ha
  have hne : this ≠ a := by
    rintro rfl
    exact hn ha
  simp [renderPtr, pushTop_getElem?, hne]

/-- A chain leads through live machines. -/
theorem mem_of_isList {σ : Space} {head : Option MachineId} {chain : List MachineId}
    (hl : Library.IsList σ.renderPtr head chain) (p : MachineId) (hp : p ∈ chain) :
    p ∈ σ.machines := by
  induction chain generalizing head with
  | nil => cases hp
  | cons a chain ih =>
    obtain ⟨_, n, hn, hl⟩ := hl
    rcases List.mem_cons.mp hp with rfl | hp
    · rw [Std.ExtTreeMap.mem_iff_isSome_getElem?]
      cases hm : σ.machines[p]? with
      | none => simp [renderPtr, hm] at hn
      | some m => rfl
    · exact ih hl hp

/-- A chain is no longer than there are machines. -/
private theorem length_le_size {σ : Space} {head : Option MachineId} {chain : List MachineId}
    (hl : Library.IsList σ.renderPtr head chain) : chain.length ≤ σ.machines.size := by
  rw [← Std.ExtTreeMap.length_keys]
  apply (List.subperm_of_subset hl.nodup _).length_le
  exact fun p hp ↦ Std.ExtTreeMap.mem_keys.mpr (mem_of_isList hl p hp)

/-- The chain pointers from `top_render_chain` on lead through live machines to the end. -/
def Chained (σ : Space) : Prop :=
  ∃ chain, Library.IsList σ.renderPtr σ.topRenderChain chain

theorem chained_notify {σ : Space} (n : Notification) (h : σ.Chained) : (σ.notify n).Chained := h

private theorem chained_pushFrom (fuel : Nat) (this : MachineId) (σ σ' : Space)
    (hc : σ.Chained) (h : pushFrom fuel this σ = some σ') : σ'.Chained := by
  induction fuel generalizing this σ σ' with
  | zero => cases h
  | succ fuel ih =>
    obtain ⟨chain, hl⟩ := hc
    rw [pushFrom] at h
    obtain ⟨t, ht, h⟩ := Option.bind_eq_some_iff.mp h
    obtain ⟨found, hfound, h⟩ := Option.bind_eq_some_iff.mp h
    rw [Library.locate_eq this hl (length_le_size hl)] at hfound
    split at h
    · rw [← Option.some.inj h]
      exact ⟨chain, hl⟩
    · next hnot =>
      have hmem : this ∉ chain := by
        rintro hm
        rw [← Option.some.inj hfound] at hnot
        simp [hm] at hnot
      have hlive : this ∈ σ.machines :=
        Std.ExtTreeMap.mem_iff_isSome_getElem?.mpr (by simp [ht])
      have loop : ∀ (l : List MachineId) (τ : Space), τ.Chained →
          l.foldlM (fun σ d ↦ pushFrom fuel d σ) τ = some σ' → σ'.Chained := by
        intro l
        induction l with
        | nil => exact fun τ hτ hr ↦ Option.some.inj hr ▸ hτ
        | cons d l ihl =>
          intro τ hτ hr
          rw [List.foldlM_cons] at hr
          obtain ⟨τ', hd, hr⟩ := Option.bind_eq_some_iff.mp hr
          exact ihl τ' (ih d τ τ' hτ hd) hr
      exact loop _ _ ⟨_, isList_pushTop hl hlive hmem⟩ h

/-- `recalculate_render_chain` never leaves a broken chain. -/
theorem chained_recalculateRenderChain {σ σ' : Space}
    (h : σ.recalculateRenderChain = some σ') : σ'.Chained := by
  unfold recalculateRenderChain at h
  dsimp only at h
  split at h
  · rw [← Option.some.inj h]
    exact ⟨[], rfl⟩
  · next s _ =>
    exact chained_pushFrom _ s { σ with topRenderChain := none } σ' ⟨[], rfl⟩ h

/-- The recursion on the pointers carries out the marking search: the chain that starts
at `top_render_chain` is the list of the machines seen so far. -/
theorem pushFrom_of_visit {succ : MachineId → List MachineId} (fuel : Nat) (this : MachineId)
    (σ : Space) (chain out : List MachineId) (hd : σ.dependants = succ) (hc : σ.Closed)
    (ht : this ∈ σ.machines) (hl : Library.IsList σ.renderPtr σ.topRenderChain chain)
    (hv : Library.visit succ fuel this chain = some out) :
    ∃ σ', pushFrom fuel this σ = some σ' ∧ σ'.network = σ.network ∧
      Library.IsList σ'.renderPtr σ'.topRenderChain out := by
  induction fuel generalizing this σ chain out with
  | zero => cases hv
  | succ fuel ih =>
    obtain ⟨t, hm⟩ := Option.isSome_iff_exists.mp (Std.ExtTreeMap.mem_iff_isSome_getElem?.mp ht)
    have hkeys : succ this = t.dependant.keys := by simp [← hd, dependants, hm]
    rw [Library.visit, hkeys] at hv
    rw [pushFrom, hm]
    simp only [Option.bind_eq_bind, Option.bind_some,
      Library.locate_eq this hl (length_le_size hl)]
    split at hv
    · next hmem =>
      obtain rfl := Option.some.inj hv
      exact ⟨σ, by simp [hmem], rfl, hl⟩
    · next hmem =>
      simp only [hmem, decide_false, Bool.false_eq_true, if_false]
      -- The loop over the `dependant` map; the network stays that of `σ`.
      have loop : ∀ (l : List MachineId) (τ : Space) (cur : List MachineId),
          (∀ q ∈ l, q ∈ σ.machines) → τ.network = σ.network →
          Library.IsList τ.renderPtr τ.topRenderChain cur →
          l.foldlM (fun seen b ↦ Library.visit succ fuel b seen) cur = some out →
          ∃ σ', l.foldlM (fun σ d ↦ pushFrom fuel d σ) τ = some σ' ∧
            σ'.network = σ.network ∧ Library.IsList σ'.renderPtr σ'.topRenderChain out := by
        intro l
        induction l with
        | nil =>
          intro τ cur _ hnet hcur hr
          obtain rfl : cur = out := by simpa using hr
          exact ⟨τ, rfl, hnet, hcur⟩
        | cons q l ihl =>
          intro τ cur hlive hnet hcur hr
          rw [List.foldlM_cons] at hr
          obtain ⟨mid, hmid, hr⟩ := Option.bind_eq_some_iff.mp hr
          obtain ⟨τ', hp, hnet', hlist⟩ := ih q τ cur mid
            (by rw [dependants_of_network hnet, hd]) (closed_of_network hnet hc)
            ((mem_of_network hnet q).mpr (hlive q (by simp))) hcur hmid
          obtain ⟨σ', hf, hn', hl'⟩ := ihl τ' mid (fun r hr ↦ hlive r (by simp [hr]))
            (hnet'.trans hnet) hlist hr
          exact ⟨σ', by rw [List.foldlM_cons, hp]; exact hf, hn', hl'⟩
      exact loop t.dependant.keys (σ.pushTop this) (this :: chain)
        (fun q hq ↦ hc.dependant this t hm q (Std.ExtTreeMap.mem_keys.mp hq))
        (network_pushTop σ this) (isList_pushTop hl ht hmem) hv

/-- With live pointers `recalculate_render_chain` returns. It touches nothing but the
chain, and the chain lists what the marking search from the sink sees. -/
theorem recalculateRenderChain_spec {σ : Space} (hc : σ.Closed) :
    ∃ σ' chain, σ.recalculateRenderChain = some σ' ∧ σ'.network = σ.network ∧
      σ'.renderChain = some chain ∧ (σ.sink = none → chain = []) ∧
      ∀ s, σ.sink = some s → ∃ fuel, Library.visit σ.dependants fuel s [] = some chain := by
  cases hs : σ.sink with
  | none =>
    refine ⟨{ σ with topRenderChain := none }, [], by simp [recalculateRenderChain, hs], rfl, ?_,
      fun _ ↦ rfl, fun s h ↦ absurd h (by simp)⟩
    rw [renderChain, Library.walk_eq_some_iff]
    exact ⟨rfl, Nat.zero_le _⟩
  | some s =>
    let σ₀ : Space := { σ with topRenderChain := none }
    have hc₀ : σ₀.Closed := closed_of_network (show σ₀.network = σ.network from rfl) hc
    obtain ⟨chain, hv⟩ := Library.visit_returns σ.dependants σ.machines.keys hc.mem_keys
      (σ.machines.size + 1) s [] (Std.ExtTreeMap.mem_keys.mpr (hc.sink s hs))
      (by rw [Std.ExtTreeMap.length_keys]; omega)
    obtain ⟨σ', hp, hnet, hl⟩ := pushFrom_of_visit (σ.machines.size + 1) s σ₀ [] chain rfl hc₀
      (hc.sink s hs) rfl hv
    refine ⟨σ', chain, ?_, hnet, ?_, fun h ↦ absurd h (by simp), ?_⟩
    · unfold recalculateRenderChain
      split
      · next hn => rw [hs] at hn; cases hn
      · next s' hs' =>
        rw [hs] at hs'
        obtain rfl := Option.some.inj hs'
        exact hp
    · rw [renderChain, Library.walk_eq_some_iff]
      exact ⟨hl, length_le_size hl⟩
    · intro s' hs'
      obtain rfl := Option.some.inj hs'
      exact ⟨_, hv⟩

/-- With live pointers and an unbroken chain `push_to_render_chain` returns for every
machine. -/
theorem pushToRenderChain_returns {σ : Space} (hc : σ.Closed) (hch : σ.Chained)
    (this : MachineId) (ht : this ∈ σ.machines) : ∃ σ', σ.pushToRenderChain this = some σ' := by
  obtain ⟨chain, hl⟩ := hch
  obtain ⟨out, hv⟩ := Library.visit_returns σ.dependants σ.machines.keys hc.mem_keys
    (σ.machines.size + 1) this chain (Std.ExtTreeMap.mem_keys.mpr ht)
    (by rw [Std.ExtTreeMap.length_keys]; omega)
  obtain ⟨σ', hp, _⟩ := pushFrom_of_visit (σ.machines.size + 1) this σ chain out rfl hc ht hl hv
  exact ⟨σ', hp⟩

/-- The chain that `recalculate_render_chain` leaves holds exactly the machines the sink
reaches through `dependant`, each once, whatever the old chain pointers were; without a
sink it is empty. -/
theorem recalculateRenderChain_contents (σ : Space) (hc : σ.Closed) :
    ∃ σ' chain, σ.recalculateRenderChain = some σ' ∧ σ'.renderChain = some chain ∧
      chain.Nodup ∧
      (∀ p, p ∈ chain ↔ ∃ s, σ.sink = some s ∧ Library.Reach σ.dependants s p) ∧
      (σ.sink = none → chain = []) := by
  obtain ⟨σ', chain, hr, _, hchain, hnone, hsome⟩ := recalculateRenderChain_spec hc
  refine ⟨σ', chain, hr, hchain, ?_, ?_, hnone⟩
  · cases hs : σ.sink with
    | none => rw [hnone hs]; exact List.nodup_nil
    | some s =>
      obtain ⟨fuel, hv⟩ := hsome s hs
      exact (Library.visit_root hv).1.nodup
  · intro p
    cases hs : σ.sink with
    | none => simp [hnone hs]
    | some s =>
      obtain ⟨fuel, hv⟩ := hsome s hs
      simp [(Library.visit_root hv).2 p]

/-- The result applies to a sink with one source whose old chain pointers form a circle. -/
theorem recalculateRenderChain_contents_stale :
    let unit : Option MachineId → Std.ExtTreeMap MachineId Int → Machine :=
      fun old dependant ↦ ⟨str "unit", ∅, ∅, ∅, dependant, ∅, old⟩
    let σ : Space := ⟨.ofList [(1, unit (some 2) (.ofList [(2, (1 : Int))])), (2, unit (some 1) ∅)],
      fun _ ↦ default, 0, some 1, some 2, []⟩
    σ.Closed ∧ ∃ σ' chain, σ.recalculateRenderChain = some σ' ∧ σ'.renderChain = some chain ∧
      chain.Nodup ∧
      (∀ p, p ∈ chain ↔ ∃ s, σ.sink = some s ∧ Library.Reach σ.dependants s p) ∧
      (σ.sink = none → chain = []) := by
  intro unit σ
  have hc : σ.Closed := by decide +kernel
  exact ⟨hc, recalculateRenderChain_contents σ hc⟩

end Space
end Vuknob
