import Vuknob.Machine.Acyclic

/-!
# Where the pointers to signals lead

The network stores pointers to signals as the heads of the input lists, as outputs, and in the
lists themselves. No operation stores a pointer that does not come from one of these, or from a
signal that it has just created for an output: this holds in every run, also in one whose lists are
no longer in order.
-/

namespace Vuknob
namespace Space

/-- There are `n` signals, and every pointer leads to one of `P`. -/
structure Leads (P : SignalId → Prop) (n : Nat) (σ : Space) : Prop where
  count : σ.signalCount = n
  input : ∀ {p : MachineId} {s} {i : StdString} {x : Machine}, σ.machines[p]? = some x →
    x.input[i]? = some s → P s
  output : ∀ {p : MachineId} {s} {o : StdString} {x : Machine}, σ.machines[p]? = some x →
    x.output[o]? = some s → P s
  next : ∀ {m s t}, σ.next m s = some t → P t
  previous : ∀ {m s t}, σ.previous m s = some t → P t

namespace Leads

variable {P : SignalId → Prop} {n : Nat} {σ σ' : Space}

theorem empty (P : SignalId → Prop) : Leads P 0 Space.empty where
  count := rfl
  input hx := by simp [Space.empty] at hx
  output hx := by simp [Space.empty] at hx
  next ht := by cases ht
  previous ht := by cases ht

theorem mono {Q : SignalId → Prop} (h : Leads P n σ) (hPQ : ∀ s, P s → Q s) : Leads Q n σ where
  count := h.count
  input hx hs := hPQ _ (h.input hx hs)
  output hx hs := hPQ _ (h.output hx hs)
  next ht := hPQ _ (h.next ht)
  previous ht := hPQ _ (h.previous ht)

/-! ### Single writes -/

theorem notify (h : Leads P n σ) (e : Notification) : Leads P n (σ.notify e) :=
  ⟨h.count, h.input, h.output, h.next, h.previous⟩

/-- A write to a machine that stores known signals only. -/
theorem modifyMachine (h : Leads P n σ) (p : MachineId) (f : Machine → Machine)
    (hinput : ∀ (x : Machine) (i : StdString) s, σ.machines[p]? = some x →
      (f x).input[i]? = some s → P s) (houtput : ∀ x, (f x).output = x.output) :
    Leads P n (σ.modifyMachine p f) := by
  have hget : ∀ {d : MachineId} {x : Machine}, (σ.modifyMachine p f).machines[d]? = some x →
      σ.machines[d]? = some x ∨ ∃ y, d = p ∧ σ.machines[d]? = some y ∧ x = f y := by
    intro d x hx
    rw [Space.modifyMachine, Std.ExtTreeMap.getElem?_modify] at hx
    split at hx
    · next hd =>
      obtain rfl : p = d := by simpa using hd
      obtain ⟨y, hy, rfl⟩ := Option.map_eq_some_iff.mp hx
      exact .inr ⟨y, rfl, hy, rfl⟩
    · exact .inl hx
  refine ⟨h.count, fun hx hs ↦ ?_, fun hx hs ↦ ?_, h.next, h.previous⟩
  · rcases hget hx with hx | ⟨y, rfl, hy, rfl⟩
    · exact h.input hx hs
    · exact hinput y _ _ hy hs
  · rcases hget hx with hx | ⟨y, rfl, hy, rfl⟩
    · exact h.output hx hs
    · exact h.output hy (houtput y ▸ hs)

/-- A write to a machine that leaves its inputs and outputs alone. -/
theorem modifyOther (h : Leads P n σ) (p : MachineId) (f : Machine → Machine)
    (hinput : ∀ x, (f x).input = x.input) (houtput : ∀ x, (f x).output = x.output) :
    Leads P n (σ.modifyMachine p f) :=
  h.modifyMachine p f (fun x _ _ hx hs ↦ h.input hx (hinput x ▸ hs)) houtput

theorem setInput (h : Leads P n σ) (this : MachineId) (i : StdString) {head : Option SignalId}
    (hhead : ∀ s, head = some s → P s) : Leads P n (σ.setInput this i head) := by
  refine h.modifyMachine this _ (fun x j s hx hs ↦ ?_) fun _ ↦ rfl
  cases head with
  | none =>
    dsimp only at hs
    rw [Std.ExtTreeMap.getElem?_erase] at hs
    split at hs
    · cases hs
    · exact h.input hx hs
  | some k =>
    dsimp only at hs
    rw [Std.ExtTreeMap.getElem?_insert] at hs
    split at hs
    · exact hhead s hs
    · exact h.input hx hs

/-- A write to a signal that stores known signals only. -/
theorem modifySignal (h : Leads P n σ) (s : SignalId) (f : Signal → Signal)
    (hnext : ∀ m t, (f (σ.signals s)).next m = some t → P t)
    (hprevious : ∀ m t, (f (σ.signals s)).previous m = some t → P t) :
    Leads P n (σ.modifySignal s f) := by
  have hget : ∀ a, (σ.modifySignal s f).signals a =
      if a = s then f (σ.signals s) else σ.signals a := Function.update_apply _ _ _
  refine ⟨h.count, h.input, h.output, fun {m a t} ht ↦ ?_, fun {m a t} ht ↦ ?_⟩
  · rw [Space.next, hget] at ht
    split at ht
    · exact hnext m t ht
    · exact h.next ht
  · rw [Space.previous, hget] at ht
    split at ht
    · exact hprevious m t ht
    · exact h.previous ht

theorem attach (h : Leads P n σ) (s : SignalId) (m : MachineId) : Leads P n (σ.attach s m) :=
  h.modifySignal s _ (fun _ _ ht ↦ h.next ht) fun _ _ ht ↦ h.previous ht

theorem detach (h : Leads P n σ) (s : SignalId) (m : MachineId) : Leads P n (σ.detach s m) :=
  h.modifySignal s _ (fun _ _ ht ↦ h.next ht) fun _ _ ht ↦ h.previous ht

/-- Pointers of which one has been replaced. -/
private theorem known_update {pointers : MachineId → Option SignalId} {m a : MachineId}
    {v : Option SignalId} {t : SignalId}
    (hold : ∀ {m t}, pointers m = some t → P t) (hv : ∀ t, v = some t → P t)
    (ht : Function.update pointers m v a = some t) : P t := by
  by_cases ha : a = m
  · subst ha
    rw [Function.update_self] at ht
    exact hv t ht
  · rw [Function.update_of_ne ha] at ht
    exact hold ht

theorem setNext (h : Leads P n σ) (m : MachineId) (s : SignalId) {v : Option SignalId}
    (hv : ∀ t, v = some t → P t) : Leads P n (σ.setNext m s v) :=
  h.modifySignal s _ (fun _ _ ht ↦ known_update h.next hv ht) fun _ _ ht ↦ h.previous ht

theorem setPrevious (h : Leads P n σ) (m : MachineId) (s : SignalId) {v : Option SignalId}
    (hv : ∀ t, v = some t → P t) : Leads P n (σ.setPrevious m s v) :=
  h.modifySignal s _ (fun _ _ ht ↦ h.next ht) fun _ _ ht ↦ known_update h.previous hv ht

theorem recalculate (h : Leads P n σ) (hr : σ.recalculateRenderChain = some σ') : Leads P n σ' := by
  have hnetwork := network_recalculateRenderChain hr
  have hsignals : σ'.signals = σ.signals := by
    change σ'.network.signals = σ.network.signals
    rw [hnetwork]
  have hcount : σ'.signalCount = σ.signalCount := by
    change σ'.network.signalCount = σ.network.signalCount
    rw [hnetwork]
  have hget : ∀ {p : MachineId} {x : Machine}, σ'.machines[p]? = some x →
      ∃ y, σ.machines[p]? = some y ∧ y.input = x.input ∧ y.output = x.output := by
    intro p x hx
    rw [getElem?_of_network hnetwork p] at hx
    obtain ⟨y, hy, rfl⟩ := Option.map_eq_some_iff.mp hx
    exact ⟨y, hy, rfl, rfl⟩
  refine ⟨hcount.trans h.count, fun hx hs ↦ ?_, fun hx hs ↦ ?_, fun {m s t} ht ↦ ?_,
    fun {m s t} ht ↦ ?_⟩
  · obtain ⟨y, hy, hinput, -⟩ := hget hx
    exact h.input hy (hinput ▸ hs)
  · obtain ⟨y, hy, -, houtput⟩ := hget hx
    exact h.output hy (houtput ▸ hs)
  · rw [Space.next, hsignals] at ht
    exact h.next ht
  · rw [Space.previous, hsignals] at ht
    exact h.previous ht

/-! ### The lists -/

theorem link (h : Leads P n σ) {this s : SignalId} {m : MachineId} (hthis : P this) (hs : P s)
    (hl : σ.link this m s = .ok σ') : Leads P n σ' := by
  unfold Space.link at hl
  split at hl
  · cases hl
  dsimp only at hl
  have hfirst : Leads P n (((σ.setNext m this (some s)).setPrevious m s (some this)).setNext m s
      (σ.next m this)) :=
    ((h.setNext m this fun t ht ↦ Option.some.inj ht ▸ hs).setPrevious m s fun t ht ↦
      Option.some.inj ht ▸ hthis).setNext m s fun t ht ↦ h.next ht
  split at hl <;> obtain rfl := Except.ok.inj hl
  · exact hfirst
  · exact hfirst.setPrevious m _ fun t ht ↦ hfirst.next ht

theorem linkInput (h : Leads P n σ) {this : MachineId} {head : Option SignalId} {s : SignalId}
    {i : StdString} (hhead : ∀ k, head = some k → P k) (hs : P s)
    (hl : σ.linkInput this head s i = .ok σ') : Leads P n σ' := by
  cases head with
  | none =>
    obtain rfl := Except.ok.inj hl
    exact h.setInput this i fun t ht ↦ Option.some.inj ht ▸ hs
  | some k => exact h.link (hhead k rfl) hs hl

theorem unlink (h : Leads P n σ) {k s : SignalId} {m : MachineId} {head : Option SignalId}
    (hk : P k) (hu : σ.unlink k m s = some (.ok (head, σ'))) :
    Leads P n σ' ∧ ∀ t, head = some t → P t := by
  have hnext : Leads P n (σ.skipNext m s) := by
    unfold Space.skipNext
    split
    · exact h
    · exact h.setNext m _ fun t ht ↦ h.next ht
  have hboth : Leads P n ((σ.skipNext m s).skipPrevious m s) := by
    unfold Space.skipPrevious
    split
    · exact hnext
    · exact hnext.setPrevious m _ fun t ht ↦ hnext.previous ht
  unfold Space.unlink at hu
  split at hu
  · cases hu
  · cases hu
  · obtain ⟨rfl, rfl⟩ := Prod.mk.inj (Except.ok.inj (Option.some.inj hu))
    have hnull : ∀ t, none = some t → P t := fun t ht ↦ by cases ht
    refine ⟨(hboth.setNext m s hnull).setPrevious m s hnull, fun t ht ↦ ?_⟩
    split at ht
    · exact hboth.next ht
    · exact Option.some.inj ht ▸ hk

theorem countDown (h : Leads P n σ) (this m : MachineId) : Leads P n (σ.modifyMachine this fun x ↦
    { x with dependant := Space.countDown x.dependant m }) :=
  h.modifyOther this _ (fun _ ↦ rfl) fun _ ↦ rfl

theorem setTight (h : Leads P n σ) (p : MachineId)
    (f : Std.ExtTreeSet MachineId → Std.ExtTreeSet MachineId) :
    Leads P n (σ.modifyMachine p fun x ↦ { x with tightlyConnected := f x.tightlyConnected }) :=
  h.modifyOther p _ (fun _ ↦ rfl) fun _ ↦ rfl

/-! ### The operations -/

theorem internalAttachInput (h : Leads P n σ) {this : MachineId} {m : Option MachineId}
    {o i : StdString} {r : Except JException Unit}
    (hstep : σ.internalAttachInput this m o i = some (r, σ')) : Leads P n σ' := by
  rcases internalAttachInput_cases hstep with ⟨e, -, rfl⟩ | ⟨m₀, t, s, σ₁, hn, -, hl, hf⟩
  · exact h
  · obtain ⟨source, hsource, hs⟩ := hn.output
    have hlink := h.linkInput (fun k hk ↦ h.input hn.this_live hk) (h.output hsource hs) hl
    obtain ⟨-, σ₃, hrec, rfl⟩ := finishAttach_eq_some hf
    have hcount := (hlink.attach s this).modifyOther this (fun x ↦
      { x with dependant := countUp x.dependant m₀ }) (fun _ ↦ rfl) fun _ ↦ rfl
    exact (hcount.recalculate hrec).notify _

theorem internalDetachInput (h : Leads P n σ) {this : MachineId} {m : Option MachineId}
    {o i : StdString} {r : Except JException Unit}
    (hstep : σ.internalDetachInput this m o i = some (r, σ')) : Leads P n σ' := by
  rcases internalDetachInput_cases hstep with ⟨e, -, rfl⟩ | ⟨m₀, t, s, k, hn, hk, hr⟩
  · exact h
  have hdetach := h.detach s this
  rcases hr with ⟨e, -, -, rfl⟩ | ⟨head, σ₂, hu, hf⟩
  · exact hdetach
  · obtain ⟨hunlink, hhead⟩ := hdetach.unlink (h.input hn.this_live hk) hu
    have hlist := hunlink.setInput this i hhead
    obtain ⟨t, -, ⟨e, -, -, rfl⟩ | ⟨-, -, σ₃, hrec, rfl⟩⟩ := finishDetach_cases hf
    · exact hlist
    · exact ((hlist.countDown this m₀).recalculate hrec).notify _

theorem dropSignal (h : Leads P n σ) {this : MachineId} {i : StdString} {head s : SignalId}
    {r : Except JException (Option SignalId)} (hhead : P head)
    (hd : σ.dropSignal this i head s = some (r, σ')) :
    Leads P n σ' ∧ ∀ head', r = .ok head' → ∀ t, head' = some t → P t := by
  unfold Space.dropSignal at hd
  dsimp only at hd
  split at hd
  · cases hd
  · have hfirst := ((h.notify (.inputDetached (σ.signals s).originator this
      (σ.signals s).name i)).countDown this (σ.signals s).originator).detach s this
    split at hd
    · cases hd
    · obtain ⟨rfl, rfl⟩ := Prod.mk.inj (Option.some.inj hd)
      exact ⟨hfirst, fun _ hr ↦ by cases hr⟩
    · next hu =>
      obtain ⟨rfl, rfl⟩ := Prod.mk.inj (Option.some.inj hd)
      obtain ⟨hunlink, hhead'⟩ := hfirst.unlink hhead hu
      exact ⟨hunlink, fun _ hr ↦ Except.ok.inj hr ▸ hhead'⟩

theorem detachWhole {this : MachineId} {i : StdString} (fuel : Nat) {head : Option SignalId}
    {r : Except JException Unit} (h : Leads P n σ) (hhead : ∀ t, head = some t → P t)
    (hd : Space.detachWhole this i fuel head σ = some (r, σ')) : Leads P n σ' := by
  induction fuel generalizing head σ with
  | zero =>
    cases head with
    | none =>
      obtain ⟨-, rfl⟩ := Prod.mk.inj (Option.some.inj hd)
      exact h.setInput this i hhead
    | some a => cases hd
  | succ fuel ih =>
    cases head with
    | none =>
      obtain ⟨-, rfl⟩ := Prod.mk.inj (Option.some.inj hd)
      exact h.setInput this i hhead
    | some a =>
      rw [Space.detachWhole] at hd
      split at hd
      · cases hd
      · next e σ₁ hdrop =>
        obtain ⟨-, rfl⟩ := Prod.mk.inj (Option.some.inj hd)
        exact (h.dropSignal (hhead a rfl) hdrop).1
      · next head' σ₁ hdrop =>
        obtain ⟨h₁, hhead'⟩ := h.dropSignal (hhead a rfl) hdrop
        exact ih h₁ (hhead' _ rfl) hd

theorem detachFrom {this : MachineId} {i : StdString} {m : MachineId} (fuel : Nat)
    {head cur : Option SignalId} {r : Except JException Unit} (h : Leads P n σ)
    (hhead : ∀ t, head = some t → P t)
    (hd : Space.detachFrom this i m fuel head cur σ = some (r, σ')) : Leads P n σ' := by
  induction fuel generalizing head cur σ with
  | zero =>
    cases cur with
    | none =>
      obtain ⟨-, rfl⟩ := Prod.mk.inj (Option.some.inj hd)
      exact h.setInput this i hhead
    | some a => cases hd
  | succ fuel ih =>
    cases cur with
    | none =>
      obtain ⟨-, rfl⟩ := Prod.mk.inj (Option.some.inj hd)
      exact h.setInput this i hhead
    | some a =>
      simp only [Space.detachFrom] at hd
      split at hd
      · split at hd
        · cases hd
        · next k =>
          split at hd
          · cases hd
          · next e σ₁ hdrop =>
            obtain ⟨-, rfl⟩ := Prod.mk.inj (Option.some.inj hd)
            exact (h.dropSignal (hhead k rfl) hdrop).1
          · next head' σ₁ hdrop =>
            obtain ⟨h₁, hhead'⟩ := h.dropSignal (hhead k rfl) hdrop
            exact ih h₁ (hhead' _ rfl) hd
      · exact ih h hhead hd

theorem forEach {α : Type} {f : α → Space → Outcome Unit} (l : List α)
    (hf : ∀ a ∈ l, ∀ σ r σ', Leads P n σ → f a σ = some (r, σ') → Leads P n σ')
    {r : Except JException Unit} (h : Leads P n σ) (hd : Space.forEach f l σ = some (r, σ')) :
    Leads P n σ' := by
  induction l generalizing σ with
  | nil =>
    obtain ⟨-, rfl⟩ := Prod.mk.inj (Option.some.inj hd)
    exact h
  | cons a l ih =>
    obtain ⟨ha, hl⟩ := List.forall_mem_cons.mp hf
    rw [Space.forEach] at hd
    split at hd
    · next σ₁ hfirst => exact ih hl (ha σ _ σ₁ h hfirst) hd
    · exact ha σ _ _ h hd

theorem thenRecalculate {x : Outcome Unit} (hx : ∀ r τ, x = some (r, τ) → Leads P n τ)
    {r : Except JException Unit} (h : Space.thenRecalculate x = some (r, σ')) : Leads P n σ' := by
  unfold Space.thenRecalculate at h
  split at h
  · next τ =>
    split at h
    · cases h
    · next τ' hr =>
      obtain ⟨-, rfl⟩ := Prod.mk.inj (Option.some.inj h)
      exact (hx _ τ rfl).recalculate hr
  · exact hx r σ' h

theorem detachAllInputs (h : Leads P n σ) {this : MachineId} {m : Option MachineId}
    {r : Except JException Unit} (hd : σ.detachAllInputs this m = some (r, σ')) :
    Leads P n σ' := by
  unfold Space.detachAllInputs at hd
  split at hd
  · cases hd
  · next t ht =>
    refine thenRecalculate (fun r τ hτ ↦ forEach _ (fun e he σ r σ' hσ hdetach ↦ ?_) h hτ) hd
    have hmem := Std.ExtTreeMap.mem_toList_iff_getElem?_eq_some.mp he
    have hhead : ∀ t, some e.2 = some t → P t := fun s hs ↦
      Option.some.inj hs ▸ h.input ht hmem
    unfold detachInputList at hdetach
    cases m with
    | none => exact detachWhole _ hσ hhead hdetach
    | some m => exact detachFrom _ hσ hhead hdetach

theorem detachAllOutputs (h : Leads P n σ) {this : MachineId} {r : Except JException Unit}
    (hd : σ.detachAllOutputs this = some (r, σ')) : Leads P n σ' := by
  unfold Space.detachAllOutputs at hd
  split at hd
  · cases hd
  · exact thenRecalculate (fun r τ hτ ↦ forEach _ (fun s _ σ r σ' hσ hs ↦
      forEach _ (fun l _ σ r σ' hσ hl ↦ hσ.detachAllInputs hl) hσ hs) h hτ) hd

theorem detachAndDestroy (h : Leads P n σ) {m : MachineId} {r : Except JException Unit}
    (hd : σ.detachAndDestroy m = some (r, σ')) : Leads P n σ' := by
  unfold Space.detachAndDestroy at hd
  split at hd
  · next σ₁ hinputs => exact (h.detachAllInputs hinputs).detachAllOutputs hd
  · exact h.detachAllInputs hd

theorem destroyTight {destroy : MachineId → Space → Outcome Unit}
    (hdestroy : ∀ m σ r σ', Leads P n σ → destroy m σ = some (r, σ') → Leads P n σ')
    {this : MachineId} (fuel : Nat) {other : Option MachineId} {r : Except JException Unit}
    (h : Leads P n σ) (hd : Space.destroyTight destroy this fuel other σ = some (r, σ')) :
    Leads P n σ' := by
  induction fuel generalizing other σ with
  | zero =>
    cases other with
    | none =>
      obtain ⟨-, rfl⟩ := Prod.mk.inj (Option.some.inj hd)
      exact h
    | some m => cases hd
  | succ fuel ih =>
    cases other with
    | none =>
      obtain ⟨-, rfl⟩ := Prod.mk.inj (Option.some.inj hd)
      exact h
    | some m =>
      have hfirst := h.setTight m (·.erase this)
      rw [Space.destroyTight] at hd
      split at hd
      · split at hd
        · next τ hτ =>
          split at hd
          · cases hd
          · split at hd
            · exact ih (hdestroy _ _ _ _ hfirst hτ) hd
            · cases hd
        · exact hdestroy _ _ _ _ hfirst hd
      · cases hd

theorem internalDeregisterMachine (h : Leads P n σ) {m : MachineId} {r : Except JException Unit}
    (hd : σ.internalDeregisterMachine m = some (r, σ')) : Leads P n σ' := by
  have herase : ∀ {p : MachineId} {x : Machine}, (σ.machines.erase m)[p]? = some x →
      σ.machines[p]? = some x := by
    intro p x hx
    rw [Std.ExtTreeMap.getElem?_erase] at hx
    split at hx
    · cases hx
    · exact hx
  unfold Space.internalDeregisterMachine at hd
  split at hd
  · dsimp only at hd
    split at hd <;> obtain ⟨-, rfl⟩ := Prod.mk.inj (Option.some.inj hd) <;>
      exact ⟨h.count, fun hx ↦ h.input (herase hx), fun hx ↦ h.output (herase hx), h.next,
        h.previous⟩
  · obtain ⟨-, rfl⟩ := Prod.mk.inj (Option.some.inj hd)
    exact h

theorem disconnectAndDestroy (fuel : Nat) {m : MachineId} {r : Except JException Unit}
    (h : Leads P n σ) (hd : Space.disconnectAndDestroy fuel m σ = some (r, σ')) :
    Leads P n σ' := by
  induction fuel generalizing m σ σ' r with
  | zero => cases hd
  | succ fuel ih =>
    rw [Space.disconnectAndDestroy] at hd
    split at hd
    · next σ₁ h₁ =>
      have hdetach := h.detachAndDestroy h₁
      split at hd
      · cases hd
      · have hrec : ∀ m σ r σ', Leads P n σ →
            Space.disconnectAndDestroy fuel m σ = some (r, σ') → Leads P n σ' :=
          fun m σ r σ' hσ hd ↦ ih hσ hd
        split at hd
        · next σ₂ h₂ =>
          have htight := destroyTight hrec _ hdetach h₂
          exact thenRecalculate (fun _ _ hτ ↦ htight.internalDeregisterMachine hτ) hd
        · exact destroyTight hrec _ hdetach hd
    · exact h.detachAndDestroy hd

theorem tightlyConnect (h : Leads P n σ) {this : MachineId} {m : Option MachineId}
    {r : Except JException Unit} (hd : σ.tightlyConnect this m = some (r, σ')) :
    Leads P n σ' := by
  rcases tightlyConnect_cases hd with rfl | ⟨m₀, -, -, rfl⟩
  · exact h
  · exact (h.setTight this (·.insert m₀)).setTight m₀ (·.insert this)

theorem internalRegisterSink (h : Leads P n σ) {s : MachineId} {r : Except JException Unit}
    (hd : σ.internalRegisterSink s = some (r, σ')) : Leads P n σ' := by
  obtain ⟨-, rfl | rfl⟩ := registerSink_cases hd
  · exact h
  · exact ⟨h.count, h.input, h.output, h.next, h.previous⟩

/-! ### New signals -/

/-- A new signal is known to nobody. -/
theorem createSignal (h : Leads P n σ) {channels : Int} {m : MachineId} {name : StdString}
    {d : Dimension} {r : Except JException SignalId}
    (hc : σ.createSignal channels m name d = some (r, σ')) :
    (∃ e, r = .error e ∧ σ' = σ) ∨
      (r = .ok n ∧ σ'.machines = σ.machines ∧ Leads P (n + 1) σ') := by
  unfold Space.createSignal at hc
  split at hc
  · obtain ⟨rfl, rfl⟩ := Prod.mk.inj (Option.some.inj hc)
    have hget : ∀ a x, (Function.update σ.signals σ.signalCount x) a =
        if a = σ.signalCount then x else σ.signals a := fun a x ↦ Function.update_apply _ _ _ _
    refine .inr ⟨congrArg Except.ok h.count, rfl, congrArg (· + 1) h.count, h.input, h.output,
      fun {m s t} ht ↦ ?_, fun {m s t} ht ↦ ?_⟩
    · dsimp only [Space.next] at ht
      rw [hget] at ht
      split at ht
      · cases ht
      · exact h.next ht
    · dsimp only [Space.previous] at ht
      rw [hget] at ht
      split at ht
      · cases ht
      · exact h.previous ht
  · obtain ⟨rfl, rfl⟩ := Prod.mk.inj (Option.some.inj hc)
    exact .inl ⟨_, rfl, rfl⟩

theorem createOutputs {this : MachineId} (l : List (StdString × Description))
    {output : Std.ExtTreeMap StdString SignalId} {k : Nat}
    {r : Except JException (Std.ExtTreeMap StdString SignalId)} (h : Leads P n σ) (hk : k ≤ n)
    (houtput : ∀ (o : StdString) s, output[o]? = some s → k ≤ s ∧ s < n)
    (hc : createOutputs this l output σ = some (r, σ')) :
    ∃ n', n ≤ n' ∧ Leads P n' σ' ∧ ∀ out, r = .ok out → ∀ (o : StdString) s,
      out[o]? = some s → k ≤ s ∧ s < n' := by
  induction l generalizing output σ n with
  | nil =>
    obtain ⟨rfl, rfl⟩ := Prod.mk.inj (Option.some.inj hc)
    exact ⟨n, Nat.le_refl n, h, fun out ho ↦ Except.ok.inj ho ▸ houtput⟩
  | cons e l ih =>
    rw [Space.createOutputs] at hc
    split at hc
    · cases hc
    · next err σ₁ hs =>
      obtain ⟨rfl, rfl⟩ := Prod.mk.inj (Option.some.inj hc)
      obtain ⟨_, -, rfl⟩ | ⟨hr, -⟩ := h.createSignal hs
      · exact ⟨n, Nat.le_refl n, h, fun out ho ↦ by cases ho⟩
      · cases hr
    · next s₀ σ₁ hs =>
      obtain ⟨_, hr, -⟩ | ⟨hr, -, h₁⟩ := h.createSignal hs
      · cases hr
      · obtain rfl := Except.ok.inj hr
        obtain ⟨n', hn', h', hout⟩ := ih h₁ (by omega) (fun o s ho ↦ by
          rw [Std.ExtTreeMap.getElem?_insert] at ho
          split at ho
          · have := Option.some.inj ho
            omega
          · have := houtput o s ho
            omega) hc
        exact ⟨n', by omega, h', hout⟩

theorem setupMachine (h : Leads P n σ) {this : MachineId} {spec : MachineSpec}
    {garbage : Option MachineId} {r : Except JException Unit}
    (hd : σ.setupMachine this spec garbage = some (r, σ')) :
    ∃ n', n ≤ n' ∧ Leads (fun s ↦ P s ∨ n ≤ s ∧ s < n') n' σ' := by
  obtain ⟨-, ⟨e, -, hc⟩ | ⟨output, σ₁, x, -, hc, hx, rfl⟩⟩ := setupMachine_cases hd
  · obtain ⟨n', hn', h', -⟩ := h.createOutputs _ (Nat.le_refl n) (by simp) hc
    exact ⟨n', hn', h'.mono fun _ ↦ .inl⟩
  · obtain ⟨n', hn', h', hnew⟩ := h.createOutputs _ (Nat.le_refl n) (by simp) hc
    refine ⟨n', hn', h'.count, fun {p s i y} hy hs ↦ ?_, fun {p s o y} hy hs ↦ ?_,
      fun ht ↦ .inl (h'.next ht), fun ht ↦ .inl (h'.previous ht)⟩
    · dsimp only [Space.notify] at hy
      rw [Std.ExtTreeMap.getElem?_insert] at hy
      split at hy
      · obtain rfl := Option.some.inj hy
        simp [hx] at hs
      · exact .inl (h'.input hy hs)
    · dsimp only [Space.notify] at hy
      rw [Std.ExtTreeMap.getElem?_insert] at hy
      split at hy
      · obtain rfl := Option.some.inj hy
        rw [hx] at hs
        exact .inr (hnew output rfl o s hs)
      · exact .inl (h'.output hy hs)

/-- A step may create signals, and only pointers to these are new. -/
theorem step (h : Leads P n σ) {a : Action} {r : Except JException Unit}
    (hstep : σ.step a = some (r, σ')) :
    ∃ n', n ≤ n' ∧ Leads (fun s ↦ P s ∨ n ≤ s ∧ s < n') n' σ' := by
  have hkeeps : Leads P n σ' → ∃ n', n ≤ n' ∧ Leads (fun s ↦ P s ∨ n ≤ s ∧ s < n') n' σ' :=
    fun h' ↦ ⟨n, Nat.le_refl n, h'.mono fun _ ↦ .inl⟩
  cases a with
  | setupMachine this spec garbage => exact h.setupMachine hstep
  | registerSink s => exact hkeeps (h.internalRegisterSink hstep)
  | attachInput this m o i => exact hkeeps (h.internalAttachInput hstep)
  | detachInput this m o i => exact hkeeps (h.internalDetachInput hstep)
  | detachAllInputs this m => exact hkeeps (h.detachAllInputs hstep)
  | detachAllOutputs this => exact hkeeps (h.detachAllOutputs hstep)
  | tightlyConnect this m => exact hkeeps (h.tightlyConnect hstep)
  | disconnectAndDestroy m => exact hkeeps (disconnectAndDestroy _ h hstep)

end Leads
end Space
end Vuknob
