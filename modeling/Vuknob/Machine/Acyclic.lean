import Vuknob.Machine.Network

/-!
# The network stays acyclic

Every operation of `src_jni/machine.cc` but one takes `dependant` entries away or leaves
them alone; `internal_attach_input` adds one after its loop test. Nothing here asks that
the input lists or the counts are in order: the results hold in every run.
-/

namespace Vuknob
namespace Space

/-! ### Operations that add no edge -/

/-- `σ'` has the live machines and the sink of `σ`, and no further `dependant` entry. -/
structure Shrinks (σ σ' : Space) : Prop where
  live : ∀ p, p ∈ σ'.machines ↔ p ∈ σ.machines
  sink : σ'.sink = σ.sink
  edge : ∀ p q, q ∈ σ'.dependants p → q ∈ σ.dependants p

theorem Shrinks.refl (σ : Space) : Shrinks σ σ := ⟨fun _ ↦ Iff.rfl, rfl, fun _ _ h ↦ h⟩

theorem Shrinks.trans {σ τ υ : Space} (h₁ : Shrinks σ τ) (h₂ : Shrinks τ υ) : Shrinks σ υ :=
  ⟨fun p ↦ (h₂.live p).trans (h₁.live p), h₂.sink.trans h₁.sink,
    fun p q h ↦ h₁.edge p q (h₂.edge p q h)⟩

theorem Shrinks.acyclic {σ σ' : Space} (h : Shrinks σ σ') (hac : σ.Acyclic) : σ'.Acyclic :=
  Library.Acyclic.mono hac h.edge

theorem Shrinks.closed {σ σ' : Space} (h : Shrinks σ σ') (hc : σ.Closed) : σ'.Closed where
  dependant p m hm q hq := by
    obtain ⟨m', hm', hq'⟩ := mem_dependants.mp (h.edge p q (mem_dependants.mpr ⟨m, hm, hq⟩))
    exact (h.live q).mpr (hc.dependant p m' hm' q hq')
  sink s hs := (h.live s).mpr (hc.sink s (h.sink.symm.trans hs))

/-- Writes to signals and to the listeners. -/
theorem Shrinks.of_machines_eq {σ σ' : Space} (hm : σ'.machines = σ.machines)
    (hs : σ'.sink = σ.sink) : Shrinks σ σ' :=
  ⟨fun p ↦ by rw [hm], hs, fun p q h ↦ by unfold dependants at h ⊢; rwa [hm] at h⟩

/-- Writes to a machine that keep its `dependant` keys within what they were. -/
theorem shrinks_modifyMachine (σ : Space) (p : MachineId) (f : Machine → Machine)
    (hf : ∀ x q, q ∈ (f x).dependant → q ∈ x.dependant) : Shrinks σ (σ.modifyMachine p f) where
  live q := Std.ExtTreeMap.mem_modify
  sink := rfl
  edge a q hq := by
    obtain ⟨m, hm, hq⟩ := mem_dependants.mp hq
    rw [modifyMachine, Std.ExtTreeMap.getElem?_modify] at hm
    split at hm
    · next he =>
      obtain rfl : p = a := by simpa using he
      obtain ⟨x, hx, rfl⟩ := Option.map_eq_some_iff.mp hm
      exact mem_dependants.mpr ⟨x, hx, hf x q hq⟩
    · exact mem_dependants.mpr ⟨m, hm, hq⟩

theorem mem_countDown {counts : Std.ExtTreeMap MachineId Int} {k q : MachineId}
    (h : q ∈ countDown counts k) : q ∈ counts := by
  unfold countDown at h
  split at h
  · exact h
  · next c hc =>
    split at h
    · exact (Std.ExtTreeMap.mem_erase.mp h).2
    · rcases Std.ExtTreeMap.mem_insert.mp h with he | hq
      · obtain rfl : k = q := by simpa using he
        exact Std.ExtTreeMap.mem_iff_isSome_getElem?.mpr (by simp [hc])
      · exact hq

theorem shrinks_countDown (σ : Space) (this m : MachineId) :
    Shrinks σ (σ.modifyMachine this fun x ↦ { x with dependant := countDown x.dependant m }) :=
  shrinks_modifyMachine σ this _ fun _ _ h ↦ mem_countDown h

theorem shrinks_setInput (σ : Space) (this : MachineId) (name : StdString)
    (head : Option SignalId) : Shrinks σ (σ.setInput this name head) :=
  shrinks_modifyMachine σ this _ fun _ _ h ↦ h

theorem shrinks_recalculate {σ σ' : Space} (h : σ.recalculateRenderChain = some σ') :
    Shrinks σ σ' := by
  have hnet := network_recalculateRenderChain h
  refine ⟨mem_of_network hnet, ?_, fun p q hq ↦ dependants_of_network hnet ▸ hq⟩
  change σ'.network.sink = σ.network.sink
  rw [hnet]

theorem machines_unlinkFound (σ : Space) (head : SignalId) (m : MachineId) (s : SignalId) :
    (σ.unlinkFound head m s).2.machines = σ.machines ∧
      (σ.unlinkFound head m s).2.sink = σ.sink ∧
      (σ.unlinkFound head m s).2.notifications = σ.notifications := by
  have hnext : (σ.skipNext m s).machines = σ.machines ∧ (σ.skipNext m s).sink = σ.sink ∧
      (σ.skipNext m s).notifications = σ.notifications := by
    unfold skipNext
    split <;> exact ⟨rfl, rfl, rfl⟩
  have hprev : ∀ τ : Space, (τ.skipPrevious m s).machines = τ.machines ∧
      (τ.skipPrevious m s).sink = τ.sink ∧
      (τ.skipPrevious m s).notifications = τ.notifications := by
    intro τ
    unfold skipPrevious
    split <;> exact ⟨rfl, rfl, rfl⟩
  exact ⟨(hprev _).1.trans hnext.1, (hprev _).2.1.trans hnext.2.1, (hprev _).2.2.trans hnext.2.2⟩

theorem machines_unlink {σ σ' : Space} {this : SignalId} {m : MachineId} {ns : SignalId}
    {head : Option SignalId} (h : σ.unlink this m ns = some (.ok (head, σ'))) :
    σ'.machines = σ.machines ∧ σ'.sink = σ.sink ∧ σ'.notifications = σ.notifications := by
  unfold unlink at h
  split at h
  · cases h
  · cases h
  · simp only [Option.some.injEq, Except.ok.injEq] at h
    have hfound := machines_unlinkFound σ this m ns
    rwa [h] at hfound

theorem shrinks_notify (σ : Space) (n : Notification) : Shrinks σ (σ.notify n) :=
  .of_machines_eq rfl rfl

/-- A relation between spaces that holds for every write of `detach_all_inputs` and
`detach_all_outputs`, and so from their start to their end. -/
structure KeptByDetaching (R : Space → Space → Prop) : Prop where
  refl : ∀ σ, R σ σ
  trans : ∀ {σ τ υ}, R σ τ → R τ υ → R σ υ
  signals : ∀ {σ σ' : Space}, σ'.machines = σ.machines → σ'.sink = σ.sink →
    σ'.notifications = σ.notifications → R σ σ'
  detached : ∀ (σ : Space) (source destination : MachineId) (output input : StdString),
    R σ (σ.notify (.inputDetached source destination output input))
  countDown : ∀ (σ : Space) (this m : MachineId),
    R σ (σ.modifyMachine this fun x ↦ { x with dependant := countDown x.dependant m })
  setInput : ∀ (σ : Space) (this : MachineId) (name : StdString) (head : Option SignalId),
    R σ (σ.setInput this name head)
  recalculate : ∀ {σ σ' : Space}, σ.recalculateRenderChain = some σ' → R σ σ'

namespace KeptByDetaching

variable {R : Space → Space → Prop} (hR : KeptByDetaching R)

include hR

/-- What each call of a loop keeps, the whole loop keeps. -/
theorem forEach {α : Type} {f : α → Space → Outcome Unit}
    (hf : ∀ a σ r σ', f a σ = some (r, σ') → R σ σ') (l : List α) {σ σ' : Space}
    {r : Except JException Unit} (h : Space.forEach f l σ = some (r, σ')) : R σ σ' := by
  induction l generalizing σ with
  | nil =>
    obtain ⟨_, rfl⟩ := Prod.mk.inj (Option.some.inj h)
    exact hR.refl _
  | cons a l ih =>
    rw [Space.forEach] at h
    split at h
    · next σ₁ ha => exact hR.trans (hf a σ _ σ₁ ha) (ih h)
    · exact hf a σ _ _ h

theorem dropSignal {σ σ' : Space} {this : MachineId} {i : StdString}
    {head s : SignalId} {r : Except JException (Option SignalId)}
    (h : σ.dropSignal this i head s = some (r, σ')) : R σ σ' := by
  unfold Space.dropSignal at h
  dsimp only at h
  -- What precedes the search of the list.
  have hfirst : ∀ o name, R σ ((((σ.notify (.inputDetached o this name i)).modifyMachine this fun x ↦
      { x with dependant := Space.countDown x.dependant o })).detach s this) := fun o name ↦
    hR.trans (hR.trans (hR.detached σ o this name i) (hR.countDown _ this o)) (hR.signals rfl rfl rfl)
  split at h
  · cases h
  · split at h
    · cases h
    · obtain ⟨_, rfl⟩ := Prod.mk.inj (Option.some.inj h)
      exact hfirst _ _
    · next head' σ₄ hu =>
      obtain ⟨_, rfl⟩ := Prod.mk.inj (Option.some.inj h)
      obtain ⟨hm, hs, hn⟩ := machines_unlink hu
      exact hR.trans (hfirst _ _) (hR.signals hm hs hn)

theorem detachWhole {this : MachineId} {i : StdString} (fuel : Nat)
    {head : Option SignalId} {σ σ' : Space} {r : Except JException Unit}
    (h : Space.detachWhole this i fuel head σ = some (r, σ')) : R σ σ' := by
  induction fuel generalizing head σ with
  | zero =>
    cases head with
    | none =>
      obtain ⟨_, rfl⟩ := Prod.mk.inj (Option.some.inj h)
      exact hR.setInput σ this i none
    | some a => cases h
  | succ fuel ih =>
    cases head with
    | none =>
      obtain ⟨_, rfl⟩ := Prod.mk.inj (Option.some.inj h)
      exact hR.setInput σ this i none
    | some a =>
      rw [Space.detachWhole] at h
      split at h
      · cases h
      · next e σ₁ hd =>
        obtain ⟨_, rfl⟩ := Prod.mk.inj (Option.some.inj h)
        exact hR.dropSignal hd
      · next head' σ₁ hd => exact hR.trans (hR.dropSignal hd) (ih h)

theorem detachFrom {this : MachineId} {i : StdString} {m : MachineId} (fuel : Nat)
    {head cur : Option SignalId} {σ σ' : Space} {r : Except JException Unit}
    (h : Space.detachFrom this i m fuel head cur σ = some (r, σ')) : R σ σ' := by
  induction fuel generalizing head cur σ with
  | zero =>
    cases cur with
    | none =>
      obtain ⟨_, rfl⟩ := Prod.mk.inj (Option.some.inj h)
      exact hR.setInput σ this i head
    | some a => cases h
  | succ fuel ih =>
    cases cur with
    | none =>
      obtain ⟨_, rfl⟩ := Prod.mk.inj (Option.some.inj h)
      exact hR.setInput σ this i head
    | some a =>
      simp only [Space.detachFrom] at h
      split at h
      · split at h
        · cases h
        · split at h
          · cases h
          · next e σ₁ hd =>
            obtain ⟨_, rfl⟩ := Prod.mk.inj (Option.some.inj h)
            exact hR.dropSignal hd
          · next head' σ₁ hd => exact hR.trans (hR.dropSignal hd) (ih h)
      · exact ih h

theorem thenRecalculate {σ σ' : Space} {x : Outcome Unit}
    (hx : ∀ r τ, x = some (r, τ) → R σ τ) {r : Except JException Unit}
    (h : Space.thenRecalculate x = some (r, σ')) : R σ σ' := by
  unfold Space.thenRecalculate at h
  split at h
  · next τ =>
    split at h
    · cases h
    · next τ' hr =>
      obtain ⟨_, rfl⟩ := Prod.mk.inj (Option.some.inj h)
      exact hR.trans (hx _ τ rfl) (hR.recalculate hr)
  · exact hx r σ' h

theorem detachAllInputs {σ σ' : Space} {this : MachineId} {m : Option MachineId}
    {r : Except JException Unit} (h : σ.detachAllInputs this m = some (r, σ')) :
    R σ σ' := by
  unfold Space.detachAllInputs at h
  split at h
  · cases h
  · next t _ =>
    refine hR.thenRecalculate (fun r τ hτ ↦ hR.forEach ?_ _ hτ) h
    intro e σ r σ' he
    unfold detachInputList at he
    cases m with
    | none => exact hR.detachWhole _ he
    | some m => exact hR.detachFrom _ he

theorem detachAllOutputs {σ σ' : Space} {this : MachineId}
    {r : Except JException Unit} (h : σ.detachAllOutputs this = some (r, σ')) :
    R σ σ' := by
  unfold Space.detachAllOutputs at h
  split at h
  · cases h
  · refine hR.thenRecalculate (fun r τ hτ ↦ hR.forEach ?_ _ hτ) h
    intro s σ r σ' hs
    exact hR.forEach (fun l σ r σ' hl ↦ hR.detachAllInputs hl) _ hs

theorem detachAndDestroy {σ σ' : Space} {m : MachineId} {r : Except JException Unit}
    (h : σ.detachAndDestroy m = some (r, σ')) : R σ σ' := by
  unfold Space.detachAndDestroy at h
  split at h
  · next σ₁ hin => exact hR.trans (hR.detachAllInputs hin) (hR.detachAllOutputs h)
  · exact hR.detachAllInputs h

theorem internalDetachInput {σ σ' : Space} {this : MachineId} {m : Option MachineId}
    {o i : StdString} {r : Except JException Unit}
    (h : σ.internalDetachInput this m o i = some (r, σ')) : R σ σ' := by
  rcases internalDetachInput_cases h with ⟨e, _, rfl⟩ | ⟨m₀, t, s, k, _, _, hr⟩
  · exact hR.refl _
  have hdetach : R σ (σ.detach s this) := hR.signals rfl rfl rfl
  rcases hr with ⟨e, _, _, rfl⟩ | ⟨head, σ₂, hu, hf⟩
  · exact hdetach
  · obtain ⟨hm, hs, hn⟩ := machines_unlink hu
    have hlist : R σ (σ₂.setInput this i head) :=
      hR.trans (hR.trans hdetach (hR.signals hm hs hn)) (hR.setInput σ₂ this i head)
    obtain ⟨t, _, ⟨e, _, _, rfl⟩ | ⟨_, _, σ₃, hrec, rfl⟩⟩ := finishDetach_cases hf
    · exact hlist
    · exact hR.trans hlist (hR.trans (hR.trans (hR.countDown _ this m₀) (hR.recalculate hrec))
        (hR.detached σ₃ m₀ this o i))

end KeptByDetaching

theorem tightlyConnect_cases {σ σ' : Space} {this : MachineId} {m : Option MachineId}
    {r : Except JException Unit} (h : σ.tightlyConnect this m = some (r, σ')) :
    σ' = σ ∨ ∃ m₀, this ∈ σ.machines ∧ m₀ ∈ σ.machines ∧ σ' = (σ.modifyMachine this fun x ↦
        { x with tightlyConnected := x.tightlyConnected.insert m₀ }).modifyMachine m₀ fun x ↦
        { x with tightlyConnected := x.tightlyConnected.insert this } := by
  unfold tightlyConnect at h
  split at h
  · obtain ⟨_, rfl⟩ := Prod.mk.inj (Option.some.inj h)
    exact .inl rfl
  · next m₀ =>
    split at h
    · next t o ht ho =>
      split at h <;> obtain ⟨_, rfl⟩ := Prod.mk.inj (Option.some.inj h)
      · exact .inl rfl
      · refine .inr ⟨m₀, ?_, ?_, rfl⟩ <;> rw [Std.ExtTreeMap.mem_iff_isSome_getElem?]
        · simp [ht]
        · simp [ho]
    · cases h

/-- Such a relation that also holds for the other writes of `internal_disconnect_and_destroy`. -/
structure KeptByDestroying (R : Space → Space → Prop) : Prop extends KeptByDetaching R where
  setTight : ∀ (σ : Space) (p : MachineId)
    (f : Std.ExtTreeSet MachineId → Std.ExtTreeSet MachineId),
    R σ (σ.modifyMachine p fun x ↦ { x with tightlyConnected := f x.tightlyConnected })
  deregister : ∀ {σ σ' : Space} {m : MachineId} {r : Except JException Unit},
    σ.internalDeregisterMachine m = some (r, σ') → R σ σ'

namespace KeptByDestroying

variable {R : Space → Space → Prop} (hR : KeptByDestroying R)

include hR

theorem destroyTight {destroy : MachineId → Space → Outcome Unit}
    (hd : ∀ m σ r σ', destroy m σ = some (r, σ') → R σ σ') {this : MachineId}
    (fuel : Nat) {other : Option MachineId} {σ σ' : Space} {r : Except JException Unit}
    (h : Space.destroyTight destroy this fuel other σ = some (r, σ')) : R σ σ' := by
  induction fuel generalizing other σ with
  | zero =>
    cases other with
    | none =>
      obtain ⟨_, rfl⟩ := Prod.mk.inj (Option.some.inj h)
      exact hR.refl _
    | some m => cases h
  | succ fuel ih =>
    cases other with
    | none =>
      obtain ⟨_, rfl⟩ := Prod.mk.inj (Option.some.inj h)
      exact hR.refl _
    | some m =>
      have hfirst := hR.setTight σ m (·.erase this)
      rw [Space.destroyTight] at h
      split at h
      · split at h
        · next τ hτ =>
          split at h
          · cases h
          · split at h
            · exact hR.trans (hR.trans hfirst (hd _ _ _ _ hτ)) (ih h)
            · cases h
        · exact hR.trans hfirst (hd _ _ _ _ h)
      · cases h

theorem disconnectAndDestroy (fuel : Nat) {m : MachineId} {σ σ' : Space}
    {r : Except JException Unit} (h : Space.disconnectAndDestroy fuel m σ = some (r, σ')) :
    R σ σ' := by
  induction fuel generalizing m σ σ' r with
  | zero => cases h
  | succ fuel ih =>
    rw [Space.disconnectAndDestroy] at h
    split at h
    · next σ₁ h₁ =>
      have hdetach := hR.detachAndDestroy h₁
      split at h
      · cases h
      · have hd : ∀ m σ r σ', Space.disconnectAndDestroy fuel m σ = some (r, σ') → R σ σ' :=
          fun m σ r σ' h ↦ ih h
        split at h
        · next σ₂ h₂ =>
          exact hR.trans (hR.trans hdetach (hR.destroyTight hd _ h₂))
            (hR.thenRecalculate (fun _ _ ↦ hR.deregister) h)
        · exact hR.trans hdetach (hR.destroyTight hd _ h)
    · exact hR.detachAndDestroy h

theorem tightlyConnect {σ σ' : Space} {this : MachineId} {m : Option MachineId}
    {r : Except JException Unit} (h : σ.tightlyConnect this m = some (r, σ')) : R σ σ' := by
  rcases tightlyConnect_cases h with rfl | ⟨m₀, _, _, rfl⟩
  · exact hR.refl _
  · exact hR.trans (hR.setTight σ this (·.insert m₀)) (hR.setTight _ m₀ (·.insert this))

end KeptByDestroying

/-- No write of them adds an edge. -/
theorem kept_shrinks : KeptByDetaching Shrinks where
  refl := .refl
  trans := .trans
  signals hm hs _ := .of_machines_eq hm hs
  detached σ _ _ _ _ := shrinks_notify σ _
  countDown := shrinks_countDown
  setInput := shrinks_setInput
  recalculate := shrinks_recalculate

/-! ### The operation that adds an edge -/

theorem machines_link {σ σ' : Space} {this : SignalId} {m : MachineId} {ns : SignalId}
    (h : σ.link this m ns = .ok σ') : σ'.machines = σ.machines ∧ σ'.sink = σ.sink := by
  unfold link at h
  split at h
  · cases h
  · dsimp only at h
    split at h <;> obtain rfl := Except.ok.inj h <;> exact ⟨rfl, rfl⟩

theorem shrinks_linkInput {σ σ' : Space} {this : MachineId} {head : Option SignalId}
    {s : SignalId} {i : StdString} (h : σ.linkInput this head s i = .ok σ') : Shrinks σ σ' := by
  unfold linkInput at h
  cases head with
  | none =>
    obtain rfl := Except.ok.inj h
    exact shrinks_setInput σ this i (some s)
  | some k =>
    obtain ⟨hm, hs⟩ := machines_link h
    exact .of_machines_eq hm hs

/-- The state after a call of `internal_attach_input` that connected `m` to `this`: one
`dependant` entry may be new, and it closes no loop. -/
structure Connects (σ σ' : Space) (this m : MachineId) : Prop where
  live : ∀ p, p ∈ σ'.machines ↔ p ∈ σ.machines
  sink : σ'.sink = σ.sink
  edge : ∀ p q, q ∈ σ'.dependants p → q ∈ σ.dependants p ∨ (p = this ∧ q = m)
  source : m ∈ σ.machines
  no_loop : ¬ Library.Reach σ.dependants m this

private theorem dependants_countUp (σ : Space) (this m p q : MachineId)
    (hq : q ∈ (σ.modifyMachine this fun x ↦
      { x with dependant := countUp x.dependant m }).dependants p) :
    q ∈ σ.dependants p ∨ (p = this ∧ q = m) := by
  obtain ⟨x, hx, hq⟩ := mem_dependants.mp hq
  rw [modifyMachine, Std.ExtTreeMap.getElem?_modify] at hx
  split at hx
  · next he =>
    obtain rfl : this = p := by simpa using he
    obtain ⟨y, hy, rfl⟩ := Option.map_eq_some_iff.mp hx
    rcases Std.ExtTreeMap.mem_insert.mp hq with he | hq
    · exact .inr ⟨rfl, by simpa using Eq.symm (by simpa using he)⟩
    · exact .inl (mem_dependants.mpr ⟨y, hy, hq⟩)
  · exact .inl (mem_dependants.mpr ⟨x, hx, hq⟩)

theorem internalAttachInput_connects {σ σ' : Space} {this : MachineId} {m : Option MachineId}
    {o i : StdString} {r : Except JException Unit}
    (h : σ.internalAttachInput this m o i = some (r, σ')) :
    σ' = σ ∨ ∃ m₀, Connects σ σ' this m₀ := by
  rcases internalAttachInput_cases h with ⟨_, _, rfl⟩ | ⟨m₀, t, s, σ₁, hn, hf, hl, hr⟩
  · exact .inl rfl
  obtain ⟨_, σ₃, hrec, rfl⟩ := finishAttach_eq_some hr
  have hbefore : Shrinks σ (σ₁.attach s this) :=
    (shrinks_linkInput hl).trans (.of_machines_eq rfl rfl)
  have hafter := (shrinks_recalculate hrec).trans (shrinks_notify σ₃ (.inputAttached m₀ this o i))
  refine .inr ⟨m₀, ?_, ?_, ?_, ?_, ?_⟩
  · intro p
    rw [hafter.live, modifyMachine, Std.ExtTreeMap.mem_modify, hbefore.live]
  · exact hafter.sink.trans hbefore.sink
  · intro p q hq
    rcases dependants_countUp _ this m₀ p q (hafter.edge p q hq) with hq | hq
    · exact .inl (hbefore.edge p q hq)
    · exact .inr hq
  · obtain ⟨source, hs, _⟩ := hn.output
    exact Std.ExtTreeMap.mem_iff_isSome_getElem?.mpr (by simp [hs])
  · intro hreach
    have hfind : σ.findMachineInGraph m₀ this = some false := by
      unfold refuses at hf
      split at hf
      · cases hf
      · simp only [Bool.or_eq_false_iff, decide_eq_false_iff_not, not_not] at hf
        exact hf.2
    exact absurd ((findMachineInGraph_iff hfind).mpr hreach) (by simp)

theorem Connects.acyclic {σ σ' : Space} {this m : MachineId} (h : Connects σ σ' this m)
    (hac : σ.Acyclic) : σ'.Acyclic :=
  Library.Acyclic.of_new_edges hac h.edge h.no_loop

theorem Connects.closed {σ σ' : Space} {this m : MachineId} (h : Connects σ σ' this m)
    (hc : σ.Closed) : σ'.Closed where
  dependant p x hx q hq := by
    rw [h.live]
    rcases h.edge p q (mem_dependants.mpr ⟨x, hx, hq⟩) with hq | ⟨_, rfl⟩
    · obtain ⟨y, hy, hq⟩ := mem_dependants.mp hq
      exact hc.dependant p y hy q hq
    · exact h.source
  sink s hs := (h.live s).mpr (hc.sink s (h.sink.symm.trans hs))

/-! ### Machines that come and go -/

theorem machines_createOutputs {this : MachineId} (l : List (StdString × Description))
    (output : Std.ExtTreeMap StdString SignalId) {σ σ' : Space}
    {r : Except JException (Std.ExtTreeMap StdString SignalId)}
    (h : createOutputs this l output σ = some (r, σ')) :
    σ'.machines = σ.machines ∧ σ'.sink = σ.sink ∧ σ'.topRenderChain = σ.topRenderChain := by
  induction l generalizing output σ with
  | nil =>
    obtain ⟨_, rfl⟩ := Prod.mk.inj (Option.some.inj h)
    exact ⟨rfl, rfl, rfl⟩
  | cons e l ih =>
    simp only [createOutputs, createSignal] at h
    split at h
    · cases h
    · next err σ₁ hc =>
      obtain ⟨_, rfl⟩ := Prod.mk.inj (Option.some.inj h)
      split at hc <;> obtain ⟨_, rfl⟩ := Prod.mk.inj (Option.some.inj hc) <;> exact ⟨rfl, rfl, rfl⟩
    · next s σ₁ hc =>
      obtain ⟨hm, hs, ht⟩ := ih _ h
      rw [hm, hs, ht]
      split at hc <;> obtain ⟨_, rfl⟩ := Prod.mk.inj (Option.some.inj hc) <;> exact ⟨rfl, rfl, rfl⟩

/-- A call of `setup_machine` that comes back threw, or put a machine without `dependant`
entries at an unused address. -/
theorem setupMachine_cases {σ σ' : Space} {this : MachineId} {spec : MachineSpec}
    {garbage : Option MachineId} {r : Except JException Unit}
    (h : σ.setupMachine this spec garbage = some (r, σ')) :
    this ∉ σ.machines ∧
      ((∃ e, r = .error e ∧
          createOutputs this spec.outputDescriptor.toList ∅ σ = some (.error e, σ')) ∨
        ∃ output σ₁ x, r = .ok () ∧
          createOutputs this spec.outputDescriptor.toList ∅ σ = some (.ok output, σ₁) ∧
          x = ⟨if spec.baseNameIsName then spec.baseName
            else str "m#" ++ decimal σ₁.machines.size ++ str ":" ++ spec.baseName,
            spec.inputDescriptor, ∅, output, ∅, ∅, garbage⟩ ∧
          σ' = ({ σ₁ with machines := σ₁.machines.insert this x } : Space).notify
            (.machineRegistered this)) := by
  unfold setupMachine at h
  split at h
  · cases h
  · next hthis =>
    refine ⟨hthis, ?_⟩
    split at h
    · cases h
    · next e σ₁ hc =>
      obtain ⟨rfl, rfl⟩ := Prod.mk.inj (Option.some.inj h)
      exact .inl ⟨e, rfl, hc⟩
    · next output σ₁ hc =>
      obtain ⟨rfl, rfl⟩ := Prod.mk.inj (Option.some.inj h)
      exact .inr ⟨output, σ₁, _, rfl, hc, rfl, rfl⟩

private theorem setupMachine_edges {σ σ' : Space} {this : MachineId} {spec : MachineSpec}
    {garbage : Option MachineId} {r : Except JException Unit}
    (h : σ.setupMachine this spec garbage = some (r, σ')) :
    (∀ p q, q ∈ σ'.dependants p → q ∈ σ.dependants p) ∧
      (∀ p, p ∈ σ.machines → p ∈ σ'.machines) ∧ σ'.sink = σ.sink := by
  obtain ⟨_, ⟨e, _, hc⟩ | ⟨output, σ₁, x, _, hc, hx, rfl⟩⟩ := setupMachine_cases h
  · obtain ⟨hm, hs, _⟩ := machines_createOutputs _ _ hc
    have hsh : Shrinks σ σ' := .of_machines_eq hm hs
    exact ⟨hsh.edge, fun p hp ↦ (hsh.live p).mpr hp, hsh.sink⟩
  · obtain ⟨hm, hs, _⟩ := machines_createOutputs _ _ hc
    refine ⟨?_, ?_, hs⟩
    · intro p q hq
      obtain ⟨y, hy, hq⟩ := mem_dependants.mp hq
      simp only [notify, hm, Std.ExtTreeMap.getElem?_insert] at hy
      split at hy
      · obtain rfl := Option.some.inj hy
        rw [hx] at hq
        exact absurd hq Std.ExtTreeMap.not_mem_empty
      · exact mem_dependants.mpr ⟨y, hy, hq⟩
    · intro p hp
      simp only [notify, hm]
      exact Std.ExtTreeMap.mem_insert.mpr (.inr hp)

theorem registerSink_cases {σ σ' : Space} {s : MachineId} {r : Except JException Unit}
    (h : σ.internalRegisterSink s = some (r, σ')) :
    s ∈ σ.machines ∧ (σ' = σ ∨ σ' = { σ with sink := some s }) := by
  unfold internalRegisterSink at h
  split at h
  · next hs =>
    refine ⟨hs, ?_⟩
    split at h <;> obtain ⟨_, rfl⟩ := Prod.mk.inj (Option.some.inj h)
    · exact .inl rfl
    · exact .inr rfl
  · cases h

theorem shrinks_tightlyConnect {σ σ' : Space} {this : MachineId} {m : Option MachineId}
    {r : Except JException Unit} (h : σ.tightlyConnect this m = some (r, σ')) :
    Shrinks σ σ' := by
  rcases tightlyConnect_cases h with rfl | ⟨m₀, _, _, rfl⟩
  · exact .refl _
  · refine Shrinks.trans ?_ (shrinks_modifyMachine _ m₀ _ ?_)
    · exact shrinks_modifyMachine σ this (fun x ↦
        { x with tightlyConnected := x.tightlyConnected.insert m₀ }) fun _ _ h ↦ h
    · exact fun _ _ h ↦ h

/-- `σ'` has no `dependant` entry that `σ` lacks. -/
def FewerEdges (σ σ' : Space) : Prop := ∀ p q, q ∈ σ'.dependants p → q ∈ σ.dependants p

theorem fewerEdges_deregister {σ σ' : Space} {m : MachineId} {r : Except JException Unit}
    (h : σ.internalDeregisterMachine m = some (r, σ')) : FewerEdges σ σ' := by
  have herase : ∀ τ : Space, τ.machines = σ.machines.erase m → FewerEdges σ τ := by
    intro τ hτ p q hq
    obtain ⟨x, hx, hq⟩ := mem_dependants.mp hq
    rw [hτ, Std.ExtTreeMap.getElem?_erase] at hx
    split at hx
    · cases hx
    · exact mem_dependants.mpr ⟨x, hx, hq⟩
  unfold internalDeregisterMachine at h
  split at h
  · dsimp only at h
    split at h <;> obtain ⟨_, rfl⟩ := Prod.mk.inj (Option.some.inj h) <;> exact herase _ rfl
  · obtain ⟨_, rfl⟩ := Prod.mk.inj (Option.some.inj h)
    exact fun _ _ h ↦ h

/-- Neither cutting connections nor deregistering adds an edge. -/
theorem kept_fewerEdges : KeptByDestroying FewerEdges where
  refl _ _ _ h := h
  trans h₁ h₂ p q h := h₁ p q (h₂ p q h)
  signals hm hs hn := (kept_shrinks.signals hm hs hn).edge
  detached σ source destination output input :=
    (kept_shrinks.detached σ source destination output input).edge
  countDown σ this m := (kept_shrinks.countDown σ this m).edge
  setInput σ this name head := (kept_shrinks.setInput σ this name head).edge
  recalculate h := (kept_shrinks.recalculate h).edge
  setTight σ p f := (shrinks_modifyMachine σ p (fun x ↦
    { x with tightlyConnected := f x.tightlyConnected }) fun _ _ h ↦ h).edge
  deregister := fewerEdges_deregister

/-! ### Runs -/

/-- No operation closes a loop. -/
theorem step_acyclic {σ σ' : Space} {a : Action} {r : Except JException Unit}
    (hac : σ.Acyclic) (h : σ.step a = some (r, σ')) : σ'.Acyclic := by
  cases a with
  | setupMachine this spec garbage => exact Library.Acyclic.mono hac (setupMachine_edges h).1
  | registerSink s =>
    obtain ⟨_, rfl | rfl⟩ := registerSink_cases h
    · exact hac
    · exact hac
  | attachInput this m o i =>
    rcases internalAttachInput_connects h with rfl | ⟨m₀, hm⟩
    · exact hac
    · exact hm.acyclic hac
  | detachInput this m o i => exact (kept_shrinks.internalDetachInput h).acyclic hac
  | detachAllInputs this m => exact (kept_shrinks.detachAllInputs h).acyclic hac
  | detachAllOutputs this => exact (kept_shrinks.detachAllOutputs h).acyclic hac
  | tightlyConnect this m => exact (shrinks_tightlyConnect h).acyclic hac
  | disconnectAndDestroy m =>
    exact Library.Acyclic.mono hac (kept_fewerEdges.disconnectAndDestroy _ h)

/-- The action destroys machines. -/
def Action.destroys : Action → Bool
  | .disconnectAndDestroy _ => true
  | _ => false

/-- As long as no machine is destroyed no pointer dangles. -/
theorem step_closed {σ σ' : Space} {a : Action} {r : Except JException Unit}
    (hc : σ.Closed) (ha : a.destroys = false) (h : σ.step a = some (r, σ')) : σ'.Closed := by
  cases a with
  | setupMachine this spec garbage =>
    obtain ⟨hedge, hlive, hsink⟩ := setupMachine_edges h
    refine ⟨?_, fun s hs ↦ hlive s (hc.sink s (hsink.symm.trans hs))⟩
    intro p m hm q hq
    obtain ⟨x, hx, hq⟩ := mem_dependants.mp (hedge p q (mem_dependants.mpr ⟨m, hm, hq⟩))
    exact hlive q (hc.dependant p x hx q hq)
  | registerSink s =>
    obtain ⟨hs, rfl | rfl⟩ := registerSink_cases h
    · exact hc
    · exact ⟨hc.dependant, fun s' hs' ↦ Option.some.inj hs' ▸ hs⟩
  | attachInput this m o i =>
    rcases internalAttachInput_connects h with rfl | ⟨m₀, hm⟩
    · exact hc
    · exact hm.closed hc
  | detachInput this m o i => exact (kept_shrinks.internalDetachInput h).closed hc
  | detachAllInputs this m => exact (kept_shrinks.detachAllInputs h).closed hc
  | detachAllOutputs this => exact (kept_shrinks.detachAllOutputs h).closed hc
  | tightlyConnect this m => exact (shrinks_tightlyConnect h).closed hc
  | disconnectAndDestroy m => cases ha

theorem acyclic_empty : Space.empty.Acyclic := by
  intro p hp
  obtain ⟨q, hpq, _⟩ := Relation.TransGen.head'_iff.mp hp
  simp [Library.Edge, dependants, Space.empty] at hpq

theorem closed_empty : Space.empty.Closed :=
  ⟨fun p m hm ↦ by simp [Space.empty] at hm, fun s hs ↦ by cases hs⟩

/-- The network is acyclic after every run, whatever the calls. -/
theorem run_acyclic {ok : Space → Action → Except JException Unit → Prop} {σ : Space}
    {as : List Action} (h : Library.Run step ok Space.empty as σ) : σ.Acyclic :=
  h.invariant Acyclic (fun _ _ _ _ hac _ hs ↦ step_acyclic hac hs) acyclic_empty

/-- In a run that destroys no machine every pointer is to a live one. -/
theorem run_closed {σ : Space} {as : List Action}
    (h : Library.Run step (fun _ a _ ↦ a.destroys = false) Space.empty as σ) : σ.Closed :=
  h.invariant Closed (fun _ a _ _ hc ha hs ↦ step_closed (a := a) hc ha hs) closed_empty

/-- After every run the render chain puts each machine behind all it depends on exactly
when every two machines below the sink that share a source are nested: one of them leads
to the other, and leads to the source through a `dependant` entry in front of it. -/
theorem renderChain_topological_iff {σ : Space} {as : List Action}
    (h : Library.Run step (fun _ a _ ↦ a.destroys = false) Space.empty as σ) :
    ∃ σ' chain, σ.recalculateRenderChain = some σ' ∧ σ'.renderChain = some chain ∧
      (Library.Topological σ.dependants chain ↔
        ∀ s, σ.sink = some s → Library.Nested σ.dependants s) := by
  obtain ⟨σ', chain, hr, _, hchain, hnone, hsome⟩ := recalculateRenderChain_spec (run_closed h)
  refine ⟨σ', chain, hr, hchain, ?_⟩
  cases hs : σ.sink with
  | none =>
    rw [hnone hs]
    refine ⟨fun _ s hs ↦ absurd hs (by simp), fun _ newer x older he ↦ ?_⟩
    simp at he
  | some s =>
    obtain ⟨fuel, hv⟩ := hsome s hs
    rw [Library.visit_topological_iff (run_acyclic h) hv]
    exact ⟨fun hn s' hs' ↦ Option.some.inj hs' ▸ hn, fun hn ↦ hn s rfl⟩

/-- A machine with mono inputs and outputs of the given names. -/
def MachineSpec.mono (inputs outputs : List String) : MachineSpec :=
  let line : String → StdString × Description := fun n ↦ (str n, ⟨.zeroD, 1, true⟩)
  ⟨str "unit", false, .ofList (inputs.map line), .ofList (outputs.map line)⟩

/-- The sink mixes the machines at `dry` and `wet`, and `wet` processes `dry`. -/
def dryWet (sink dry wet : MachineId) : List Action :=
  [.setupMachine sink (.mono ["left", "right"] []) none,
    .setupMachine dry (.mono [] ["out"]) none,
    .setupMachine wet (.mono ["in"] ["out"]) none,
    .registerSink sink,
    .attachInput sink (some dry) (str "out") (str "left"),
    .attachInput sink (some wet) (str "out") (str "right"),
    .attachInput wet (some dry) (str "out") (str "in")]

/-- The result applies to a sink that mixes a dry and a wet signal. -/
theorem renderChain_topological_iff_dryWet :
    ∃ σ, Library.Run step (fun _ a _ ↦ a.destroys = false) Space.empty (dryWet 1 3 2) σ ∧
      ∃ σ' chain, σ.recalculateRenderChain = some σ' ∧ σ'.renderChain = some chain ∧
        (Library.Topological σ.dependants chain ↔
          ∀ s, σ.sink = some s → Library.Nested σ.dependants s) := by
  have hsome : (Library.runAll step (fun _ a _ ↦ !a.destroys) Space.empty
      (dryWet 1 3 2)).isSome = true := by decide +kernel
  obtain ⟨σ, hσ⟩ := Option.isSome_iff_exists.mp hsome
  have hrun := (Library.Run.of_runAll hσ).mono
    (o := fun _ a _ ↦ a.destroys = false) fun _ a _ h ↦ by simpa using h
  exact ⟨σ, hrun, renderChain_topological_iff hrun⟩

/-- Where the dry machine has the lower address, the wet one is executed before it. -/
theorem renderChain_not_topological :
    ¬ ∀ (as : List Action) (σ σ' : Space) (chain : List MachineId),
      Library.Run step (fun _ a r ↦ r.isOk = true ∧ a.destroys = false) Space.empty as σ →
      σ.recalculateRenderChain = some σ' → σ'.renderChain = some chain →
      Library.Topological σ.dependants chain := by
  intro hall
  have hchain : (Library.runAll step (fun _ a r ↦ r.isOk && !a.destroys) Space.empty
      (dryWet 1 2 3)).bind (fun σ ↦ σ.recalculateRenderChain.bind fun σ' ↦
        σ'.renderChain.map fun chain ↦ (chain, σ.dependants 3)) =
      some ([3, 2, 1], [2]) := by decide +kernel
  obtain ⟨σ, hσ, h⟩ := Option.bind_eq_some_iff.mp hchain
  obtain ⟨σ', hσ', h⟩ := Option.bind_eq_some_iff.mp h
  obtain ⟨chain, hc, h⟩ := Option.map_eq_some_iff.mp h
  obtain ⟨rfl, hdep⟩ := Prod.mk.inj h
  have hrun := (Library.Run.of_runAll hσ).mono
    (o := fun _ a r ↦ r.isOk = true ∧ a.destroys = false) fun _ a r h ↦ by simpa using h
  have htop := hall _ σ σ' _ hrun hσ' hc [] 3 [2, 1] rfl 2 (by simp [hdep])
  cases htop

end Space
end Vuknob
