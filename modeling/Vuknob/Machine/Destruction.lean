import Vuknob.Machine.Sound

/-!
# Destroying machines

`internal_disconnect_and_destroy` (`src_jni/machine.cc:1318–1341,1749–1775,1912–1920`) cuts
the connections of a machine, does the same to the machines that are tightly connected to
it, and deregisters it. Wherever it returns from a sound space, the machines that are gone
are those that the first one reaches through `tightly_connected`; the others keep
their connections with one another.
-/

namespace Vuknob
namespace Space

/-- The entries of `tightly_connected`, in the order of the set. -/
def tight (σ : Space) (p : MachineId) : List MachineId :=
  match σ.machines[p]? with
  | none => []
  | some m => m.tightlyConnected.toList

/-- The machines that the listeners were told to be gone. -/
def unregistered (σ : Space) : List MachineId :=
  σ.notifications.filterMap fun
    | .machineUnregistered m => some m
    | _ => none

theorem tight_eq {σ : Space} {p : MachineId} {t : Machine} (h : σ.machines[p]? = some t) :
    σ.tight p = t.tightlyConnected.toList := by
  simp [tight, h]

theorem mem_of_tight {σ : Space} {p q : MachineId} (h : q ∈ σ.tight p) : p ∈ σ.machines := by
  unfold tight at h
  split at h
  · simp at h
  · next t ht => exact mem_of_getElem? ht

theorem tight_sorted (σ : Space) (p : MachineId) : (σ.tight p).Pairwise (· < ·) := by
  unfold tight
  split
  · exact .nil
  · next t _ => exact t.tightlyConnected.ordered_toList.imp Nat.compare_eq_lt.mp

/-- Writes to other members of a machine. -/
theorem tight_modifyMachine (σ : Space) (p : MachineId) (f : Machine → Machine)
    (hf : ∀ x, (f x).tightlyConnected = x.tightlyConnected) :
    (σ.modifyMachine p f).tight = σ.tight := by
  funext q
  unfold tight
  rw [modifyMachine, Std.ExtTreeMap.getElem?_modify]
  by_cases hq : p = q
  · subst hq
    cases σ.machines[p]? <;> simp [hf]
  · simp [hq]

/-- Taking `m` out of the set of one machine. -/
theorem mem_tight_erase {σ : Space} {p m q r : MachineId} :
    r ∈ (σ.modifyMachine p fun x ↦
        { x with tightlyConnected := x.tightlyConnected.erase m }).tight q ↔
      r ∈ σ.tight q ∧ ¬ (q = p ∧ r = m) := by
  unfold tight
  rw [modifyMachine, Std.ExtTreeMap.getElem?_modify]
  by_cases hq : q = p
  · subst hq
    cases σ.machines[q]? <;> simp [and_comm, ne_comm]
  · simp [hq, Ne.symm hq]

/-- Neither tight connections nor deregistrations. -/
structure Settled (σ σ' : Space) : Prop where
  tight : σ'.tight = σ.tight
  told : σ'.unregistered = σ.unregistered

/-- Cutting connections touches neither of them. -/
theorem kept_settled : KeptByDetaching Settled where
  refl _ := ⟨rfl, rfl⟩
  trans h₁ h₂ := ⟨h₂.tight.trans h₁.tight, h₂.told.trans h₁.told⟩
  signals hm _ hn := ⟨by unfold Space.tight; rw [hm], by unfold Space.unregistered; rw [hn]⟩
  detached _ _ _ _ _ := ⟨rfl, by simp [unregistered, notify]⟩
  countDown σ this _ := ⟨tight_modifyMachine σ this _ fun _ ↦ rfl, rfl⟩
  setInput σ this _ _ := ⟨tight_modifyMachine σ this _ fun _ ↦ rfl, rfl⟩
  recalculate {σ σ'} h := by
    have hnet := network_recalculateRenderChain h
    constructor
    · funext p
      unfold Space.tight
      rw [getElem?_of_network hnet p]
      cases σ.machines[p]? <;> rfl
    · change σ'.network.unregistered = σ.network.unregistered
      rw [hnet]

/-! ### What destruction leaves -/

/-- From `σ` to `σ'` the machines `gone` were deregistered, in this order. What is left of the
lists is what joins the machines that are left, and these keep their tight connections. -/
structure Destroys (σ σ' : Space) (lists lists' : Lists) (conns' : Finset Connection)
    (gone : List MachineId) : Prop where
  sound : Sound σ' lists' conns'
  live : ∀ p, p ∈ σ'.machines ↔ p ∈ σ.machines ∧ p ∉ gone
  were : ∀ p ∈ gone, p ∈ σ.machines
  nodup : gone.Nodup
  mem : ∀ d i s, s ∈ lists' d i ↔ s ∈ lists d i ∧ d ∉ gone ∧ σ.wiring.origin s ∉ gone
  origin : σ'.wiring.origin = σ.wiring.origin
  tight : ∀ p, p ∉ gone → σ'.tight p = σ.tight p
  told : σ'.unregistered = σ.unregistered ++ gone

namespace Destroys

variable {σ τ υ : Space} {l₁ l₂ l₃ : Lists} {c₁ c₂ c₃ : Finset Connection}
  {gone gone' : List MachineId}

theorem refl (h : Sound σ l₁ c₁) : Destroys σ σ l₁ l₁ c₁ [] where
  sound := h
  live := by simp
  were := by simp
  nodup := .nil
  mem := by simp
  origin := rfl
  tight _ _ := rfl
  told := by simp

theorem trans (h : Destroys σ τ l₁ l₂ c₂ gone) (h' : Destroys τ υ l₂ l₃ c₃ gone') :
    Destroys σ υ l₁ l₃ c₃ (gone ++ gone') where
  sound := h'.sound
  live p := by
    rw [h'.live, h.live, List.mem_append, not_or, and_assoc]
  were p hp := by
    rcases List.mem_append.mp hp with hp | hp
    · exact h.were p hp
    · exact ((h.live p).mp (h'.were p hp)).1
  nodup := List.nodup_append'.mpr ⟨h.nodup, h'.nodup, fun p hp hp' ↦
    ((h.live p).mp (h'.were p hp')).2 hp⟩
  mem d i s := by
    rw [h'.mem, h.mem, h.origin]
    simp only [List.mem_append, not_or]
    tauto
  origin := h'.origin.trans h.origin
  tight p hp := by
    rw [List.mem_append, not_or] at hp
    rw [h'.tight p hp.2, h.tight p hp.1]
  told := by rw [h'.told, h.told, List.append_assoc]

/-- No tight connection is new. -/
theorem tight_sub (h : Destroys σ τ l₁ l₂ c₂ gone) {p q : MachineId} (hq : q ∈ τ.tight p) :
    q ∈ σ.tight p := by
  rwa [← h.tight p ((h.live p).mp (mem_of_tight hq)).2]

/-- The connections of a machine are cut before it goes. -/
theorem of_trimmed {m : MachineId} (h : Trimmed σ τ l₁ l₂ c₂ fun d _ s ↦
      d ≠ m ∧ σ.wiring.origin s ≠ m) (hs : Settled σ τ)
    (h' : Destroys τ υ l₂ l₃ c₃ gone) (hm : m ∈ gone) : Destroys σ υ l₁ l₃ c₃ gone where
  sound := h'.sound
  live p := by rw [h'.live, h.shrinks.live]
  were p hp := (h.shrinks.live p).mp (h'.were p hp)
  nodup := h'.nodup
  mem d i s := by
    rw [h'.mem, h.mem, h.origin]
    constructor
    · exact fun hs ↦ ⟨hs.1.1, hs.2⟩
    · refine fun hs ↦ ⟨⟨hs.1, ?_, ?_⟩, hs.2⟩
      · rintro rfl
        exact hs.2.1 hm
      · rintro rfl
        exact hs.2.2 hm
  origin := h'.origin.trans h.origin
  tight p hp := by rw [h'.tight p hp, hs.tight]
  told := by rw [h'.told, hs.told]

/-- The set of a machine that goes may have been written to before. -/
theorem of_setTight {p : MachineId} {f : Std.ExtTreeSet MachineId → Std.ExtTreeSet MachineId}
    (h : Destroys (σ.modifyMachine p fun x ↦
      { x with tightlyConnected := f x.tightlyConnected }) τ l₁ l₂ c₂ gone) (hp : p ∈ gone) :
    Destroys σ τ l₁ l₂ c₂ gone where
  sound := h.sound
  live q := by rw [h.live, modifyMachine, Std.ExtTreeMap.mem_modify]
  were q hq := Std.ExtTreeMap.mem_modify.mp (h.were q hq)
  nodup := h.nodup
  mem := h.mem
  origin := h.origin
  tight q hq := by
    rw [h.tight q hq]
    unfold Space.tight
    rw [modifyMachine, Std.ExtTreeMap.getElem?_modify, if_neg]
    intro he
    obtain rfl : p = q := by simpa using he
    exact hq hp
  told := h.told

end Destroys

/-! ### The operations -/

/-- Deregistering a machine without connections, and rebuilding the chain. -/
theorem deregister_sound {σ : Space} {lists : Lists} {conns : Finset Connection}
    (h : Sound σ lists conns) {m : MachineId} (hm : m ∈ σ.machines)
    (hfree : ∀ d i s, s ∈ lists d i → d ≠ m ∧ σ.wiring.origin s ≠ m) :
    ∃ σ', thenRecalculate (σ.internalDeregisterMachine m) = some (.ok (), σ') ∧
      Destroys σ σ' lists lists conns [m] := by
  -- The machine is gone from the map, and it is not the sink.
  obtain ⟨τ, hτ, hmach, hsig, hcount, hsink, htold⟩ : ∃ τ : Space,
      σ.internalDeregisterMachine m = some (.ok (), τ) ∧ τ.machines = σ.machines.erase m ∧
        τ.signals = σ.signals ∧ τ.signalCount = σ.signalCount ∧
        (∀ s, τ.sink = some s → s ∈ σ.machines ∧ s ≠ m) ∧
        τ.unregistered = σ.unregistered ++ [m] := by
    unfold internalDeregisterMachine
    rw [if_pos hm]
    dsimp only
    split
    · refine ⟨_, rfl, rfl, rfl, rfl, fun s hs ↦ ?_, by simp [unregistered, notify]⟩
      cases hs
    · next hsink =>
      refine ⟨_, rfl, rfl, rfl, rfl, fun s hs ↦ ⟨h.sink s hs, ?_⟩, by simp [unregistered, notify]⟩
      rintro rfl
      exact hsink hs
  have hget : ∀ d : MachineId, τ.machines[d]? = if d = m then none else σ.machines[d]? := by
    intro d
    rw [hmach, Std.ExtTreeMap.getElem?_erase]
    by_cases hd : d = m
    · simp [hd]
    · simp [hd, Ne.symm hd]
  have hmem : ∀ d, d ∈ τ.machines ↔ d ∈ σ.machines ∧ d ≠ m := by
    intro d
    rw [hmach, Std.ExtTreeMap.mem_erase, and_comm]
    simp [ne_comm]
  have hw : Wired τ.wiring lists conns := by
    have hrm := h.wired.removeMachine
      (fun i ↦ List.eq_nil_iff_forall_not_mem.mpr fun s hs ↦ (hfree m i s hs).1 rfl)
      (fun d i s hs ↦ (hfree d i s hs).2)
    have heq : τ.wiring = { σ.wiring with
        head := Function.update σ.wiring.head m fun _ ↦ none
        output := Function.update σ.wiring.output m fun _ ↦ none
        depend := Function.update σ.wiring.depend m fun _ ↦ none } := by
      ext1
      case next => funext d s; simp only [wiring, next, hsig]
      case previous => funext d s; simp only [wiring, previous, hsig]
      case attached => simp only [wiring, hsig]
      case origin => simp only [wiring, hsig]
      case name => simp only [wiring, hsig]
      case count => simp only [wiring, hcount]
      all_goals
        funext d i
        by_cases hd : d = m
        · subst hd
          simp [wiring, hget]
        · simp [wiring, hget, hd]
    rw [heq]
    exact hrm
  obtain ⟨σ', hrec, hsound⟩ := recalculate_sound hw fun s hs ↦ (hmem s).mpr (hsink s hs)
  have hsettled := kept_settled.recalculate hrec
  refine ⟨σ', by simp only [hτ, thenRecalculate, hrec, returns], hsound, fun p ↦ ?_, ?_, ?_, ?_, ?_,
    fun p hp ↦ ?_, ?_⟩
  · rw [(shrinks_recalculate hrec).live, hmem, List.mem_singleton]
  · exact fun p hp ↦ List.mem_singleton.mp hp ▸ hm
  · exact List.nodup_singleton m
  · intro d i s
    simp only [List.mem_singleton]
    exact ⟨fun hs ↦ ⟨hs, hfree d i s hs⟩, And.left⟩
  · rw [wiring_recalculate hrec]
    simp only [wiring, hsig]
  · rw [hsettled.tight]
    unfold tight
    rw [hget, if_neg (by simpa using hp)]
  · rw [hsettled.told, htold]

/-- In an ascending list the element after `o` is the first that is larger. -/
theorem find?_next {front rest : List MachineId} {o : MachineId}
    (h : (front ++ o :: rest).Pairwise (· < ·)) :
    (front ++ o :: rest).find? (o < ·) = rest.head? := by
  obtain ⟨_, hrest, hcross⟩ := List.pairwise_append.mp h
  rw [List.find?_append, List.find?_eq_none.mpr, Option.none_or]
  · cases rest with
    | nil => simp
    | cons a rest =>
      have ha : o < a := (List.pairwise_cons.mp hrest).1 a (by simp)
      simp [ha]
  · intro a ha
    have hao : a < o := hcross a ha o (by simp)
    simpa using Nat.le_of_lt hao

/-- Where `internal_disconnect_and_destroy(m)` returns, the machines that are gone are those that
`m` reached through `tightly_connected`. -/
def DestroysReached (destroy : MachineId → Space → Outcome Unit) : Prop :=
  ∀ m σ r σ' lists conns, Sound σ lists conns → destroy m σ = some (r, σ') →
    r = .ok () ∧ ∃ lists' conns' gone, Destroys σ σ' lists lists' conns' gone ∧
      ∀ p, p ∈ gone ↔ Library.Reach σ.tight m p

/-- One pass of the loop: `other` loses its pointer to `this` and is destroyed. -/
private theorem destroyOther_sound {destroy : MachineId → Space → Outcome Unit}
    (hd : DestroysReached destroy) {this other : MachineId} {σ σ' : Space} {lists : Lists}
    {conns : Finset Connection} {r : Except JException Unit} (h : Sound σ lists conns)
    (hstep : destroy other (σ.modifyMachine other fun x ↦
      { x with tightlyConnected := x.tightlyConnected.erase this }) = some (r, σ')) :
    r = .ok () ∧ ∃ lists' conns' gone, Destroys σ σ' lists lists' conns' gone ∧ other ∈ gone ∧
      (∀ p ∈ gone, Library.Reach σ.tight other p) ∧
      ∀ p ∈ gone, ∀ q ∈ σ.tight p, q ∈ gone ∨ q = this := by
  obtain ⟨hr, lists', conns', gone, hdes, hgone⟩ :=
    hd _ _ _ _ _ _ (sound_setTight h other (·.erase this)) hstep
  have hother : other ∈ gone := (hgone other).mpr .refl
  refine ⟨hr, lists', conns', gone, hdes.of_setTight (f := (·.erase this)) hother, hother,
    fun p hp ↦ ?_, ?_⟩
  · exact Library.reach_mono (fun a b hab ↦ (mem_tight_erase.mp hab).1) ((hgone p).mp hp)
  · intro p hp q hq
    by_cases hthis : q = this
    · exact .inr hthis
    · refine .inl ((hgone q).mpr (((hgone p).mp hp).tail (mem_tight_erase.mpr ⟨hq, ?_⟩)))
      exact fun hc ↦ hthis hc.2

/-- The loop over the tightly connected machines, at the first of `rest`. -/
theorem destroyTight_sound {destroy : MachineId → Space → Outcome Unit}
    (hd : DestroysReached destroy) {this : MachineId} (fuel : Nat) {other : Option MachineId}
    {σ σ' : Space} {lists : Lists} {conns : Finset Connection} {r : Except JException Unit}
    (front rest : List MachineId) (h : Sound σ lists conns) (hat : other = rest.head?)
    (hthis : this ∈ σ.machines) (ht : σ.tight this = front ++ rest)
    (hstep : destroyTight destroy this fuel other σ = some (r, σ')) :
    r = .ok () ∧ ∃ lists' conns' gone, Destroys σ σ' lists lists' conns' gone ∧
      this ∉ gone ∧ (∀ o ∈ rest, o ∈ gone) ∧
      (∀ p ∈ gone, ∃ o ∈ rest, Library.Reach σ.tight o p) ∧
      ∀ p ∈ gone, ∀ q ∈ σ.tight p, q ∈ gone ∨ q = this := by
  induction fuel generalizing other σ lists conns front rest with
  | zero =>
    cases rest with
    | nil =>
      subst hat
      obtain ⟨rfl, rfl⟩ := Prod.mk.inj (Option.some.inj hstep)
      exact ⟨rfl, lists, conns, [], .refl h, by simp, by simp, by simp, by simp⟩
    | cons o rest =>
      subst hat
      cases hstep
  | succ fuel ih =>
    cases rest with
    | nil =>
      subst hat
      obtain ⟨rfl, rfl⟩ := Prod.mk.inj (Option.some.inj hstep)
      exact ⟨rfl, lists, conns, [], .refl h, by simp, by simp, by simp, by simp⟩
    | cons o rest =>
      subst hat
      rw [List.head?_cons, destroyTight] at hstep
      split at hstep
      · split at hstep
        · next τ hτ =>
          obtain ⟨_, lists₁, conns₁, gone₁, hdes₁, ho, hreach₁, hclosed₁⟩ :=
            destroyOther_sound hd h hτ
          split at hstep
          · cases hstep
          · next t hlive =>
            split at hstep
            · -- `this` is still there, so its set is as it was.
              have hkept : this ∉ gone₁ := ((hdes₁.live this).mp (mem_of_getElem? hlive)).2
              have htight : τ.tight this = front ++ o :: rest := by rw [hdes₁.tight this hkept, ht]
              have hnext : t.tightlyConnected.toList.find? (o < ·) = rest.head? := by
                rw [← tight_eq hlive, htight]
                exact find?_next (htight ▸ tight_sorted τ this)
              obtain ⟨hr, lists₂, conns₂, gone₂, hdes₂, hkept₂, hall, hreach₂, hclosed₂⟩ :=
                ih (front ++ [o]) rest hdes₁.sound hnext (mem_of_getElem? hlive)
                  (by simp [htight]) hstep
              refine ⟨hr, lists₂, conns₂, gone₁ ++ gone₂, hdes₁.trans hdes₂,
                by simp [hkept, hkept₂], ?_, ?_, ?_⟩
              · intro a ha
                rcases List.mem_cons.mp ha with rfl | ha
                · exact List.mem_append_left _ ho
                · exact List.mem_append_right _ (hall a ha)
              · intro p hp
                rcases List.mem_append.mp hp with hp | hp
                · exact ⟨o, by simp, hreach₁ p hp⟩
                · obtain ⟨a, ha, hap⟩ := hreach₂ p hp
                  exact ⟨a, by simp [ha], Library.reach_mono (fun _ _ ↦ hdes₁.tight_sub) hap⟩
              · intro p hp q hq
                rw [List.mem_append]
                rcases List.mem_append.mp hp with hp | hp
                · exact (hclosed₁ p hp q hq).imp_left .inl
                · have hne : p ∉ gone₁ := ((hdes₁.live p).mp (hdes₂.were p hp)).2
                  rw [← hdes₁.tight p hne] at hq
                  exact (hclosed₂ p hp q hq).imp_left .inr
            · cases hstep
        · next hno =>
          obtain ⟨rfl, _⟩ := destroyOther_sound hd h hstep
          exact (hno σ' hstep).elim
      · cases hstep

/-- `internal_disconnect_and_destroy`, where it returns from a sound space. -/
theorem disconnectAndDestroy_sound (fuel : Nat) : DestroysReached (disconnectAndDestroy fuel) := by
  induction fuel with
  | zero =>
    intro m σ r σ' lists conns _ hstep
    cases hstep
  | succ fuel ih =>
    intro m σ r σ' lists conns h hstep
    have hm : m ∈ σ.machines := by
      rw [disconnectAndDestroy] at hstep
      split at hstep
      · next h₁ => exact mem_of_detachAndDestroy h₁
      · exact mem_of_detachAndDestroy hstep
    obtain ⟨σ₁, lists₁, conns₁, hrun₁, hsound₁, htrim₁⟩ := detachAndDestroy_sound h hm
    have hset₁ := kept_settled.detachAndDestroy hrun₁
    simp only [disconnectAndDestroy, hrun₁] at hstep
    split at hstep
    · cases hstep
    · next t ht =>
      split at hstep
      · next σ₂ h₂ =>
        obtain ⟨_, lists₂, conns₂, gone, hdes, hkept, hall, hreach, hclosed⟩ :=
          destroyTight_sound ih _ [] t.tightlyConnected.toList hsound₁ rfl (mem_of_getElem? ht)
            (tight_eq ht) h₂
        rw [← tight_eq ht, hset₁.tight] at hall hreach
        rw [hset₁.tight] at hclosed
        -- What is left now was left before, so `m` still has no connections.
        have hfree : ∀ d i s, s ∈ lists₂ d i → d ≠ m ∧ σ₂.wiring.origin s ≠ m := by
          intro d i s hs
          rw [hdes.origin, htrim₁.origin]
          exact ((htrim₁.mem d i s).mp ((hdes.mem d i s).mp hs).1).2
        obtain ⟨σ₃, hrun₃, hdes₃⟩ := deregister_sound hdes.sound
          ((hdes.live m).mpr ⟨mem_of_getElem? ht, hkept⟩) hfree
        rw [hrun₃] at hstep
        obtain ⟨rfl, rfl⟩ := Prod.mk.inj (Option.some.inj hstep)
        refine ⟨rfl, _, _, gone ++ [m], .of_trimmed htrim₁ hset₁ (hdes.trans hdes₃) (by simp), ?_⟩
        intro p
        constructor
        · intro hp
          rcases List.mem_append.mp hp with hp | hp
          · obtain ⟨o, ho, hop⟩ := hreach p hp
            exact .head ho hop
          · rw [List.mem_singleton.mp hp]
        · intro hp
          induction hp with
          | refl => simp
          | tail _ hab ihp =>
            rcases List.mem_append.mp ihp with ha | ha
            · rcases hclosed _ ha _ hab with hb | rfl
              · exact List.mem_append_left _ hb
              · simp
            · rw [List.mem_singleton.mp ha] at hab
              exact List.mem_append_left _ (hall _ hab)
      · next hno =>
        obtain ⟨rfl, _⟩ := destroyTight_sound ih _ [] t.tightlyConnected.toList hsound₁ rfl
          (mem_of_getElem? ht) (tight_eq ht) hstep
        exact (hno σ' hstep).elim

end Space
end Vuknob
