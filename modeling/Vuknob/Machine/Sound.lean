import Mathlib.Tactic.Ring
import Vuknob.Machine.Connections

/-!
# Sound spaces

A space is sound when its wiring is in order, its sink is live and its render chain is
unbroken. In a sound space `detach_all_inputs` and `detach_all_outputs`
(`src_jni/machine.cc:1433–1498`) return, and leave a sound space without the connections
they were asked to cut. What they cut is described by the lists that remain.
-/

namespace Vuknob
namespace Space

/-- The bookkeeping of the space is in order, for the given lists and connections. -/
structure Sound (σ : Space) (lists : Lists) (conns : Finset Connection) : Prop where
  wired : Wired σ.wiring lists conns
  sink : ∀ s, σ.sink = some s → s ∈ σ.machines
  chained : σ.Chained

/-- A machine with an output is live. -/
theorem mem_of_output {σ : Space} {m : MachineId} {o : StdString} {s : SignalId}
    (h : σ.wiring.output m o = some s) : m ∈ σ.machines := by
  obtain ⟨x, hx, _⟩ := Option.bind_eq_some_iff.mp h
  exact mem_of_getElem? hx

/-- A machine with a list is live. -/
theorem mem_of_list {σ : Space} {lists : Lists} {conns : Finset Connection}
    (h : Wired σ.wiring lists conns) {d : MachineId} {i : StdString} {s : SignalId}
    (hs : s ∈ lists d i) : d ∈ σ.machines := by
  cases hl : lists d i with
  | nil => simp [hl] at hs
  | cons k l =>
    have hk : σ.wiring.head d i = some k := by rw [h.head, hl]; rfl
    obtain ⟨x, hx, _⟩ := Option.bind_eq_some_iff.mp hk
    exact mem_of_getElem? hx

/-- Where the wiring is in order a `dependant` entry has a live source. -/
theorem closed_of_wired {σ : Space} {lists : Lists} {conns : Finset Connection}
    (h : Wired σ.wiring lists conns) (hs : ∀ s, σ.sink = some s → s ∈ σ.machines) :
    σ.Closed := by
  refine ⟨fun p x hx q hq ↦ ?_, hs⟩
  have hd : σ.wiring.depend p q ≠ none := by
    obtain ⟨c, hc⟩ := Option.isSome_iff_exists.mp (Std.ExtTreeMap.mem_iff_isSome_getElem?.mp hq)
    simp [wiring, hx, hc]
  rw [h.depend, Ne, Wiring.tally_eq_none_iff, Finset.card_eq_zero] at hd
  obtain ⟨c, hc⟩ := Finset.nonempty_iff_ne_empty.mpr hd
  obtain ⟨hmem, _, rfl⟩ := Finset.mem_filter.mp hc
  exact mem_of_output (h.source _ _ _ ((h.mem c.1 c.2.1 c.2.2).mp hmem))

theorem Sound.closed {σ : Space} {lists : Lists} {conns : Finset Connection}
    (h : Sound σ lists conns) : σ.Closed := closed_of_wired h.wired h.sink

/-! ### Cutting connections -/

/-- `lists'` describes what is left of `lists`, in the order it had, when all connections but
those to `keep` have been cut. -/
structure Trimmed (σ σ' : Space) (lists lists' : Lists) (conns' : Finset Connection)
    (keep : MachineId → StdString → SignalId → Prop) : Prop where
  wired : Wired σ'.wiring lists' conns'
  shrinks : Shrinks σ σ'
  mem : ∀ d i s, s ∈ lists' d i ↔ s ∈ lists d i ∧ keep d i s
  order : ∀ d i, (lists' d i).Sublist (lists d i)
  origin : σ'.wiring.origin = σ.wiring.origin

namespace Trimmed

variable {σ τ υ : Space} {l₁ l₂ l₃ : Lists} {c₂ c₃ : Finset Connection}
  {keep keep' : MachineId → StdString → SignalId → Prop}

theorem sub (h : Trimmed σ τ l₁ l₂ c₂ keep) (d : MachineId) (i : StdString) (s : SignalId)
    (hs : s ∈ l₂ d i) : s ∈ l₁ d i := ((h.mem d i s).mp hs).1

theorem trans (h : Trimmed σ τ l₁ l₂ c₂ keep) (h' : Trimmed τ υ l₂ l₃ c₃ keep') :
    Trimmed σ υ l₁ l₃ c₃ fun d i s ↦ keep d i s ∧ keep' d i s :=
  ⟨h'.wired, h.shrinks.trans h'.shrinks, fun d i s ↦ by rw [h'.mem, h.mem, and_assoc],
    fun d i ↦ (h'.order d i).trans (h.order d i), h'.origin.trans h.origin⟩

/-- What is kept matters only for signals on the lists. -/
theorem congr (h : Trimmed σ τ l₁ l₂ c₂ keep)
    (hkeep : ∀ d i s, s ∈ l₁ d i → (keep d i s ↔ keep' d i s)) : Trimmed σ τ l₁ l₂ c₂ keep' :=
  ⟨h.wired, h.shrinks, fun d i s ↦ (h.mem d i s).trans (and_congr_right (hkeep d i s)), h.order,
    h.origin⟩

/-- A list from which nothing was cut is as it was. -/
theorem eq_of_kept (h : Trimmed σ τ l₁ l₂ c₂ keep) {d : MachineId} {i : StdString}
    (hnodup : (l₁ d i).Nodup) (hkept : ∀ s ∈ l₁ d i, keep d i s) : l₂ d i = l₁ d i := by
  refine (h.order d i).eq_of_length_le (hnodup.subperm fun s hs ↦ ?_).length_le
  exact (h.mem d i s).mpr ⟨hs, hkept s hs⟩

end Trimmed

private theorem setHead_setHead (w : Wiring) (d : MachineId) (i : StdString)
    (a b : Option SignalId) : (w.setHead d i a).setHead d i b = w.setHead d i b := by
  simp [Wiring.setHead]

private theorem setHead_same {w : Wiring} {d : MachineId} {i : StdString} {a : Option SignalId}
    (h : w.head d i = a) : w.setHead d i a = w := by
  subst h
  simp [Wiring.setHead]

private theorem setHead_head (w : Wiring) (d : MachineId) (i : StdString)
    (a : Option SignalId) : (w.setHead d i a).head d i = a := by
  simp [Wiring.setHead]

/-- The four steps that take `s` off a list, with the head of the list held in a local
variable: once it is written back they amount to a disconnection. -/
theorem dropSignal_wired {σ : Space} {lists : Lists} {conns : Finset Connection}
    {this : MachineId} {i : StdString} {head s : SignalId} (hlive : this ∈ σ.machines)
    (h : Wired (σ.wiring.setHead this i (some head)) lists conns) (hs : s ∈ lists this i) :
    ∃ head' σ', σ.dropSignal this i head s = some (.ok head', σ') ∧
      σ'.wiring.setHead this i head' =
        (σ.wiring.setHead this i (some head)).disconnect this i s ∧
      σ'.wiring.origin = σ.wiring.origin := by
  obtain ⟨x, hx⟩ := Option.isSome_iff_exists.mp
    (Std.ExtTreeMap.mem_iff_isSome_getElem?.mp (mem_of_output (h.source this i s hs)))
  let σ₁ := σ.notify (.inputDetached (σ.signals s).originator this (σ.signals s).name i)
  let σ₃ := (σ₁.modifyMachine this fun x ↦
    { x with dependant := countDown x.dependant (σ.signals s).originator }).detach s this
  have hw₃ : σ₃.wiring = σ.wiring.recount this s Wiring.down := by
    change Space.wiring (detach _ s this) = _
    rw [wiring_detach, wiring_countDown (σ := σ₁) hlive]
    rfl
  have hloc : Library.locate (σ₃.nextPtr this) s σ₃.signalCount (some head) = some true := by
    rw [nextPtr_detach]
    have hl := (h.linked this i).isList
    rw [← h.head this i, setHead_head] at hl
    have hmem := Library.locate_eq s hl (h.length_le this i)
    rw [decide_eq_true hs] at hmem
    exact hmem
  obtain ⟨hw, hhead⟩ := wiring_unlinkFound σ₃ head this s
  have hdrop : σ.dropSignal this i head s =
      some (.ok (σ₃.unlinkFound head this s).1, (σ₃.unlinkFound head this s).2) := by
    have hu : σ₃.unlink head this s = some (.ok (σ₃.unlinkFound head this s)) := by
      unfold unlink
      rw [hloc]
    unfold dropSignal
    dsimp only
    have hx' : σ.machines[(σ.signals s).originator]? = some x := hx
    rw [hx']
    dsimp only
    rw [show (((σ.notify (.inputDetached (σ.signals s).originator this
      (σ.signals s).name i)).modifyMachine this fun x ↦ { x with
        dependant := countDown x.dependant (σ.signals s).originator }).detach s this) = σ₃
      from rfl, hu]
  refine ⟨_, _, hdrop, ?_, ?_⟩
  · have hnext : σ₃.next this s = σ.next this s :=
      congrFun (congrFun (congrArg Wiring.next hw₃) this) s
    have hhead' : (σ₃.unlinkFound head this s).1 =
        if (σ.wiring.setHead this i (some head)).head this i = some s
        then (σ.wiring.setHead this i (some head)).next this s
        else (σ.wiring.setHead this i (some head)).head this i := by
      rw [hhead, setHead_head, hnext]
      by_cases hsh : s = head
      · simp [hsh, Wiring.setHead, wiring]
      · simp [hsh, Ne.symm hsh]
    rw [disconnect_eq, ← hhead', hw, hw₃]
    change _ = (((σ.wiring.recount this s Wiring.down).unlink this s).setHead this i
      (some head)).setHead this i _
    rw [setHead_setHead]
  · rw [hw, hw₃]
    rfl

/-- At the end of a loop over a list its head is written back. -/
theorem Trimmed.setInput {σ : Space} {lists : Lists} {conns : Finset Connection}
    {keep : MachineId → StdString → SignalId → Prop} {this : MachineId} {i : StdString}
    {head : Option SignalId} (hlive : this ∈ σ.machines)
    (h : Wired (σ.wiring.setHead this i head) lists conns)
    (hkeep : ∀ d j s, s ∈ lists d j → keep d j s) :
    Trimmed σ (σ.setInput this i head) lists lists conns keep := by
  refine ⟨?_, shrinks_setInput σ this i head, fun d j s ↦ ?_, fun _ _ ↦ .refl _, ?_⟩
  · rw [wiring_setInput hlive]
    exact h
  · exact ⟨fun hs ↦ ⟨hs, hkeep d j s hs⟩, And.left⟩
  · rw [wiring_setInput hlive]
    rfl

/-- The loop of `detach_all_inputs(NULL)` over one list empties it. -/
theorem detachWhole_wired {this : MachineId} {i : StdString} (fuel : Nat)
    {head : Option SignalId} {σ : Space} {lists : Lists} {conns : Finset Connection}
    (hlive : this ∈ σ.machines) (h : Wired (σ.wiring.setHead this i head) lists conns)
    (hf : (lists this i).length ≤ fuel) :
    ∃ σ' lists' conns', detachWhole this i fuel head σ = some (.ok (), σ') ∧
      Trimmed σ σ' lists lists' conns' fun d j _ ↦ ¬ (d = this ∧ j = i) := by
  have hhead : head = (lists this i).head? := by
    rw [← h.head this i, setHead_head]
  induction fuel generalizing head σ lists conns with
  | zero =>
    have hnil : lists this i = [] := List.length_eq_zero_iff.mp (Nat.le_zero.mp hf)
    rw [hnil] at hhead
    subst hhead
    refine ⟨_, lists, conns, rfl, .setInput hlive h ?_⟩
    rintro d j s hs ⟨rfl, rfl⟩
    simp [hnil] at hs
  | succ fuel ih =>
    cases hl : lists this i with
    | nil =>
      rw [hl] at hhead
      subst hhead
      refine ⟨_, lists, conns, rfl, .setInput hlive h ?_⟩
      rintro d j s hs ⟨rfl, rfl⟩
      simp [hl] at hs
    | cons k l =>
      rw [hl] at hhead
      subst hhead
      have hk : k ∈ lists this i := by simp [hl]
      obtain ⟨head', σ₁, hdrop, hw, horigin⟩ := dropSignal_wired hlive h hk
      have hsh := kept_shrinks.dropSignal hdrop
      have herase : lists.disconnect this i k this i = l := by
        simp [Lists.disconnect, hl]
      have h₁ := hw ▸ h.disconnect hk
      obtain ⟨σ', lists', conns', hrun, htrim⟩ :=
        ih ((hsh.live this).mpr hlive) h₁
          (by rw [herase]; rw [hl] at hf; simpa using hf)
          (by rw [← h₁.head this i, setHead_head])
      refine ⟨σ', lists', conns', ?_, htrim.wired, hsh.trans htrim.shrinks, fun d j s ↦ ?_,
        fun d j ↦ (htrim.order d j).trans (lists.disconnect_sublist k), htrim.origin.trans horigin⟩
      · simp only [detachWhole, List.head?_cons, hdrop]
        exact hrun
      · rw [htrim.mem, Lists.mem_disconnect (h.nodup this i)]
        constructor
        · exact fun hs ↦ ⟨hs.1.1, hs.2⟩
        · exact fun hs ↦ ⟨⟨hs.1, fun hd ↦ hs.2 ⟨hd.1, hd.2.1⟩⟩, hs.2⟩

/-- The loop of `detach_all_inputs(m)` over one list takes off the signals of `m`. It is at
`cur`, the first signal of `rest`; the signals in front of it are not of `m`. -/
theorem detachFrom_wired {this : MachineId} {i : StdString} {m : MachineId} (fuel : Nat)
    {head cur : Option SignalId} {σ : Space} {lists : Lists} {conns : Finset Connection}
    (front rest : List SignalId) (hlive : this ∈ σ.machines)
    (h : Wired (σ.wiring.setHead this i head) lists conns)
    (hl : lists this i = front ++ rest) (hat : cur = rest.head?)
    (hfront : ∀ s ∈ front, σ.wiring.origin s ≠ m)
    (hf : rest.length + (lists this i).length ^ 2 ≤ fuel) :
    ∃ σ' lists' conns', detachFrom this i m fuel head cur σ = some (.ok (), σ') ∧
      Trimmed σ σ' lists lists' conns'
        fun d j s ↦ ¬ (d = this ∧ j = i ∧ σ.wiring.origin s = m) := by
  induction fuel generalizing head cur σ lists conns front rest with
  | zero =>
    have hnil : rest = [] := List.length_eq_zero_iff.mp (by omega)
    subst hnil hat
    refine ⟨_, lists, conns, rfl, .setInput hlive h ?_⟩
    rintro d j s hs ⟨rfl, rfl, ho⟩
    rw [hl, List.append_nil] at hs
    exact hfront s hs ho
  | succ fuel ih =>
    cases rest with
    | nil =>
      subst hat
      refine ⟨_, lists, conns, rfl, .setInput hlive h ?_⟩
      rintro d j s hs ⟨rfl, rfl, ho⟩
      rw [hl, List.append_nil] at hs
      exact hfront s hs ho
    | cons s rest =>
      subst hat
      have hs : s ∈ lists this i := by simp [hl]
      by_cases hm : (σ.signals s).originator = m
      · -- A signal of `m`: it is dropped, and the loop starts over on a shorter list.
        cases hh : head with
        | none =>
          have := h.head this i
          rw [setHead_head, hh, hl] at this
          simp at this
        | some k =>
          rw [hh] at h
          obtain ⟨head', σ₁, hdrop, hw, horigin⟩ := dropSignal_wired hlive h hs
          have hsh := kept_shrinks.dropSignal hdrop
          have h₁ := hw ▸ h.disconnect hs
          have hlen : (lists.disconnect this i s this i).length + 1 = (lists this i).length := by
            rw [Lists.disconnect, Lists.put_same, List.length_erase_of_mem hs]
            have := List.length_pos_of_mem hs
            omega
          obtain ⟨σ', lists', conns', hrun, htrim⟩ :=
            ih [] _ ((hsh.live this).mpr hlive) h₁ (List.nil_append _).symm
              (by rw [← h₁.head this i, setHead_head]) (by simp)
              (by
                rw [← hlen] at hf
                have hsq : ∀ n : Nat, (n + 1) ^ 2 = n ^ 2 + 2 * n + 1 := fun n ↦ by ring
                rw [hsq] at hf
                omega)
          refine ⟨σ', lists', conns', ?_, htrim.wired, hsh.trans htrim.shrinks, ?_,
            fun d j ↦ (htrim.order d j).trans (lists.disconnect_sublist s),
            htrim.origin.trans horigin⟩
          · simp only [detachFrom, List.head?_cons, hm, if_true, hdrop]
            exact hrun
          · intro d j a
            rw [htrim.mem, Lists.mem_disconnect (h.nodup this i), horigin]
            constructor
            · exact fun ha ↦ ⟨ha.1.1, ha.2⟩
            · refine fun ha ↦ ⟨⟨ha.1, ?_⟩, ha.2⟩
              rintro ⟨rfl, rfl, rfl⟩
              exact ha.2 ⟨rfl, rfl, hm⟩
      · -- Another signal: the loop goes on to the one behind it.
        have hnext : σ.getNext s this = rest.head? := by
          have hd := h.linked this i
          rw [hl] at hd
          exact hd.next_eq
        obtain ⟨σ', lists', conns', hrun, htrim⟩ :=
          ih (front ++ [s]) rest hlive h (by simp [hl]) hnext
            (by
              intro a ha
              rcases List.mem_append.mp ha with ha | ha
              · exact hfront a ha
              · rw [List.mem_singleton.mp ha]
                exact hm)
            (by simp only [List.length_cons] at hf; omega)
        refine ⟨σ', lists', conns', ?_, htrim⟩
        simp only [detachFrom, List.head?_cons, hm, if_false]
        exact hrun

/-- `detach_all_inputs(m)` leaves a signal alone: it is not of `m`, and `m` is not null. -/
def Spared (m : Option MachineId) (origin : SignalId → MachineId) (s : SignalId) : Prop :=
  ∃ p, m = some p ∧ origin s ≠ p

/-- One pass of the loop over the inputs. -/
theorem detachInputList_wired {this : MachineId} (m : Option MachineId)
    (e : StdString × SignalId) {σ : Space} {lists : Lists} {conns : Finset Connection}
    (hlive : this ∈ σ.machines) (h : Wired σ.wiring lists conns)
    (he : σ.wiring.head this e.1 = some e.2) :
    ∃ σ' lists' conns', detachInputList this m e σ = some (.ok (), σ') ∧
      Trimmed σ σ' lists lists' conns'
        fun d j s ↦ d = this → j = e.1 → Spared m σ.wiring.origin s := by
  have h' : Wired (σ.wiring.setHead this e.1 (some e.2)) lists conns := by
    rw [setHead_same he]
    exact h
  have hlen : (lists this e.1).length ≤ σ.signalCount := h.length_le this e.1
  unfold detachInputList
  cases m with
  | none =>
    obtain ⟨σ', lists', conns', hrun, htrim⟩ := detachWhole_wired σ.signalCount hlive h' hlen
    refine ⟨σ', lists', conns', hrun, htrim.congr fun d j s _ ↦ ?_⟩
    simp [Spared]
  | some p =>
    obtain ⟨σ', lists', conns', hrun, htrim⟩ :=
      detachFrom_wired (m := p) ((σ.signalCount + 1) ^ 2) [] (lists this e.1) hlive h' rfl
        (by rw [← h'.head this e.1, setHead_head]) (by simp)
        (by
          have hsq := Nat.pow_le_pow_left hlen 2
          have : (σ.signalCount + 1) ^ 2 = σ.signalCount ^ 2 + 2 * σ.signalCount + 1 := by ring
          omega)
    refine ⟨σ', lists', conns', hrun, htrim.congr fun d j s _ ↦ ?_⟩
    simp [Spared]

theorem Trimmed.refl {σ : Space} {lists : Lists} {conns : Finset Connection}
    (h : Wired σ.wiring lists conns) : Trimmed σ σ lists lists conns fun _ _ _ ↦ True :=
  ⟨h, .refl σ, fun _ _ _ ↦ (and_iff_left trivial).symm, fun _ _ ↦ .refl _, rfl⟩

/-- The loop over the inputs, for the entries it still has to meet. -/
private theorem forEach_detachInputList {this : MachineId} (m : Option MachineId)
    (l : List (StdString × SignalId)) {σ : Space} {lists : Lists} {conns : Finset Connection}
    (hlive : this ∈ σ.machines) (h : Wired σ.wiring lists conns)
    (hkeys : l.Pairwise fun a b ↦ a.1 ≠ b.1)
    (hheads : ∀ e ∈ l, σ.wiring.head this e.1 = some e.2) :
    ∃ σ' lists' conns', forEach (detachInputList this m) l σ = some (.ok (), σ') ∧
      Trimmed σ σ' lists lists' conns'
        fun d j s ↦ d = this → (∃ e ∈ l, j = e.1) → Spared m σ.wiring.origin s := by
  induction l generalizing σ lists conns with
  | nil => exact ⟨σ, lists, conns, rfl, (Trimmed.refl h).congr fun _ _ _ _ ↦ by simp⟩
  | cons e l ih =>
    obtain ⟨hfirst, hrest⟩ := List.pairwise_cons.mp hkeys
    obtain ⟨σ₁, lists₁, conns₁, hrun₁, htrim₁⟩ :=
      detachInputList_wired m e hlive h (hheads e (by simp))
    -- The pass does not touch the entries that follow.
    have hkept : ∀ f ∈ l, σ₁.wiring.head this f.1 = some f.2 := fun f hf ↦ by
      rw [htrim₁.wired.head, htrim₁.eq_of_kept (h.nodup this f.1), ← h.head]
      · exact hheads f (by simp [hf])
      · exact fun s _ _ hj ↦ (hfirst f hf hj.symm).elim
    obtain ⟨σ', lists', conns', hrun, htrim⟩ :=
      ih ((htrim₁.shrinks.live this).mpr hlive) htrim₁.wired hrest hkept
    refine ⟨σ', lists', conns', ?_, (htrim₁.trans htrim).congr fun d j s _ ↦ ?_⟩
    · simp only [forEach, hrun₁]
      exact hrun
    · rw [htrim₁.origin]
      constructor
      · rintro ⟨h₁, h₂⟩ rfl ⟨f, hf, rfl⟩
        rcases List.mem_cons.mp hf with rfl | hf
        · exact h₁ rfl rfl
        · exact h₂ rfl ⟨f, hf, rfl⟩
      · intro hk
        refine ⟨fun hd hj ↦ hk hd ⟨e, by simp, hj⟩, ?_⟩
        rintro hd ⟨f, hf, hj⟩
        exact hk hd ⟨f, by simp [hf], hj⟩

/-- Rebuilding the chain of a space in order gives a sound space. -/
theorem recalculate_sound {σ : Space} {lists : Lists} {conns : Finset Connection}
    (h : Wired σ.wiring lists conns) (hs : ∀ s, σ.sink = some s → s ∈ σ.machines) :
    ∃ σ', σ.recalculateRenderChain = some σ' ∧ Sound σ' lists conns := by
  obtain ⟨σ', chain, hr, _⟩ := recalculateRenderChain_spec (closed_of_wired h hs)
  have hsh := shrinks_recalculate hr
  refine ⟨σ', hr, wiring_recalculate hr ▸ h, ?_, chained_recalculateRenderChain hr⟩
  exact fun s hs' ↦ (hsh.live s).mpr (hs s (hsh.sink.symm.trans hs'))

/-- Rebuilding the chain after connections have been cut. -/
theorem Trimmed.recalculate {σ σ₁ : Space} {lists lists₁ : Lists} {conns₁ : Finset Connection}
    {keep : MachineId → StdString → SignalId → Prop}
    (h : Trimmed σ σ₁ lists lists₁ conns₁ keep) (hs : ∀ s, σ.sink = some s → s ∈ σ.machines) :
    ∃ σ', thenRecalculate (some (.ok (), σ₁)) = some (.ok (), σ') ∧ Sound σ' lists₁ conns₁ ∧
      Trimmed σ σ' lists lists₁ conns₁ keep := by
  obtain ⟨σ', hrec, hsound⟩ := recalculate_sound h.wired fun s hs' ↦
    (h.shrinks.live s).mpr (hs s (h.shrinks.sink.symm.trans hs'))
  refine ⟨σ', ?_, hsound, hsound.wired, h.shrinks.trans (shrinks_recalculate hrec), h.mem,
    h.order, ?_⟩
  · simp only [thenRecalculate, hrec, returns]
  · rw [wiring_recalculate hrec]
    exact h.origin

/-- `detach_all_inputs` returns, and cuts the connections to the machine that it does not
spare. -/
theorem detachAllInputs_sound {σ : Space} {lists : Lists} {conns : Finset Connection}
    (h : Sound σ lists conns) {this : MachineId} (hlive : this ∈ σ.machines)
    (m : Option MachineId) :
    ∃ σ' lists' conns', σ.detachAllInputs this m = some (.ok (), σ') ∧
      Sound σ' lists' conns' ∧
      Trimmed σ σ' lists lists' conns' fun d _ s ↦ d = this → Spared m σ.wiring.origin s := by
  obtain ⟨t, ht⟩ := Option.isSome_iff_exists.mp (Std.ExtTreeMap.mem_iff_isSome_getElem?.mp hlive)
  have hmem : ∀ e : StdString × SignalId, e ∈ t.input.toList ↔ t.input[e.1]? = some e.2 :=
    fun e ↦ Std.ExtTreeMap.mem_toList_iff_getElem?_eq_some
  have hkeys : t.input.toList.Pairwise fun a b ↦ a.1 ≠ b.1 := by
    refine t.input.distinct_keys_toList.imp fun {a b} hab heq ↦ hab ?_
    rw [heq]
    exact Std.ReflCmp.compare_self
  obtain ⟨σ₁, lists₁, conns₁, hrun, htrim⟩ :=
    forEach_detachInputList m t.input.toList hlive h.wired hkeys fun e he ↦ by
      rw [head_eq ht]
      exact (hmem e).mp he
  obtain ⟨σ', hrec, hsound, htrim'⟩ := htrim.recalculate h.sink
  refine ⟨σ', lists₁, conns₁, ?_, hsound, htrim'.congr fun d j s hs ↦ ?_⟩
  · simp only [detachAllInputs, ht, hrun, hrec]
  · refine ⟨fun hk hd ↦ hk hd ?_, fun hk hd _ ↦ hk hd⟩
    -- An input with a signal on its list has an entry in the map.
    subst hd
    cases hl : lists d j with
    | nil => simp [hl] at hs
    | cons k l =>
      have hk : t.input[j]? = some k := by
        rw [← head_eq ht, h.wired.head, hl]
        rfl
      exact ⟨(j, k), (hmem (j, k)).mpr hk, rfl⟩

/-- The inner loop of `detach_all_outputs`: the listed machines lose what comes from `m`. -/
private theorem forEach_detachAllInputs (m : MachineId) (l : List MachineId) {σ : Space}
    {lists : Lists} {conns : Finset Connection} (h : Sound σ lists conns)
    (hlive : ∀ d ∈ l, d ∈ σ.machines) :
    ∃ σ' lists' conns',
      forEach (fun d σ ↦ σ.detachAllInputs d (some m)) l σ = some (.ok (), σ') ∧
      Sound σ' lists' conns' ∧
      Trimmed σ σ' lists lists' conns' fun d _ s ↦ d ∈ l → σ.wiring.origin s ≠ m := by
  induction l generalizing σ lists conns with
  | nil => exact ⟨σ, lists, conns, rfl, h, (Trimmed.refl h.wired).congr fun _ _ _ _ ↦ by simp⟩
  | cons d l ih =>
    obtain ⟨σ₁, lists₁, conns₁, hrun₁, hsound₁, htrim₁⟩ :=
      detachAllInputs_sound h (hlive d (by simp)) (some m)
    obtain ⟨σ', lists', conns', hrun, hsound, htrim⟩ := ih hsound₁ fun e he ↦
      (htrim₁.shrinks.live e).mpr (hlive e (by simp [he]))
    refine ⟨σ', lists', conns', ?_, hsound, (htrim₁.trans htrim).congr fun e j s _ ↦ ?_⟩
    · simp only [forEach, hrun₁]
      exact hrun
    · rw [htrim₁.origin]
      simp only [Spared, Option.some.injEq, exists_eq_left', List.mem_cons, or_imp]

/-- The outer loop of `detach_all_outputs`, for outputs `l` of `m`. -/
private theorem forEach_attached (m : MachineId) (l : List SignalId) {σ : Space}
    {lists : Lists} {conns : Finset Connection} (h : Sound σ lists conns)
    (hl : ∀ s ∈ l, σ.wiring.origin s = m) :
    ∃ σ' lists' conns', forEach (fun s σ ↦
        forEach (fun d σ ↦ σ.detachAllInputs d (some m)) (σ.getAttachedMachines s) σ) l σ =
        some (.ok (), σ') ∧
      Sound σ' lists' conns' ∧
      Trimmed σ σ' lists lists' conns' fun d _ s ↦
        (∃ a ∈ l, ∃ i, a ∈ lists d i) → σ.wiring.origin s ≠ m := by
  induction l generalizing σ lists conns with
  | nil => exact ⟨σ, lists, conns, rfl, h, (Trimmed.refl h.wired).congr fun _ _ _ _ ↦ by simp⟩
  | cons s l ih =>
    -- The attached machines of `s` are those that have it on a list.
    have hatt : ∀ d, d ∈ σ.getAttachedMachines s ↔ ∃ i, s ∈ lists d i := by
      intro d
      rw [getAttachedMachines, Std.ExtTreeMap.mem_keys, Std.ExtTreeMap.mem_iff_isSome_getElem?,
        Option.isSome_iff_ne_none]
      change σ.wiring.attached s d ≠ none ↔ _
      constructor
      · intro hne
        rw [h.wired.attached, Ne, Wiring.tally_eq_none_iff, Finset.card_eq_zero] at hne
        obtain ⟨⟨e, i, a⟩, hc⟩ := Finset.nonempty_iff_ne_empty.mpr hne
        obtain ⟨hmem, rfl, rfl⟩ := Finset.mem_filter.mp hc
        exact ⟨i, (h.wired.mem _ _ _).mp hmem⟩
      · rintro ⟨i, hi⟩ hnone
        exact h.wired.not_mem_of_attached hnone i hi
    obtain ⟨σ₁, lists₁, conns₁, hrun₁, hsound₁, htrim₁⟩ :=
      forEach_detachAllInputs m (σ.getAttachedMachines s) h fun d hd ↦ by
        obtain ⟨i, hi⟩ := (hatt d).mp hd
        exact mem_of_list h.wired hi
    obtain ⟨σ', lists', conns', hrun, hsound, htrim⟩ := ih hsound₁ fun a ha ↦ by
      rw [htrim₁.origin]
      exact hl a (by simp [ha])
    refine ⟨σ', lists', conns', ?_, hsound, (htrim₁.trans htrim).congr fun d j a ha ↦ ?_⟩
    · simp only [forEach, hrun₁]
      exact hrun
    · rw [htrim₁.origin, hatt d]
      constructor
      · rintro ⟨h₁, h₂⟩ ⟨b, hb, i, hi⟩
        rcases List.mem_cons.mp hb with rfl | hb
        · exact h₁ ⟨i, hi⟩
        · by_cases hd : ∃ i, s ∈ lists d i
          · exact h₁ hd
          · exact h₂ ⟨b, hb, i, (htrim₁.mem d i b).mpr ⟨hi, fun hc ↦ (hd ((hatt d).mp hc)).elim⟩⟩
      · intro hk
        constructor
        · rintro ⟨i, hi⟩
          exact hk ⟨s, by simp, i, hi⟩
        · rintro ⟨b, hb, i, hi⟩
          exact hk ⟨b, by simp [hb], i, htrim₁.sub d i b hi⟩

/-- `detach_all_outputs` returns and cuts the connections from the machine, and no others. -/
theorem detachAllOutputs_sound {σ : Space} {lists : Lists} {conns : Finset Connection}
    (h : Sound σ lists conns) {this : MachineId} (hlive : this ∈ σ.machines) :
    ∃ σ' lists' conns', σ.detachAllOutputs this = some (.ok (), σ') ∧
      Sound σ' lists' conns' ∧
      Trimmed σ σ' lists lists' conns' fun _ _ s ↦ σ.wiring.origin s ≠ this := by
  obtain ⟨t, ht⟩ := Option.isSome_iff_exists.mp (Std.ExtTreeMap.mem_iff_isSome_getElem?.mp hlive)
  have hout : ∀ s, s ∈ t.output.toList.map Prod.snd ↔ ∃ o, σ.wiring.output this o = some s := by
    intro s
    simp [wiring, ht, Std.ExtTreeMap.mem_toList_iff_getElem?_eq_some]
  obtain ⟨σ₁, lists₁, conns₁, hrun₁, hsound₁, htrim₁⟩ :=
    forEach_attached this (t.output.toList.map Prod.snd) h fun s hs ↦ by
      obtain ⟨o, ho⟩ := (hout s).mp hs
      exact (h.wired.owner this o s ho).1
  obtain ⟨σ', hrec, hsound, htrim⟩ := htrim₁.recalculate h.sink
  refine ⟨σ', lists₁, conns₁, ?_, hsound, htrim.congr fun d j s hs ↦ ?_⟩
  · simp only [detachAllOutputs, ht, hrun₁, hrec]
  · refine ⟨fun hk horigin ↦ ?_, fun hk _ ↦ hk⟩
    have hsource := h.wired.source d j s hs
    rw [horigin] at hsource
    exact hk ⟨s, (hout s).mpr ⟨_, hsource⟩, j, hs⟩ horigin

/-! ### Steps of destruction -/

/-- Writes to the set of tightly connected machines. -/
theorem sound_setTight {σ : Space} {lists : Lists} {conns : Finset Connection}
    (h : Sound σ lists conns) (p : MachineId)
    (f : Std.ExtTreeSet MachineId → Std.ExtTreeSet MachineId) :
    Sound (σ.modifyMachine p fun x ↦ { x with tightlyConnected := f x.tightlyConnected })
      lists conns := by
  let g : Machine → Machine := fun x ↦ { x with tightlyConnected := f x.tightlyConnected }
  have hw : (σ.modifyMachine p g).wiring = σ.wiring := by
    ext1
    case head =>
      funext d i
      exact bind_modifyMachine σ p g (fun x ↦ x.input[i]?) (fun _ ↦ rfl) d
    case output =>
      funext d i
      exact bind_modifyMachine σ p g (fun x ↦ x.output[i]?) (fun _ ↦ rfl) d
    case depend =>
      funext d m
      exact bind_modifyMachine σ p g (fun x ↦ x.dependant[m]?) (fun _ ↦ rfl) d
    all_goals rfl
  have hptr : (σ.modifyMachine p g).renderPtr = σ.renderPtr := by
    funext d
    simp only [renderPtr, modifyMachine, Std.ExtTreeMap.getElem?_modify]
    split
    · next he =>
      obtain rfl : p = d := by simpa using he
      cases σ.machines[p]? <;> rfl
    · rfl
  refine ⟨?_, fun s hs ↦ Std.ExtTreeMap.mem_modify.mpr (h.sink s hs), ?_⟩
  · change Wired (σ.modifyMachine p g).wiring lists conns
    rw [hw]
    exact h.wired
  · obtain ⟨chain, hl⟩ := h.chained
    refine ⟨chain, ?_⟩
    change Library.IsList (σ.modifyMachine p g).renderPtr σ.topRenderChain chain
    rw [hptr]
    exact hl

/-- `detach_and_destroy` returns and cuts all connections of the machine, and no others. -/
theorem detachAndDestroy_sound {σ : Space} {lists : Lists} {conns : Finset Connection}
    (h : Sound σ lists conns) {m : MachineId} (hlive : m ∈ σ.machines) :
    ∃ σ' lists' conns', σ.detachAndDestroy m = some (.ok (), σ') ∧ Sound σ' lists' conns' ∧
      Trimmed σ σ' lists lists' conns' fun d _ s ↦ d ≠ m ∧ σ.wiring.origin s ≠ m := by
  obtain ⟨σ₁, lists₁, conns₁, hrun₁, hsound₁, htrim₁⟩ := detachAllInputs_sound h hlive none
  obtain ⟨σ₂, lists₂, conns₂, hrun₂, hsound₂, htrim₂⟩ :=
    detachAllOutputs_sound hsound₁ ((htrim₁.shrinks.live m).mpr hlive)
  refine ⟨σ₂, lists₂, conns₂, ?_, hsound₂, (htrim₁.trans htrim₂).congr fun d j s _ ↦ ?_⟩
  · simp only [detachAndDestroy, hrun₁, hrun₂]
  · rw [htrim₁.origin]
    simp [Spared]

/-- A machine that is asked to go was live. -/
theorem mem_of_detachAndDestroy {σ σ' : Space} {m : MachineId} {r : Except JException Unit}
    (h : σ.detachAndDestroy m = some (r, σ')) : m ∈ σ.machines := by
  by_contra hm
  have hnone : σ.machines[m]? = none := Std.ExtTreeMap.getElem?_eq_none hm
  simp [detachAndDestroy, detachAllInputs, hnone] at h

/-! ### Creating machines -/

/-- The loop over the output descriptors creates signals of `this` and keeps a wiring in
order. -/
private theorem createOutputs_wired {this : MachineId} (l : List (StdString × Description))
    {output : Std.ExtTreeMap StdString SignalId} {σ σ' : Space} {lists : Lists}
    {conns : Finset Connection} {r : Except JException (Std.ExtTreeMap StdString SignalId)}
    (h : Wired σ.wiring lists conns)
    (hout : ∀ o s, output[o]? = some s →
      σ.wiring.origin s = this ∧ σ.wiring.name s = o ∧ s < σ.wiring.count)
    (hstep : createOutputs this l output σ = some (r, σ')) :
    Wired σ'.wiring lists conns ∧
      ∀ out, r = .ok out → ∀ o s, out[o]? = some s →
        σ'.wiring.origin s = this ∧ σ'.wiring.name s = o ∧ s < σ'.wiring.count := by
  induction l generalizing output σ with
  | nil =>
    obtain ⟨rfl, rfl⟩ := Prod.mk.inj (Option.some.inj hstep)
    exact ⟨h, fun out ho ↦ Except.ok.inj ho ▸ hout⟩
  | cons e l ih =>
    simp only [createOutputs, createSignal] at hstep
    split at hstep
    · cases hstep
    · next err σ₁ hc =>
      obtain ⟨rfl, rfl⟩ := Prod.mk.inj (Option.some.inj hstep)
      split at hc
      · cases (Prod.mk.inj (Option.some.inj hc)).1
      · obtain ⟨_, rfl⟩ := Prod.mk.inj (Option.some.inj hc)
        exact ⟨h, fun out ho ↦ by cases ho⟩
    · next s₀ σ₁ hc =>
      split at hc
      · simp only [returns, Option.some.injEq, Prod.mk.injEq, Except.ok.injEq] at hc
        obtain ⟨rfl, rfl⟩ := hc
        -- The address was unused, so its pointers and counts read as before.
        have hfresh : ∀ d i, σ.signalCount ∉ lists d i := fun d i hs ↦
          Nat.lt_irrefl _ (h.lt_count hs)
        have hold : ∀ {β : Type} (g : Signal → β) (x : Signal), g x = g (σ.signals σ.signalCount) →
            ∀ a, g (Function.update σ.signals σ.signalCount x a) = g (σ.signals a) := by
          intro β g x hg a
          by_cases ha : a = σ.signalCount
          · subst ha
            simpa using hg
          · simp [ha]
        have h₁ := h.extend (Space.wiring { σ with
            signals := Function.update σ.signals σ.signalCount
              ⟨this, e.1, e.2.dimension, e.2.channels, fun _ ↦ none, fun _ ↦ none, ∅⟩
            signalCount := σ.signalCount + 1 }) rfl rfl rfl
          (by
            funext d a
            exact hold (fun x ↦ x.next d) _ (h.loose d _ (hfresh d)).1.symm a)
          (by
            funext d a
            exact hold (fun x ↦ x.previous d) _ (h.loose d _ (hfresh d)).2.symm a)
          (by
            funext a d
            refine hold (fun x ↦ x.attachedMachines[d]?) _ ?_ a
            have hatt := h.attached d σ.signalCount
            rw [Finset.filter_eq_empty_iff.mpr] at hatt
            · change (∅ : Std.ExtTreeMap MachineId Int)[d]? = σ.wiring.attached σ.signalCount d
              rw [hatt]
              simp [Wiring.tally]
            · rintro ⟨d', i, a⟩ hc ⟨rfl, rfl⟩
              exact hfresh _ i ((h.mem _ i _).mp hc))
          (Nat.le_succ _)
          (fun a ha ↦ by
            have hne : a ≠ σ.signalCount := Nat.ne_of_lt ha
            simp [wiring, hne])
        refine ih h₁ ?_ hstep
        intro o s hs
        rw [Std.ExtTreeMap.getElem?_insert] at hs
        split at hs
        · next he =>
          obtain rfl := Option.some.inj hs
          obtain rfl : e.1 = o := by simpa using he
          exact ⟨by simp [wiring], by simp [wiring], Nat.lt_succ_self _⟩
        · obtain ⟨ho, hn, hlt⟩ := hout o s hs
          have hne : s ≠ σ.signalCount := Nat.ne_of_lt hlt
          refine ⟨?_, ?_, Nat.lt_succ_of_lt hlt⟩
          · simpa [wiring, hne] using ho
          · simpa [wiring, hne] using hn
      · cases (Prod.mk.inj (Option.some.inj hc)).1

/-- Creating a machine keeps a space sound; it has no connections yet. -/
theorem setupMachine_sound {σ σ' : Space} {lists : Lists} {conns : Finset Connection}
    (h : Sound σ lists conns) {this : MachineId} {spec : MachineSpec}
    {garbage : Option MachineId} {r : Except JException Unit}
    (hstep : σ.setupMachine this spec garbage = some (r, σ')) : Sound σ' lists conns := by
  obtain ⟨hthis, ⟨e, _, hc⟩ | ⟨output, σ₁, x, _, hc, hx, rfl⟩⟩ :=
    setupMachine_cases hstep
  · obtain ⟨hw, _⟩ := createOutputs_wired _ h.wired (by simp) hc
    obtain ⟨hm, hs, ht⟩ := machines_createOutputs _ _ hc
    refine ⟨hw, fun s hs' ↦ ?_, ?_⟩
    · rw [hm]
      exact h.sink s (hs.symm.trans hs')
    · obtain ⟨chain, hl⟩ := h.chained
      refine ⟨chain, ?_⟩
      unfold renderPtr
      rw [hm, ht]
      exact hl
  · obtain ⟨hw, hnew⟩ := createOutputs_wired _ h.wired (by simp) hc
    obtain ⟨hm, hs, ht⟩ := machines_createOutputs _ _ hc
    obtain ⟨hin, hout, hdep⟩ : x.input = ∅ ∧ x.output = output ∧ x.dependant = ∅ := by simp [hx]
    have hnone : σ₁.machines[this]? = none := by
      rw [hm]
      exact Std.ExtTreeMap.getElem?_eq_none hthis
    have hget : ∀ d : MachineId, (σ₁.machines.insert this x)[d]? =
        if d = this then some x else σ₁.machines[d]? := by
      intro d
      rw [Std.ExtTreeMap.getElem?_insert]
      by_cases hd : d = this
      · simp [hd]
      · simp [hd, Ne.symm hd]
    refine ⟨?_, fun s hs' ↦ ?_, ?_⟩
    · have hadd := hw.addMachine this (fun o ↦ output[o]?)
        (fun o ↦ by simp [wiring, hnone]) (hnew output rfl)
      have heq : Space.wiring (notify { σ₁ with machines := σ₁.machines.insert this x }
          (.machineRegistered this)) = { σ₁.wiring with
            output := Function.update σ₁.wiring.output this fun o ↦ output[o]? } := by
        ext1
        case head =>
          funext d i
          by_cases hd : d = this
          · subst hd
            simp [wiring, notify, hin, hnone]
          · simp [wiring, notify, hget, hd]
        case output =>
          funext d o
          by_cases hd : d = this
          · subst hd
            simp [wiring, notify, hout]
          · simp [wiring, notify, hget, hd]
        case depend =>
          funext d m
          by_cases hd : d = this
          · subst hd
            simp [wiring, notify, hdep, hnone]
          · simp [wiring, notify, hget, hd]
        all_goals rfl
      rw [heq]
      exact hadd
    · refine Std.ExtTreeMap.mem_insert.mpr (.inr ?_)
      rw [hm]
      exact h.sink s (hs.symm.trans hs')
    · -- The new address is not on the chain.
      obtain ⟨chain, hl⟩ := h.chained
      refine ⟨chain, ?_⟩
      change Library.IsList _ σ₁.topRenderChain chain
      rw [ht]
      apply hl.congr
      intro p hp
      have hne : p ≠ this := by
        rintro rfl
        exact hthis (mem_of_isList hl p hp)
      simp only [renderPtr, notify, hget, if_neg hne]
      rw [hm]

end Space
end Vuknob
