import Vuknob.Machine.Acyclic
import Vuknob.Machine.Wiring

/-!
# What the operations do to the wiring

The wiring of a space, and for every operation of `src_jni/machine.cc` the operation on
wirings it carries out. From a wiring in order, `internal_attach_input` connects where
there is room and `internal_detach_input` disconnects what is listed; `detach_all_inputs`
and `detach_all_outputs` return and disconnect everything they are asked to.
-/

namespace Vuknob
namespace Space

/-- The connections of a space as functions; a machine that is not live has none. -/
def wiring (σ : Space) : Wiring where
  head d i := σ.machines[d]?.bind (·.input[i]?)
  output m o := σ.machines[m]?.bind (·.output[o]?)
  depend d m := σ.machines[d]?.bind (·.dependant[m]?)
  next := σ.next
  previous := σ.previous
  attached s d := (σ.signals s).attachedMachines[d]?
  origin s := (σ.signals s).originator
  name s := (σ.signals s).name
  count := σ.signalCount

/-! ### Single writes -/

private theorem bind_of_network {σ σ' : Space} (h : σ'.network = σ.network) {β : Type}
    (f : Machine → Option β) (hf : ∀ x n, f { x with nextRenderChain := n } = f x)
    (d : MachineId) : σ'.machines[d]?.bind f = σ.machines[d]?.bind f := by
  rw [getElem?_of_network h d]
  cases σ.machines[d]? with
  | none => rfl
  | some x => exact hf x _

theorem wiring_of_network {σ σ' : Space} (h : σ'.network = σ.network) : σ'.wiring = σ.wiring := by
  have hsig : σ'.signals = σ.signals := by
    change σ'.network.signals = σ.network.signals
    rw [h]
  have hcount : σ'.signalCount = σ.signalCount := by
    change σ'.network.signalCount = σ.network.signalCount
    rw [h]
  ext1
  · funext d i
    exact bind_of_network h (fun x ↦ x.input[i]?) (fun _ _ ↦ rfl) d
  · funext m o
    exact bind_of_network h (fun x ↦ x.output[o]?) (fun _ _ ↦ rfl) m
  · funext d m
    exact bind_of_network h (fun x ↦ x.dependant[m]?) (fun _ _ ↦ rfl) d
  · funext d s
    simp [wiring, next, hsig]
  · funext d s
    simp [wiring, previous, hsig]
  all_goals simp [wiring, hsig, hcount]

@[simp] theorem wiring_notify (σ : Space) (n : Notification) : (σ.notify n).wiring = σ.wiring :=
  rfl

theorem wiring_recalculate {σ σ' : Space} (h : σ.recalculateRenderChain = some σ') :
    σ'.wiring = σ.wiring :=
  wiring_of_network (network_recalculateRenderChain h)

private theorem getElem?_modifyMachine (σ : Space) (p d : MachineId) (f : Machine → Machine) :
    (σ.modifyMachine p f).machines[d]? =
      if d = p then σ.machines[d]?.map f else σ.machines[d]? := by
  rw [modifyMachine, Std.ExtTreeMap.getElem?_modify]
  by_cases h : d = p
  · subst h
    simp
  · simp [h, Ne.symm h]

theorem bind_modifyMachine (σ : Space) (p : MachineId) (g : Machine → Machine)
    {β : Type} (f : Machine → Option β) (hf : ∀ x, f (g x) = f x) (d : MachineId) :
    (σ.modifyMachine p g).machines[d]?.bind f = σ.machines[d]?.bind f := by
  rw [getElem?_modifyMachine]
  split
  · cases σ.machines[d]? with
    | none => rfl
    | some x => exact hf x
  · rfl

theorem wiring_setInput {σ : Space} {d : MachineId} (hd : d ∈ σ.machines) (i : StdString)
    (h : Option SignalId) : (σ.setInput d i h).wiring = σ.wiring.setHead d i h := by
  obtain ⟨t, ht⟩ := Option.isSome_iff_exists.mp (Std.ExtTreeMap.mem_iff_isSome_getElem?.mp hd)
  ext1
  · funext e j
    change (σ.setInput d i h).machines[e]?.bind (fun x ↦ x.input[j]?) = _
    rw [setInput, getElem?_modifyMachine]
    by_cases he : e = d
    · subst he
      by_cases hj : j = i
      · subst hj
        cases h <;> simp [ht, Wiring.setHead]
      · cases h <;> simp [ht, Wiring.setHead, wiring, hj, Ne.symm hj,
          Std.ExtTreeMap.getElem?_erase, Std.ExtTreeMap.getElem?_insert]
    · simp [he, Wiring.setHead, wiring]
  · funext m o
    exact bind_modifyMachine σ d _ (fun x ↦ x.output[o]?) (fun _ ↦ by rfl) m
  · funext e m
    exact bind_modifyMachine σ d _ (fun x ↦ x.dependant[m]?) (fun _ ↦ by rfl) e
  all_goals rfl

private theorem getElem?_countUp (counts : Std.ExtTreeMap MachineId Int) (k q : MachineId) :
    (countUp counts k)[q]? = if q = k then Wiring.up counts[q]? else counts[q]? := by
  rw [countUp, Std.ExtTreeMap.getElem?_insert]
  by_cases h : q = k
  · subst h
    simp [Wiring.up, Std.ExtTreeMap.getD_eq_getD_getElem?]
  · simp [h, Ne.symm h]

private theorem getElem?_countDown (counts : Std.ExtTreeMap MachineId Int) (k q : MachineId) :
    (countDown counts k)[q]? = if q = k then Wiring.down counts[q]? else counts[q]? := by
  unfold countDown
  by_cases h : q = k
  · subst h
    cases hc : counts[q]? with
    | none => simp [hc, Wiring.down]
    | some c =>
      dsimp only [Wiring.down]
      split <;> simp
  · cases hc : counts[k]? with
    | none => simp [h]
    | some c =>
      dsimp only
      split
      · simp [Std.ExtTreeMap.getElem?_erase, Ne.symm h]
      · simp [Std.ExtTreeMap.getElem?_insert, Ne.symm h]

private theorem signals_modifySignal (σ : Space) (s : SignalId) (f : Signal → Signal)
    {β : Type} (g : Signal → β) (hg : ∀ x, g (f x) = g x) (a : SignalId) :
    g ((σ.modifySignal s f).signals a) = g (σ.signals a) := by
  by_cases ha : a = s
  · subst ha
    simp [modifySignal, hg]
  · simp [modifySignal, ha]

/-- Another count in the map of attached machines of `s`. -/
private theorem wiring_countAttached (σ : Space) (d : MachineId) (s : SignalId)
    {count : Std.ExtTreeMap MachineId Int → MachineId → Std.ExtTreeMap MachineId Int}
    {f : Option Int → Option Int}
    (hf : ∀ counts k q, (count counts k)[q]? = if q = k then f counts[q]? else counts[q]?) :
    (σ.modifySignal s fun x ↦ { x with
      attachedMachines := count x.attachedMachines d }).wiring = σ.wiring.countAttached d s f := by
  ext1
  case next =>
    funext e a
    exact signals_modifySignal σ s _ (fun x ↦ x.next e) (fun _ ↦ by rfl) a
  case previous =>
    funext e a
    exact signals_modifySignal σ s _ (fun x ↦ x.previous e) (fun _ ↦ by rfl) a
  case attached =>
    funext a e
    by_cases ha : a = s
    · subst ha
      by_cases he : e = d
      · subst he
        simp [wiring, modifySignal, Wiring.countAttached, hf]
      · simp [wiring, modifySignal, Wiring.countAttached, hf, he]
    · simp [wiring, modifySignal, Wiring.countAttached, ha]
  case origin => exact funext (signals_modifySignal σ s _ (fun x ↦ x.originator) fun _ ↦ by rfl)
  case name => exact funext (signals_modifySignal σ s _ (fun x ↦ x.name) fun _ ↦ by rfl)
  all_goals rfl

theorem wiring_detach (σ : Space) (s : SignalId) (d : MachineId) :
    (σ.detach s d).wiring = σ.wiring.countAttached d s Wiring.down :=
  wiring_countAttached σ d s getElem?_countDown

theorem wiring_signalAttach (σ : Space) (s : SignalId) (d : MachineId) :
    (σ.attach s d).wiring = σ.wiring.countAttached d s Wiring.up :=
  wiring_countAttached σ d s getElem?_countUp

/-- Another count in the `dependant` map of `d`. -/
private theorem wiring_countDepend {σ : Space} {d : MachineId} (hd : d ∈ σ.machines)
    (m : MachineId)
    {count : Std.ExtTreeMap MachineId Int → MachineId → Std.ExtTreeMap MachineId Int}
    {f : Option Int → Option Int}
    (hf : ∀ counts k q, (count counts k)[q]? = if q = k then f counts[q]? else counts[q]?) :
    (σ.modifyMachine d fun x ↦ { x with dependant := count x.dependant m }).wiring =
      σ.wiring.countDepend d m f := by
  obtain ⟨t, ht⟩ := Option.isSome_iff_exists.mp (Std.ExtTreeMap.mem_iff_isSome_getElem?.mp hd)
  ext1
  case head =>
    funext e j
    exact bind_modifyMachine _ d _ (fun x ↦ x.input[j]?) (fun _ ↦ by rfl) e
  case output =>
    funext p o
    exact bind_modifyMachine _ d _ (fun x ↦ x.output[o]?) (fun _ ↦ by rfl) p
  case depend =>
    funext e q
    change ((_ : Space).machines[e]?.bind fun x ↦ x.dependant[q]?) = _
    rw [getElem?_modifyMachine]
    by_cases he : e = d
    · subst he
      by_cases hm : q = m
      · subst hm
        simp [Wiring.countDepend, wiring, ht, hf]
      · simp [Wiring.countDepend, wiring, ht, hf, hm]
    · simp [Wiring.countDepend, wiring, he]
  all_goals rfl

theorem wiring_countDown {σ : Space} {d : MachineId} (hd : d ∈ σ.machines) (m : MachineId) :
    (σ.modifyMachine d fun x ↦ { x with dependant := countDown x.dependant m }).wiring =
      σ.wiring.countDepend d m Wiring.down :=
  wiring_countDepend hd m getElem?_countDown

theorem wiring_countUp {σ : Space} {d : MachineId} (hd : d ∈ σ.machines) (m : MachineId) :
    (σ.modifyMachine d fun x ↦ { x with dependant := countUp x.dependant m }).wiring =
      σ.wiring.countDepend d m Wiring.up :=
  wiring_countDepend hd m getElem?_countUp

/-- Writing one pointer of one signal. -/
private def setPointer (ptr : MachineId → SignalId → Option SignalId) (m : MachineId)
    (s : SignalId) (v : Option SignalId) : MachineId → SignalId → Option SignalId :=
  fun e a ↦ if e = m ∧ a = s then v else ptr e a

private theorem wiring_setNext (σ : Space) (m : MachineId) (s : SignalId)
    (v : Option SignalId) :
    (σ.setNext m s v).wiring = { σ.wiring with next := setPointer σ.wiring.next m s v } := by
  ext1
  case next =>
    funext e a
    by_cases ha : a = s
    · subst ha
      by_cases he : e = m
      · subst he
        simp [wiring, next, setNext, modifySignal, setPointer]
      · simp [wiring, next, setNext, modifySignal, setPointer, he]
    · simp [wiring, next, setNext, modifySignal, setPointer, ha]
  case previous =>
    funext e a
    exact signals_modifySignal σ s _ (fun x ↦ x.previous e) (fun _ ↦ by rfl) a
  case attached =>
    funext a e
    exact signals_modifySignal σ s _ (fun x ↦ x.attachedMachines[e]?) (fun _ ↦ by rfl) a
  case origin => exact funext (signals_modifySignal σ s _ (fun x ↦ x.originator) fun _ ↦ by rfl)
  case name => exact funext (signals_modifySignal σ s _ (fun x ↦ x.name) fun _ ↦ by rfl)
  all_goals rfl

private theorem wiring_setPrevious (σ : Space) (m : MachineId) (s : SignalId)
    (v : Option SignalId) :
    (σ.setPrevious m s v).wiring =
      { σ.wiring with previous := setPointer σ.wiring.previous m s v } := by
  ext1
  case previous =>
    funext e a
    by_cases ha : a = s
    · subst ha
      by_cases he : e = m
      · subst he
        simp [wiring, previous, setPrevious, modifySignal, setPointer]
      · simp [wiring, previous, setPrevious, modifySignal, setPointer, he]
    · simp [wiring, previous, setPrevious, modifySignal, setPointer, ha]
  case next =>
    funext e a
    exact signals_modifySignal σ s _ (fun x ↦ x.next e) (fun _ ↦ by rfl) a
  case attached =>
    funext a e
    exact signals_modifySignal σ s _ (fun x ↦ x.attachedMachines[e]?) (fun _ ↦ by rfl) a
  case origin => exact funext (signals_modifySignal σ s _ (fun x ↦ x.originator) fun _ ↦ by rfl)
  case name => exact funext (signals_modifySignal σ s _ (fun x ↦ x.name) fun _ ↦ by rfl)
  all_goals rfl

theorem wiring_link {σ σ' : Space} {k : SignalId} {d : MachineId} {s : SignalId}
    (h : σ.link k d s = .ok σ') (hks : s ≠ k) (hns : σ.next d k ≠ some s) :
    σ'.wiring = σ.wiring.link d k s := by
  unfold link at h
  split at h
  · cases h
  dsimp only at h
  have hw : ∀ v : Option SignalId,
      (((σ.setNext d k (some s)).setPrevious d s (some k)).setNext d s v).wiring =
        { σ.wiring with
          next := setPointer (setPointer σ.next d k (some s)) d s v
          previous := setPointer σ.previous d s (some k) } := fun v ↦ by
    rw [wiring_setNext, wiring_setPrevious, wiring_setNext]
    rfl
  -- The next pointers do not depend on whether something stood behind `k`.
  have hnext : setPointer (setPointer σ.next d k (some s)) d s (σ.next d k) =
      (σ.wiring.link d k s).next := by
    funext e a
    by_cases he : e = d
    · subst he
      by_cases has : a = s
      · simp [setPointer, Wiring.link, wiring, has, hks]
      · simp [setPointer, Wiring.link, wiring, has]
    · simp [setPointer, Wiring.link, wiring, he]
  split at h
  · next hnone =>
    obtain rfl := Except.ok.inj h
    rw [hw, hnext]
    ext1 <;> try rfl
    funext e a
    by_cases he : e = d
    · subst he
      simp [setPointer, Wiring.link, wiring, hnone]
    · simp [setPointer, Wiring.link, wiring, he]
  · next t ht =>
    obtain rfl := Except.ok.inj h
    rw [wiring_setPrevious, hw, hnext]
    ext1 <;> try rfl
    funext e a
    have hk : (((σ.setNext d k (some s)).setPrevious d s (some k)).setNext d s
        (σ.next d k)).next d k = some s := by
      change (((σ.setNext d k (some s)).setPrevious d s (some k)).setNext d s
        (σ.next d k)).wiring.next d k = some s
      rw [hw]
      simp [setPointer, Ne.symm hks]
    have hts : t ≠ s := fun heq ↦ hns (heq ▸ ht)
    rw [hk]
    by_cases he : e = d
    · subst he
      by_cases has : a = s
      · simp [setPointer, Wiring.link, wiring, has, Ne.symm hts]
      · simp [setPointer, Wiring.link, wiring, has, ht, eq_comm (a := a) (b := t)]
    · simp [setPointer, Wiring.link, wiring, he]

private theorem wiring_skipNext (σ : Space) (d : MachineId) (s : SignalId) :
    (σ.skipNext d s).wiring = { σ.wiring with
      next := fun e a ↦ if e = d ∧ σ.previous d s = some a then σ.next d s else σ.next e a } := by
  unfold skipNext
  cases hp : σ.previous d s with
  | none => simp [wiring]
  | some p =>
    dsimp only
    rw [wiring_setNext]
    ext1 <;> try rfl
    funext e a
    simp [setPointer, wiring, eq_comm (a := a) (b := p)]

private theorem wiring_skipPrevious (σ : Space) (d : MachineId) (s : SignalId) :
    (σ.skipPrevious d s).wiring = { σ.wiring with
      previous := fun e a ↦
        if e = d ∧ σ.next d s = some a then σ.previous d s else σ.previous e a } := by
  unfold skipPrevious
  cases hn : σ.next d s with
  | none => simp [wiring]
  | some n =>
    dsimp only
    rw [wiring_setPrevious]
    ext1 <;> try rfl
    funext e a
    simp [setPointer, wiring, eq_comm (a := a) (b := n)]

theorem wiring_unlinkFound (σ : Space) (k : SignalId) (d : MachineId) (s : SignalId) :
    (σ.unlinkFound k d s).2.wiring = σ.wiring.unlink d s ∧
      (σ.unlinkFound k d s).1 = if s = k then σ.next d s else some k := by
  -- The first step leaves the pointers of `s` itself as they were.
  have hn : (σ.skipNext d s).next d s = σ.next d s := by
    change (σ.skipNext d s).wiring.next d s = _
    rw [wiring_skipNext]
    simp
  have hp : (σ.skipNext d s).previous = σ.previous :=
    congrArg Wiring.previous (wiring_skipNext σ d s)
  have hn' : ((σ.skipNext d s).skipPrevious d s).next d s = σ.next d s := by
    change ((σ.skipNext d s).skipPrevious d s).wiring.next d s = _
    rw [wiring_skipPrevious]
    exact hn
  unfold unlinkFound
  dsimp only
  refine ⟨?_, by rw [hn']⟩
  rw [wiring_setPrevious, wiring_setNext, wiring_skipPrevious, wiring_skipNext, hn, hp]
  ext1 <;> try rfl
  · funext e a
    by_cases he : e = d
    · subst he
      simp only [setPointer, Wiring.unlink, true_and, Function.update_self]
      rfl
    · simp [setPointer, Wiring.unlink, wiring, he]
  · funext e a
    by_cases he : e = d
    · subst he
      simp only [setPointer, Wiring.unlink, true_and, Function.update_self]
      rfl
    · simp [setPointer, Wiring.unlink, wiring, he]

/-! ### One connection -/

theorem head_eq {σ : Space} {d : MachineId} {t : Machine} (ht : σ.machines[d]? = some t)
    (i : StdString) : σ.wiring.head d i = t.input[i]? := by
  simp [wiring, ht]

theorem mem_of_getElem? {σ : Space} {d : MachineId} {t : Machine}
    (ht : σ.machines[d]? = some t) : d ∈ σ.machines :=
  Std.ExtTreeMap.mem_iff_isSome_getElem?.mpr (by simp [ht])

theorem Names.output_eq {σ : Space} {this m₀ : MachineId} {m : Option MachineId}
    {o i : StdString} {t : Machine} {s : SignalId} (h : σ.Names this m o i m₀ t s) :
    σ.wiring.output m₀ o = some s := by
  obtain ⟨source, hm, hs⟩ := h.output
  simp [wiring, hm, hs]

/-- `internal_attach_input` connects where there is room. -/
theorem wiring_attach {σ σ₁ σ' : Space} {lists : Lists} {conns : Finset Connection}
    (h : Wired σ.wiring lists conns) {this m₀ : MachineId} {m : Option MachineId}
    {o i : StdString} {t : Machine} {s : SignalId} {r : Except JException Unit}
    (hn : σ.Names this m o i m₀ t s) (hroom : σ.wiring.Room this i s)
    (hl : σ.linkInput this t.input[i]? s i = .ok σ₁)
    (hf : σ₁.finishAttach this m₀ s o i = some (r, σ')) :
    σ'.wiring = σ.wiring.connect this i s := by
  have hlive : this ∈ σ.machines := mem_of_getElem? hn.this_live
  have hlink : σ₁.wiring = σ.wiring.place this i s := by
    unfold Wiring.Room at hroom
    unfold Wiring.place
    rw [head_eq hn.this_live] at hroom ⊢
    unfold linkInput at hl
    cases hk : t.input[i]? with
    | none =>
      rw [hk] at hl
      obtain rfl := Except.ok.inj hl
      exact wiring_setInput hlive i (some s)
    | some k =>
      rw [hk] at hl hroom
      have hs := h.not_mem_of_attached hroom.1
      have hki : k ∈ lists this i :=
        List.mem_of_mem_head? ((h.head this i).symm.trans ((head_eq hn.this_live i).trans hk))
      exact wiring_link hl (fun heq ↦ hs i (heq ▸ hki)) fun hnext ↦
        hs i (h.next_mem hki hnext)
  obtain ⟨_, σ₃, hrec, rfl⟩ := finishAttach_eq_some hf
  have horigin : σ₁.wiring.origin = σ.wiring.origin := by
    rw [hlink, Wiring.place]
    split <;> rfl
  have hm : σ₁.wiring.origin s = m₀ := (congrFun horigin s).trans (h.owner m₀ o s hn.output_eq).1
  have hlive₁ : this ∈ σ₁.machines := ((shrinks_linkInput hl).live this).mpr hlive
  rw [wiring_notify, wiring_recalculate hrec, wiring_countUp (σ := σ₁.attach s this) hlive₁,
    wiring_signalAttach, Wiring.connect, ← hlink, Wiring.recount, hm]

theorem nextPtr_detach (σ : Space) (s : SignalId) (d e : MachineId) :
    (σ.detach s d).nextPtr e = σ.nextPtr e := by
  funext a
  have := signals_modifySignal σ s (fun x ↦ { x with
    attachedMachines := countDown x.attachedMachines d }) (fun x ↦ x.next e) (fun _ ↦ rfl) a
  exact congrArg some this

/-- From the head of an input list, exactly the signals on it are found. -/
theorem locate_wired {σ : Space} {lists : Lists} {conns : Finset Connection}
    (h : Wired σ.wiring lists conns) {d : MachineId} {i : StdString} {k : SignalId}
    (hk : σ.wiring.head d i = some k) (s : SignalId) :
    Library.locate (σ.nextPtr d) s σ.signalCount (some k) =
      some (decide (s ∈ lists d i)) := by
  have hl := (h.linked d i).isList
  rw [← h.head d i, hk] at hl
  exact Library.locate_eq s hl (h.length_le d i)

/-- `Wiring.disconnect` with its parts in the order of `internal_detach_input`. -/
theorem disconnect_eq (w : Wiring) (d : MachineId) (i : StdString) (s : SignalId) :
    w.disconnect d i s = ((w.recount d s Wiring.down).unlink d s).setHead d i
      (if w.head d i = some s then w.next d s else w.head d i) := rfl

/-- A call of `internal_detach_input` in a wiring in order: it disconnects a listed signal;
otherwise it throws, and only the count of the signal may have changed. -/
theorem internalDetachInput_wired {σ σ' : Space} {lists : Lists} {conns : Finset Connection}
    (h : Wired σ.wiring lists conns) {this : MachineId} {m : Option MachineId}
    {o i : StdString} {r : Except JException Unit}
    (hstep : σ.internalDetachInput this m o i = some (r, σ')) :
    (∃ e, r = .error e ∧ σ' = σ) ∨
      ∃ m₀ t s k, σ.Names this m o i m₀ t s ∧ t.input[i]? = some k ∧
        ((s ∉ lists this i ∧ (∃ e, r = .error e) ∧ σ' = σ.detach s this) ∨
          (s ∈ lists this i ∧ r = .ok () ∧ σ'.wiring = σ.wiring.disconnect this i s ∧
            σ'.Chained)) := by
  rcases internalDetachInput_cases hstep with hthrow | ⟨m₀, t, s, k, hn, hk, hr⟩
  · exact .inl hthrow
  refine .inr ⟨m₀, t, s, k, hn, hk, ?_⟩
  have hlive : this ∈ σ.machines := mem_of_getElem? hn.this_live
  have hhead : σ.wiring.head this i = some k := (head_eq hn.this_live i).trans hk
  have hloc := locate_wired h hhead s
  have hloc' : Library.locate ((σ.detach s this).nextPtr this) s (σ.detach s this).signalCount
      (some k) = some (decide (s ∈ lists this i)) := by
    rw [nextPtr_detach]
    exact hloc
  rcases hr with ⟨e, hu, rfl, rfl⟩ | ⟨head, σ₂, hu, hf⟩
  · refine .inl ⟨?_, ⟨e, rfl⟩, rfl⟩
    intro hs
    simp [unlink, hloc', hs] at hu
  · have hs : s ∈ lists this i := by
      by_contra hs
      simp [unlink, hloc', hs] at hu
    refine .inr ⟨hs, ?_⟩
    simp only [unlink, hloc', hs, decide_true, Option.some.injEq, Except.ok.injEq] at hu
    obtain ⟨hw₂, hhead₂⟩ := wiring_unlinkFound (σ.detach s this) k this s
    rw [hu] at hw₂ hhead₂
    dsimp only at hw₂ hhead₂
    have hlive₂ : this ∈ σ₂.machines := by
      have hm := (machines_unlinkFound (σ.detach s this) k this s).1
      rw [hu] at hm
      rw [show σ₂.machines = σ.machines from hm]
      exact hlive
    have hdep : σ₂.wiring.depend this m₀ = σ.wiring.depend this m₀ := by
      rw [hw₂]
      rfl
    obtain ⟨t', ht', hcase⟩ := finishDetach_cases hf
    rcases hcase with ⟨e, _, hnone, _⟩ | ⟨rfl, _, σ₃, hrec, rfl⟩
    · -- The listed signal is counted, so the count of its source is there.
      exfalso
      have hd : (σ₂.setInput this i head).wiring.depend this m₀ = none := by
        simp [wiring, ht', hnone]
      rw [wiring_setInput hlive₂] at hd
      have hd' : σ.wiring.depend this m₀ = none := hdep ▸ hd
      rw [h.depend, Wiring.tally_eq_none_iff, Finset.card_eq_zero] at hd'
      have hmem : (this, i, s) ∈ conns.filter fun c ↦
          c.1 = this ∧ σ.wiring.origin c.2.2 = m₀ := by
        simp [(h.mem this i s).mpr hs, (h.owner m₀ o s hn.output_eq).1]
      rw [hd'] at hmem
      simp at hmem
    · refine ⟨rfl, ?_, chained_notify _ (chained_recalculateRenderChain hrec)⟩
      have hm : σ.wiring.origin s = m₀ := (h.owner m₀ o s hn.output_eq).1
      have hlive₃ : this ∈ (σ₂.setInput this i head).machines :=
        ((shrinks_setInput σ₂ this i head).live this).mpr hlive₂
      have hnext : (σ.detach s this).next this s = σ.next this s :=
        Option.some.inj (congrFun (nextPtr_detach σ s this this) s)
      have hif : head = if σ.wiring.head this i = some s then σ.wiring.next this s
          else σ.wiring.head this i := by
        rw [hhead₂, hhead, hnext]
        by_cases hsk : s = k
        · simp [hsk, wiring]
        · simp [hsk, Ne.symm hsk]
      -- All writes are to different parts of the wiring, so their order does not matter.
      rw [wiring_notify, wiring_recalculate hrec, wiring_countDown hlive₃,
        wiring_setInput hlive₂, hw₂, wiring_detach, disconnect_eq, ← hif, Wiring.recount, hm]
      rfl

end Space
end Vuknob
