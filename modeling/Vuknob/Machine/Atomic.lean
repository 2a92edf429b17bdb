import Vuknob.Machine.Careful

/-!
# Calls that throw

Whether a call of `internal_attach_input` or `internal_detach_input` that throws
(`src_jni/machine.cc:421–566`) leaves the space as it was. Attaching always does: its last
throw is the first thing `Signal::link` does. Detaching counts the signal down before it
searches the list, and unlinks it before it looks at the `dependant` count.
-/

namespace Vuknob
namespace Space

/-- If the call throws, the space is what it was. -/
def Atomic (σ : Space) (r : Outcome Unit) : Prop :=
  ∀ e σ', r = some (.error e, σ') → σ' = σ

/-- `internal_attach_input` never leaves traces when it throws. -/
theorem internalAttachInput_atomic (σ : Space) (this : MachineId) (m : Option MachineId)
    (o i : StdString) : σ.Atomic (σ.internalAttachInput this m o i) := by
  intro e σ' h
  rcases internalAttachInput_cases h with ⟨_, _, heq⟩ | ⟨m₀, t, s, σ₁, _, _, _, hf⟩
  · exact heq
  · cases (finishAttach_eq_some hf).1

/-- A detachment that throws finds nothing it could have changed. A signal that is not on
the list is not counted; and for one that is there, either its source is counted, so that
nothing is thrown, or it has neither a count nor neighbours and is not the first. -/
def DetachesCleanly (σ : Space) (this : MachineId) (m : Option MachineId) (o i : StdString) :
    Prop :=
  ∀ m₀ t s k, σ.Names this m o i m₀ t s → t.input[i]? = some k →
    match Library.locate (σ.nextPtr this) s σ.signalCount (some k) with
    | none => True
    | some false => this ∉ (σ.signals s).attachedMachines
    | some true => m₀ ∈ t.dependant ∨ (this ∉ (σ.signals s).attachedMachines ∧
        σ.next this s = none ∧ σ.previous this s = none ∧ k ≠ s)

private theorem internalDetachInput_of_error {σ : Space} {this m₀ : MachineId}
    {m : Option MachineId} {o i : StdString} {t : Machine} {s k : SignalId} {e : JException}
    (hn : σ.Names this m o i m₀ t s) (hk : t.input[i]? = some k)
    (hu : (σ.detach s this).unlink k this s = some (.error e)) :
    σ.internalDetachInput this m o i = some (.error e, σ.detach s this) := by
  obtain ⟨source, hm, hs⟩ := hn.output
  obtain ⟨des, hdes⟩ := hn.input
  unfold internalDetachInput
  simp only [hn.source_ne_null, hm, hn.this_live, hs, hdes, hk, hu]

private theorem internalDetachInput_of_found {σ : Space} {this m₀ : MachineId}
    {m : Option MachineId} {o i : StdString} {t : Machine} {s k : SignalId}
    (hn : σ.Names this m o i m₀ t s) (hk : t.input[i]? = some k)
    (hu : (σ.detach s this).unlink k this s =
      some (.ok ((σ.detach s this).unlinkFound k this s))) :
    σ.internalDetachInput this m o i =
      (((σ.detach s this).unlinkFound k this s).2.setInput this i
        ((σ.detach s this).unlinkFound k this s).1).finishDetach this m₀ o i := by
  obtain ⟨source, hm, hs⟩ := hn.output
  obtain ⟨des, hdes⟩ := hn.input
  unfold internalDetachInput
  simp only [hn.source_ne_null, hm, hn.this_live, hs, hdes, hk, hu]

private theorem down_ne {c : Option Int} (h : Wiring.down c = c) : c = none := by
  cases c with
  | none => rfl
  | some c =>
    simp only [Wiring.down] at h
    split at h
    · cases h
    · simp at h

private theorem not_attached_of_detach {σ : Space} {s : SignalId} {d : MachineId}
    (h : (σ.wiring.countAttached d s Wiring.down).attached s d = σ.wiring.attached s d) :
    d ∉ (σ.signals s).attachedMachines := by
  have hnone : σ.wiring.attached s d = none := down_ne (by
    simpa [Wiring.countAttached] using h)
  rw [Std.ExtTreeMap.mem_iff_isSome_getElem?]
  simpa [wiring] using hnone

/-- The state when the `dependant` count turns out to be missing. -/
private theorem wiring_unlinked {σ : Space} {this : MachineId} {i : StdString}
    {s k : SignalId} (hlive : this ∈ σ.machines) :
    (((σ.detach s this).unlinkFound k this s).2.setInput this i
      ((σ.detach s this).unlinkFound k this s).1).wiring =
      ((σ.wiring.countAttached this s Wiring.down).unlink this s).setHead this i
        (if s = k then σ.next this s else some k) := by
  obtain ⟨hw, hhead⟩ := wiring_unlinkFound (σ.detach s this) k this s
  have hlive' : this ∈ ((σ.detach s this).unlinkFound k this s).2.machines := by
    rw [(machines_unlinkFound (σ.detach s this) k this s).1]
    exact hlive
  have hnext : (σ.detach s this).next this s = σ.next this s :=
    Option.some.inj (congrFun (nextPtr_detach σ s this this) s)
  rw [wiring_setInput hlive', hw, wiring_detach, hhead, hnext]

private theorem setNext_self {σ : Space} {m : MachineId} {s : SignalId} {v : Option SignalId}
    (h : σ.next m s = v) : σ.setNext m s v = σ := by
  subst h
  simp only [setNext, modifySignal, next, Function.update_eq_self]

private theorem setPrevious_self {σ : Space} {m : MachineId} {s : SignalId}
    {v : Option SignalId} (h : σ.previous m s = v) : σ.setPrevious m s v = σ := by
  subst h
  simp only [setPrevious, modifySignal, previous, Function.update_eq_self]

private theorem setInput_self {σ : Space} {this : MachineId} {i : StdString} {t : Machine}
    {k : SignalId} (ht : σ.machines[this]? = some t) (hk : t.input[i]? = some k) :
    σ.setInput this i (some k) = σ := by
  have hinput : t.input.insert i k = t.input := by
    apply Std.ExtTreeMap.ext_getElem?
    intro j
    rw [Std.ExtTreeMap.getElem?_insert]
    split
    · next he =>
      obtain rfl : i = j := by simpa using he
      exact hk.symm
    · rfl
  have hm : σ.machines.modify this (fun x ↦ { x with input := x.input.insert i k }) =
      σ.machines := by
    apply Std.ExtTreeMap.ext_getElem?
    intro p
    rw [Std.ExtTreeMap.getElem?_modify]
    split
    · next he =>
      obtain rfl : this = p := by simpa using he
      simp [ht, hinput]
    · rfl
  simp only [setInput, modifyMachine, hm]

/-- Nothing changes where the found signal has no count, no neighbours and is not first. -/
private theorem unlinked_eq_self {σ : Space} {this : MachineId} {i : StdString} {t : Machine}
    {s k : SignalId} (ht : σ.machines[this]? = some t) (hk : t.input[i]? = some k)
    (ha : this ∉ (σ.signals s).attachedMachines) (hn : σ.next this s = none)
    (hp : σ.previous this s = none) (hks : k ≠ s) :
    ((σ.detach s this).unlinkFound k this s).2.setInput this i
      ((σ.detach s this).unlinkFound k this s).1 = σ := by
  have hskip : (σ.skipNext this s).skipPrevious this s = σ := by
    have h₁ : σ.skipNext this s = σ := by simp [skipNext, hp]
    rw [h₁]
    simp [skipPrevious, hn]
  have hfound : σ.unlinkFound k this s = (some k, σ) := by
    unfold unlinkFound
    simp only [hskip, if_neg (Ne.symm hks), setNext_self hn, setPrevious_self hp]
  rw [detach_eq_self ha, hfound]
  exact setInput_self ht hk

private theorem atomic_of_clean {σ : Space} {this : MachineId} {m : Option MachineId}
    {o i : StdString} (hclean : σ.DetachesCleanly this m o i) :
    σ.Atomic (σ.internalDetachInput this m o i) := by
  intro e σ' h
  rcases internalDetachInput_cases h with ⟨_, _, heq⟩ | ⟨m₀, t, s, k, hn, hk, hr⟩
  · exact heq
  have hcase := hclean m₀ t s k hn hk
  have hloc : Library.locate ((σ.detach s this).nextPtr this) s (σ.detach s this).signalCount
      (some k) = Library.locate (σ.nextPtr this) s σ.signalCount (some k) := by
    rw [nextPtr_detach]
    rfl
  rcases hr with ⟨e', hu, _, rfl⟩ | ⟨head, σ₂, hu, hf⟩
  · unfold unlink at hu
    rw [hloc] at hu
    split at hu
    · cases hu
    · next hfalse =>
      rw [hfalse] at hcase
      exact detach_eq_self hcase
    · cases hu
  · unfold unlink at hu
    rw [hloc] at hu
    split at hu
    · cases hu
    · cases hu
    · next htrue =>
      rw [htrue] at hcase
      simp only [Option.some.injEq, Except.ok.injEq] at hu
      obtain ⟨t', ht', hfin⟩ := finishDetach_cases hf
      rcases hfin with ⟨_, _, hdep, rfl⟩ | ⟨hok, _⟩
      · -- The count of the source is missing, so it was missing before.
        have hlive : this ∈ σ.machines := mem_of_getElem? hn.this_live
        have hw := wiring_unlinked (i := i) (s := s) (k := k) hlive
        rw [hu] at hw
        have hd : σ.wiring.depend this m₀ = none := by
          have h₁ : (σ₂.setInput this i head).wiring.depend this m₀ = none := by
            simp [wiring, ht', hdep]
          rw [hw] at h₁
          exact h₁
        have hnot : m₀ ∉ t.dependant := by
          rw [Std.ExtTreeMap.mem_iff_isSome_getElem?]
          simpa [wiring, hn.this_live] using hd
        obtain ⟨ha, hnext, hprev, hks⟩ := hcase.resolve_left hnot
        have hself := unlinked_eq_self hn.this_live hk ha hnext hprev hks
        rw [hu] at hself
        exact hself
      · cases hok

private theorem clean_of_atomic {σ : Space} {this : MachineId} {m : Option MachineId}
    {o i : StdString} (hatomic : σ.Atomic (σ.internalDetachInput this m o i)) :
    σ.DetachesCleanly this m o i := by
  intro m₀ t s k hn hk
  have hlive : this ∈ σ.machines := mem_of_getElem? hn.this_live
  have hloc : Library.locate ((σ.detach s this).nextPtr this) s (σ.detach s this).signalCount
      (some k) = Library.locate (σ.nextPtr this) s σ.signalCount (some k) := by
    rw [nextPtr_detach]
    rfl
  cases hcase : Library.locate (σ.nextPtr this) s σ.signalCount (some k) with
  | none => trivial
  | some found =>
    rw [hcase] at hloc
    cases found with
    | false =>
      have hu : (σ.detach s this).unlink k this s =
          some (.error ⟨str "Failed to unlink signal, not in list."⟩) := by
        simp only [unlink, hloc]
      have heq := hatomic _ _ (internalDetachInput_of_error hn hk hu)
      apply not_attached_of_detach
      rw [← wiring_detach, heq]
    | true =>
      by_cases hdep : m₀ ∈ t.dependant
      · exact .inl hdep
      right
      -- The call throws because of the missing count, after the signal was unlinked.
      have hw := wiring_unlinked (i := i) (s := s) (k := k) hlive
      have hlive' := (shrinks_setInput ((σ.detach s this).unlinkFound k this s).2 this i
        ((σ.detach s this).unlinkFound k this s).1).live this
      rw [(machines_unlinkFound (σ.detach s this) k this s).1] at hlive'
      have hcall := internalDetachInput_of_found hn hk (by simp only [unlink, hloc])
      generalize ((σ.detach s this).unlinkFound k this s).2.setInput this i
        ((σ.detach s this).unlinkFound k this s).1 = ρ at hw hlive' hcall
      obtain ⟨t', ht'⟩ := Option.isSome_iff_exists.mp
        (Std.ExtTreeMap.mem_iff_isSome_getElem?.mp (hlive'.mpr hlive))
      have hnone : t'.dependant[m₀]? = none := by
        have h₁ : ρ.wiring.depend this m₀ = σ.wiring.depend this m₀ :=
          congrFun (congrFun (congrArg Wiring.depend hw) this) m₀
        simpa [wiring, ht', hn.this_live, Std.ExtTreeMap.getElem?_eq_none hdep] using h₁
      have hthrow : σ.internalDetachInput this m o i =
          some (.error ⟨str "[" ++ i ++ str "]: dependant count error!"⟩, ρ) := by
        rw [hcall]
        simp only [finishDetach, ht', hnone, throws]
      have heq := hatomic _ _ hthrow
      rw [heq] at hw
      refine ⟨?_, ?_, ?_, ?_⟩
      · apply not_attached_of_detach
        exact (congrFun (congrFun (congrArg Wiring.attached hw) s) this).symm
      · have h₁ := congrFun (congrFun (congrArg Wiring.next hw) this) s
        simpa [wiring, Wiring.setHead, Wiring.unlink] using h₁
      · have h₁ := congrFun (congrFun (congrArg Wiring.previous hw) this) s
        simpa [wiring, Wiring.setHead, Wiring.unlink] using h₁
      · rintro rfl
        have h₁ := congrFun (congrFun (congrArg Wiring.next hw) this) k
        have h₂ := congrFun (congrFun (congrArg Wiring.head hw) this) i
        have hnext : σ.next this k = none := by
          simpa [wiring, Wiring.setHead, Wiring.unlink] using h₁
        rw [head_eq hn.this_live, hk] at h₂
        simp [Wiring.setHead, hnext] at h₂

/-- In every space and for every argument, calls that throw leave the space as it was
exactly when the detachment is clean. -/
theorem failed_calls_atomic_iff (σ : Space) (this : MachineId) (m : Option MachineId)
    (o i : StdString) :
    (σ.Atomic (σ.internalAttachInput this m o i) ∧ σ.Atomic (σ.internalDetachInput this m o i)) ↔
      σ.DetachesCleanly this m o i :=
  ⟨fun h ↦ clean_of_atomic h.2,
    fun h ↦ ⟨internalAttachInput_atomic σ this m o i, atomic_of_clean h⟩⟩

/-- Detaching an output from the wrong input throws and loses the count of the output. -/
theorem failed_detach_not_atomic :
    ¬ ∀ (as : List Action) (σ : Space) (this : MachineId) (m : Option MachineId)
      (o i : StdString), Library.Run step (fun _ _ _ ↦ True) Space.empty as σ →
      σ.Atomic (σ.internalAttachInput this m o i) ∧
        σ.Atomic (σ.internalDetachInput this m o i) := by
  intro hall
  let crossed : List Action :=
    [.setupMachine 1 (.mono ["a", "b"] []) none, .setupMachine 2 (.mono [] ["x", "y"]) none,
      .attachInput 1 (some 2) (str "x") (str "a"), .attachInput 1 (some 2) (str "y") (str "b")]
  have heval : (Library.runAll step (fun _ _ _ ↦ true) Space.empty crossed).bind (fun σ ↦
      (σ.internalDetachInput 1 (some 2) (str "x") (str "b")).map fun r ↦
        (r.1.isOk, (σ.signals 0).attachedMachines[1]?, (r.2.signals 0).attachedMachines[1]?)) =
      some (false, some 1, none) := by decide +kernel
  obtain ⟨σ, hσ, h⟩ := Option.bind_eq_some_iff.mp heval
  obtain ⟨⟨r, σ'⟩, hr, h⟩ := Option.map_eq_some_iff.mp h
  simp only [Prod.mk.injEq] at h
  obtain ⟨hfail, hbefore, hafter⟩ := h
  have hrun := (Library.Run.of_runAll hσ).mono
    (o := fun _ _ _ ↦ True) fun _ _ _ _ ↦ trivial
  have hatomic := (hall crossed σ 1 (some 2) (str "x") (str "b") hrun).2
  cases r with
  | ok u => cases hfail
  | error e =>
    rw [hatomic e σ' hr, hbefore] at hafter
    cases hafter

end Space
end Vuknob
