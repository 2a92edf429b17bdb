import Vuknob.Machine.Creation
import Vuknob.Machine.Premix
import Vuknob.Machine.SignalPointers

/-!
# Executing a machine

`Machine::execute`, `src_jni/machine.cc:1343–1386`, up to its call of `fill_buffers`: the premixed
inputs are cleared, and the signals that are attached to them are added up in them. The signal of a
premixed input is created when a machine is first executed after something was attached.
-/

namespace Vuknob

namespace SignalData

/-- `SignalBase::internal_clear_buffer`, `src_jni/signal.cc:91–122`: a buffer has
`samples * channels` values. -/
def clear (s : SignalData) : SignalData :=
  match s.resolution with
  | .maxR => s
  | _ => { s with buffer := List.replicate s.buffer.length 0 }

/-- There is nothing in the buffer that clearing it would change. -/
def Silent (s : SignalData) : Prop := s.resolution ≠ .maxR → ∀ x ∈ s.buffer, x = 0

theorem clear_of_ne {s : SignalData} (h : s.resolution ≠ .maxR) :
    s.clear = { s with buffer := List.replicate s.buffer.length 0 } := by
  rw [clear]
  split
  · next hmax => exact absurd hmax h
  · rfl

theorem clear_of_eq {s : SignalData} (h : s.resolution = .maxR) : s.clear = s := by
  rw [clear, h]

theorem clear_eq_self_iff (s : SignalData) : s.clear = s ↔ s.Silent := by
  by_cases hmax : s.resolution = .maxR
  · exact ⟨fun _ h ↦ absurd hmax h, fun _ ↦ clear_of_eq hmax⟩
  · rw [clear_of_ne hmax]
    constructor
    · intro h _
      have hbuffer : List.replicate s.buffer.length 0 = s.buffer := congrArg buffer h
      exact List.eq_replicate_iff.mp hbuffer.symm |>.2
    · intro h
      rw [← List.eq_replicate_iff.mpr ⟨rfl, h hmax⟩]

theorem clear_clear (s : SignalData) : s.clear.clear = s.clear := by
  by_cases hmax : s.resolution = .maxR
  · rw [clear_of_eq hmax, clear_of_eq hmax]
  · rw [clear_eq_self_iff, clear_of_ne hmax]
    exact fun _ x hx ↦ List.eq_of_mem_replicate hx

end SignalData

/-- The machines with their premixed inputs and the values in the buffers of the signals. The
number of samples and the resolution of a signal are the defaults of its dimension:
`internal_set_defaults` writes them to all signals. -/
structure Rendering where
  space : Space
  premixedInput : MachineId → Std.ExtTreeMap StdString SignalId
  format : Dimension → Format
  buffer : SignalId → List Int

namespace Rendering

/-- The program has just started. -/
def initial : Rendering := ⟨.empty, fun _ ↦ ∅, fun _ ↦ ⟨0, .bits8, 0⟩, fun _ ↦ []⟩

/-- A signal with its buffer. -/
def signalData (ρ : Rendering) (s : SignalId) : SignalData :=
  let signal := ρ.space.signals s
  ⟨signal.channels, (ρ.format signal.dimension).samples, (ρ.format signal.dimension).resolution,
    ρ.buffer s⟩

/-- Write to the buffer of a signal. -/
def setBuffer (ρ : Rendering) (s : SignalId) (values : List Int) : Rendering :=
  { ρ with buffer := Function.update ρ.buffer s values }

/-- `s->clear_buffer()`. -/
def clearBuffer (ρ : Rendering) (s : SignalId) : Rendering :=
  ρ.setBuffer s (ρ.signalData s).clear.buffer

/-- Clear the buffers of the premixed inputs, `src_jni/machine.cc:1350–1358`. -/
def clearPremixed (ρ : Rendering) (m : MachineId) : Rendering :=
  ((ρ.premixedInput m).toList.map Prod.snd).foldl clearBuffer ρ

/-- Rounds of the loop over the channels after which no channel is left. -/
def rounds (s : SignalData) (ns : List SignalData) : Nat :=
  (ns.map (·.channels)).foldl max s.channels |>.toNat

/-- `premix` of the list from `head` on into the signal `p`. -/
def mixInto (addFloat : Int → Int → Int) (ρ : Rendering) (m : MachineId) (p head : SignalId) :
    Option Rendering := do
  let l ← ρ.space.inputList m head
  let s := ρ.signalData p
  let ns := l.map ρ.signalData
  let out ← SignalData.premix addFloat (rounds s ns) s ns
  some (ρ.setBuffer p out.buffer)

/-- The buffer of a new signal, `src_jni/signal.cc:975–1066`. That of a MIDI signal is not
cleared: it has whatever there was in memory. -/
def newBuffer (garbage : List Int) (d : Dimension) (f : Format) (channels : Int) : List Int :=
  match d with
  | .midi => garbage
  | _ => List.replicate (f.samples * channels).toNat 0

/-- Create the signal of a premixed input, `src_jni/machine.cc:1366–1379`. It is the buffer of the
first attached signal that is cleared. -/
def createPremixed (garbage : StdString → List Int) (ρ : Rendering) (m : MachineId) (t : Machine)
    (i : StdString) (des : Description) (s : SignalId) :
    Option (Except JException SignalId × Rendering) :=
  let d := (ρ.space.signals s).dimension
  match ρ.space.createSignal des.channels m (t.name ++ str "_" ++ i ++ str "_premix") d with
  | none => none
  | some (.error e, _) => some (.error e, ρ)
  | some (.ok p, space) =>
    let ρ₁ : Rendering := { ρ with
      space
      premixedInput := Function.update ρ.premixedInput m ((ρ.premixedInput m).insert i p) }
    let ρ₂ := ρ₁.setBuffer p (newBuffer (garbage i) d (ρ.format d) des.channels)
    some (.ok p, ρ₂.clearBuffer s)

/-- One round of the loop over the inputs. A description that is not there would be created, with
members that are not initialised. -/
def premixInput (addFloat : Int → Int → Int) (garbage : StdString → List Int) (m : MachineId)
    (t : Machine) (i : StdString) (s : SignalId) (ρ : Rendering) :
    Option (Except JException Unit × Rendering) :=
  match t.inputDescriptor[i]? with
  | none => none
  | some des =>
    if des.premix then
      match (ρ.premixedInput m)[i]? with
      | some p => (ρ.mixInto addFloat m p s).map fun ρ' ↦ (.ok (), ρ')
      | none =>
        match ρ.createPremixed garbage m t i des s with
        | none => none
        | some (.error e, ρ₁) => some (.error e, ρ₁)
        | some (.ok p, ρ₁) => (ρ₁.mixInto addFloat m p s).map fun ρ' ↦ (.ok (), ρ')
    else some (.ok (), ρ)

/-- The loop over the inputs, `src_jni/machine.cc:1362–1383`. -/
def premixInputs (addFloat : Int → Int → Int) (garbage : StdString → List Int) (m : MachineId)
    (t : Machine) : List (StdString × SignalId) → Rendering →
    Option (Except JException Unit × Rendering)
  | [], ρ => some (.ok (), ρ)
  | (i, s) :: l, ρ =>
    match premixInput addFloat garbage m t i s ρ with
    | none => none
    | some (.error e, ρ₁) => some (.error e, ρ₁)
    | some (.ok (), ρ₁) => premixInputs addFloat garbage m t l ρ₁

/-- `Machine::execute` up to its call of `fill_buffers`. -/
def execute (addFloat : Int → Int → Int) (garbage : StdString → List Int) (ρ : Rendering)
    (m : MachineId) : Option (Except JException Unit × Rendering) :=
  match ρ.space.machines[m]? with
  | none => none
  | some t => premixInputs addFloat garbage m t t.input.toList (ρ.clearPremixed m)

/-! ### Runs -/

/-- An operation on the network, with what is then in the buffers of new signals; the execution of
a machine; and everything else that writes to buffers, `fill_buffers` and `set_defaults`, of which
any result is possible. -/
inductive Command
  | change (a : Space.Action) (buffer : SignalId → List Int)
  | execute (m : MachineId) (garbage : StdString → List Int)
  | write (format : Dimension → Format) (buffer : SignalId → List Int)

/-- A machine that has just been constructed has no premixed inputs. -/
def constructed (premixedInput : MachineId → Std.ExtTreeMap StdString SignalId) :
    Space.Action → MachineId → Std.ExtTreeMap StdString SignalId
  | .setupMachine this _ _ => Function.update premixedInput this ∅
  | _ => premixedInput

/-- Carry out one command. -/
def step (addFloat : Int → Int → Int) (ρ : Rendering) :
    Command → Option (Except JException Unit × Rendering)
  | .change a buffer => (ρ.space.step a).map fun (r, space) ↦
    (r, { ρ with
      space
      premixedInput := constructed ρ.premixedInput a
      buffer := fun s ↦ if s < ρ.space.signalCount then ρ.buffer s else buffer s })
  | .execute m garbage => ρ.execute addFloat garbage m
  | .write format buffer => some (.ok (), { ρ with format, buffer })

/-! ### What a machine leaves alone -/

/-- `m` has the signal `s` for one of its premixed inputs. -/
def Owns (ρ : Rendering) (m : MachineId) (s : SignalId) : Prop :=
  ∃ i : StdString, (ρ.premixedInput m)[i]? = some s

/-- Of the signals there were, `m` has written to its premixed inputs only, and has cleared those
of `C`. The signals it has created are premixed inputs of its own. -/
structure Touches (m : MachineId) (C : SignalId → Prop) (ρ ρ' : Rendering) : Prop where
  machines : ρ'.space.machines = ρ.space.machines
  others : ∀ x, x ≠ m → ρ'.premixedInput x = ρ.premixedInput x
  count : ρ.space.signalCount ≤ ρ'.space.signalCount
  owned : ∀ p, ρ'.Owns m p → ρ.Owns m p ∨ ρ.space.signalCount ≤ p
  cleared : ∀ a < ρ.space.signalCount, ¬ ρ.Owns m a → C a →
    ρ'.signalData a = (ρ.signalData a).clear
  kept : ∀ a < ρ.space.signalCount, ¬ ρ.Owns m a → ¬ C a → ρ'.signalData a = ρ.signalData a

variable {addFloat : Int → Int → Int} {garbage : StdString → List Int} {m : MachineId}
  {ρ ρ' : Rendering}

namespace Touches

variable {C D : SignalId → Prop} {τ υ : Rendering}

theorem refl (m : MachineId) (ρ : Rendering) : Touches m (fun _ ↦ False) ρ ρ where
  machines := rfl
  others _ _ := rfl
  count := Nat.le_refl _
  owned _ := .inl
  cleared _ _ _ h := h.elim
  kept _ _ _ _ := rfl

theorem congr (h : Touches m C ρ τ) (hCD : ∀ a, C a ↔ D a) : Touches m D ρ τ where
  __ := h
  cleared a ha hown hD := h.cleared a ha hown ((hCD a).mpr hD)
  kept a ha hown hD := h.kept a ha hown fun hC ↦ hD ((hCD a).mp hC)

theorem trans (h : Touches m C ρ τ) (h' : Touches m D τ υ) :
    Touches m (fun a ↦ C a ∨ D a) ρ υ := by
  have hstill : ∀ a < ρ.space.signalCount, ¬ ρ.Owns m a →
      a < τ.space.signalCount ∧ ¬ τ.Owns m a := by
    intro a ha hown
    refine ⟨Nat.lt_of_lt_of_le ha h.count, fun hnew ↦ ?_⟩
    rcases h.owned a hnew with hold | hle
    · exact hown hold
    · omega
  refine ⟨h'.machines.trans h.machines, fun x hx ↦ (h'.others x hx).trans (h.others x hx),
    h.count.trans h'.count, fun p hp ↦ ?_, fun a ha hown hcleared ↦ ?_, fun a ha hown hkept ↦ ?_⟩
  · rcases h'.owned p hp with hold | hle
    · exact h.owned p hold
    · exact .inr (h.count.trans hle)
  · obtain ⟨ha', hown'⟩ := hstill a ha hown
    by_cases hC : C a
    · by_cases hD : D a
      · rw [h'.cleared a ha' hown' hD, h.cleared a ha hown hC, SignalData.clear_clear]
      · rw [h'.kept a ha' hown' hD, h.cleared a ha hown hC]
    · rw [h'.cleared a ha' hown' (hcleared.resolve_left hC), h.kept a ha hown hC]
  · obtain ⟨ha', hown'⟩ := hstill a ha hown
    rw [not_or] at hkept
    rw [h'.kept a ha' hown' hkept.2, h.kept a ha hown hkept.1]

/-- The same with nothing cleared in the second part. -/
theorem andThen (h : Touches m C ρ τ) (h' : Touches m (fun _ ↦ False) τ υ) : Touches m C ρ υ :=
  (h.trans h').congr fun _ ↦ or_iff_left id

end Touches

theorem signalData_setBuffer (ρ : Rendering) (s a : SignalId) (values : List Int) :
    (ρ.setBuffer s values).signalData a =
      if a = s then { ρ.signalData s with buffer := values } else ρ.signalData a := by
  have hbuffer : (ρ.setBuffer s values).buffer a = if a = s then values else ρ.buffer a :=
    Function.update_apply _ _ _ _
  change SignalData.mk _ _ _ ((ρ.setBuffer s values).buffer a) = _
  rw [hbuffer]
  split
  · next ha =>
    subst ha
    rfl
  · rfl

theorem signalData_clearBuffer (ρ : Rendering) (s a : SignalId) :
    (ρ.clearBuffer s).signalData a =
      if a = s then (ρ.signalData s).clear else ρ.signalData a := by
  have hclear : { ρ.signalData s with buffer := (ρ.signalData s).clear.buffer } =
      (ρ.signalData s).clear := by
    unfold SignalData.clear
    split <;> rfl
  rw [clearBuffer, signalData_setBuffer, hclear]

/-- Writing to a premixed input of `m`. -/
theorem touches_setBuffer {s : SignalId} (hown : ρ.Owns m s) (values : List Int) :
    Touches m (fun _ ↦ False) ρ (ρ.setBuffer s values) where
  machines := rfl
  others _ _ := rfl
  count := Nat.le_refl _
  owned _ := .inl
  cleared _ _ _ h := h.elim
  kept a _ ha _ := by
    have hne : a ≠ s := fun h ↦ ha (h ▸ hown)
    rw [signalData_setBuffer, if_neg hne]

theorem touches_clearBuffer (m : MachineId) (ρ : Rendering) (s : SignalId) :
    Touches m (· = s) ρ (ρ.clearBuffer s) where
  machines := rfl
  others _ _ := rfl
  count := Nat.le_refl _
  owned _ := .inl
  cleared a _ _ h := by rw [signalData_clearBuffer, if_pos h, h]
  kept a _ _ h := by rw [signalData_clearBuffer, if_neg h]

/-- Clearing the premixed inputs. -/
theorem touches_clearPremixed (m : MachineId) (ρ : Rendering) :
    Touches m (fun _ ↦ False) ρ (ρ.clearPremixed m) ∧
      (ρ.clearPremixed m).premixedInput = ρ.premixedInput := by
  have hall : ∀ l : List SignalId, (∀ s ∈ l, ρ.Owns m s) → ∀ τ : Rendering,
      τ.premixedInput = ρ.premixedInput → Touches m (fun _ ↦ False) ρ τ →
      Touches m (fun _ ↦ False) ρ (l.foldl clearBuffer τ) ∧
        (l.foldl clearBuffer τ).premixedInput = ρ.premixedInput := by
    intro l hl
    induction l with
    | nil => exact fun τ hτ h ↦ ⟨h, hτ⟩
    | cons s l ih =>
      intro τ hτ h
      obtain ⟨⟨i, hi⟩, hl⟩ := List.forall_mem_cons.mp hl
      exact ih hl (τ.clearBuffer s) hτ (h.andThen (touches_setBuffer ⟨i, hτ ▸ hi⟩ _))
  refine hall _ (fun s hs ↦ ?_) ρ rfl (.refl m ρ)
  obtain ⟨e, he, rfl⟩ := List.mem_map.mp hs
  exact ⟨e.1, Std.ExtTreeMap.mem_toList_iff_getElem?_eq_some.mp he⟩

theorem touches_mixInto {p head : SignalId} (hown : ρ.Owns m p)
    (h : ρ.mixInto addFloat m p head = some ρ') :
    Touches m (fun _ ↦ False) ρ ρ' ∧ ρ'.premixedInput = ρ.premixedInput := by
  obtain ⟨l, -, h⟩ := Option.bind_eq_some_iff.mp h
  obtain ⟨out, -, h⟩ := Option.bind_eq_some_iff.mp h
  obtain rfl := Option.some.inj h
  exact ⟨touches_setBuffer hown _, rfl⟩

/-- Entering a new signal for a premixed input. -/
theorem touches_enter {i : StdString} {p : SignalId} {space : Space}
    (hmachines : space.machines = ρ.space.machines)
    (hcount : ρ.space.signalCount ≤ space.signalCount) (hp : ρ.space.signalCount ≤ p)
    (hsignals : ∀ a < ρ.space.signalCount, space.signals a = ρ.space.signals a) :
    Touches m (fun _ ↦ False) ρ { ρ with
      space
      premixedInput := Function.update ρ.premixedInput m ((ρ.premixedInput m).insert i p) } where
  machines := hmachines
  others x hx := Function.update_of_ne hx _ _
  count := hcount
  owned q hq := by
    obtain ⟨j, hj⟩ := hq
    dsimp only at hj
    rw [Function.update_self, Std.ExtTreeMap.getElem?_insert] at hj
    split at hj
    · exact .inr (Option.some.inj hj ▸ hp)
    · exact .inl ⟨j, hj⟩
  cleared _ _ _ h := h.elim
  kept a ha _ _ := by
    change SignalData.mk _ (ρ.format (space.signals a).dimension).samples _ _ = _
    rw [hsignals a ha]
    rfl

/-- A signal that could be created is at the next address. -/
theorem createSignal_eq_ok {σ σ' : Space} {channels : Int} {name : StdString} {d : Dimension}
    {p : SignalId} (h : σ.createSignal channels m name d = some (.ok p, σ')) :
    p = σ.signalCount ∧ σ'.machines = σ.machines ∧ σ'.signalCount = σ.signalCount + 1 ∧
      ∀ a < σ.signalCount, σ'.signals a = σ.signals a := by
  unfold Space.createSignal at h
  split at h <;> obtain ⟨hp, rfl⟩ := Prod.mk.inj (Option.some.inj h)
  · exact ⟨(Except.ok.inj hp).symm, rfl, rfl,
      fun a ha ↦ Function.update_of_ne (Nat.ne_of_lt ha) _ _⟩
  · cases hp

/-- Creating the signal of a premixed input clears the first signal that is attached to it. -/
theorem touches_createPremixed {t : Machine} {i : StdString} {des : Description} {s p : SignalId}
    (h : ρ.createPremixed garbage m t i des s = some (.ok p, ρ')) :
    Touches m (· = s) ρ ρ' ∧ ρ'.premixedInput m = (ρ.premixedInput m).insert i p := by
  unfold createPremixed at h
  dsimp only at h
  split at h
  · cases h
  · cases h
  · next p' space hc =>
    obtain ⟨hp, rfl⟩ := Prod.mk.inj (Option.some.inj h)
    obtain rfl := Except.ok.inj hp
    obtain ⟨rfl, hmachines, hcount, hsignals⟩ := createSignal_eq_ok hc
    have henter := touches_enter (m := m) (i := i) hmachines (by omega) (Nat.le_refl _) hsignals
    have hinsert : (Function.update ρ.premixedInput m
        ((ρ.premixedInput m).insert i ρ.space.signalCount)) m =
        (ρ.premixedInput m).insert i ρ.space.signalCount := Function.update_self _ _ _
    refine ⟨((henter.trans (touches_setBuffer ⟨i, ?_⟩ _)).trans
      (touches_clearBuffer m _ s)).congr fun a ↦ ?_, hinsert⟩
    · dsimp only
      rw [hinsert, Std.ExtTreeMap.getElem?_insert_self]
    · rw [false_or, false_or]

/-- Executing `m` creates the signal of this premixed input. -/
def Opens (ρ : Rendering) (m : MachineId) (t : Machine) (i : StdString) : Prop :=
  (∃ des, t.inputDescriptor[i]? = some des ∧ des.premix = true) ∧ (ρ.premixedInput m)[i]? = none

/-- A round of the loop clears the first signal of an input whose premixed signal is new. -/
theorem touches_premixInput {t : Machine} {i : StdString} {s : SignalId}
    (h : premixInput addFloat garbage m t i s ρ = some (.ok (), ρ')) :
    Touches m (fun a ↦ a = s ∧ ρ.Opens m t i) ρ ρ' ∧
      ∀ j, j ≠ i → (ρ'.premixedInput m)[j]? = (ρ.premixedInput m)[j]? := by
  unfold premixInput at h
  split at h
  · cases h
  · next des hdes =>
    split at h
    · next hpremix =>
      split at h
      · next p hp =>
        obtain ⟨τ, hmix, h⟩ := Option.map_eq_some_iff.mp h
        obtain ⟨-, rfl⟩ := Prod.mk.inj h
        obtain ⟨htouch, hsame⟩ := touches_mixInto ⟨i, hp⟩ hmix
        refine ⟨htouch.congr fun a ↦ ⟨False.elim, fun hopen ↦ ?_⟩, fun j _ ↦ by rw [hsame]⟩
        rw [Opens, hp] at hopen
        cases hopen.2.2
      · next hnew =>
        split at h
        · cases h
        · cases h
        · next p ρ₁ hcreate =>
          obtain ⟨τ, hmix, h⟩ := Option.map_eq_some_iff.mp h
          obtain ⟨-, rfl⟩ := Prod.mk.inj h
          obtain ⟨hfirst, hinsert⟩ := touches_createPremixed hcreate
          obtain ⟨htouch, hsame⟩ := touches_mixInto
            ⟨i, by rw [hinsert, Std.ExtTreeMap.getElem?_insert_self]⟩ hmix
          refine ⟨(hfirst.andThen htouch).congr fun a ↦ ⟨fun ha ↦ ⟨ha, ⟨des, hdes, hpremix⟩, hnew⟩,
            And.left⟩, fun j hj ↦ ?_⟩
          rw [hsame, hinsert, Std.ExtTreeMap.getElem?_insert, if_neg (by simpa using Ne.symm hj)]
    · next hpremix =>
      obtain ⟨-, rfl⟩ := Prod.mk.inj (Option.some.inj h)
      refine ⟨(Touches.refl m _).congr fun a ↦ ⟨False.elim, fun hopen ↦ ?_⟩, fun _ _ ↦ rfl⟩
      obtain ⟨-, ⟨des', hdes', hpremix'⟩, -⟩ := hopen
      rw [hdes] at hdes'
      exact hpremix (Option.some.inj hdes' ▸ hpremix')

theorem touches_premixInputs {t : Machine} (l : List (StdString × SignalId))
    (hl : l.Pairwise (·.1 ≠ ·.1))
    (h : premixInputs addFloat garbage m t l ρ = some (.ok (), ρ')) :
    Touches m (fun a ↦ ∃ i, (i, a) ∈ l ∧ ρ.Opens m t i) ρ ρ' := by
  induction l generalizing ρ with
  | nil =>
    obtain ⟨-, rfl⟩ := Prod.mk.inj (Option.some.inj h)
    exact (Touches.refl m _).congr fun a ↦ ⟨False.elim, fun ⟨_, hmem, _⟩ ↦ by cases hmem⟩
  | cons e l ih =>
    obtain ⟨i, s⟩ := e
    obtain ⟨hfirst, hl⟩ := List.pairwise_cons.mp hl
    rw [premixInputs] at h
    split at h
    · cases h
    · cases h
    · next ρ₁ hround =>
      obtain ⟨hone, hsame⟩ := touches_premixInput hround
      refine (hone.trans (ih hl h)).congr fun a ↦ ?_
      -- The other inputs have other names, so nothing is entered for them meanwhile.
      have hopens : ∀ j, (j, a) ∈ l → (ρ₁.Opens m t j ↔ ρ.Opens m t j) := fun j hj ↦ by
        rw [Opens, Opens, hsame j (Ne.symm (hfirst _ hj))]
      constructor
      · rintro (⟨rfl, hopen⟩ | ⟨j, hj, hopen⟩)
        · exact ⟨i, List.mem_cons_self, hopen⟩
        · exact ⟨j, List.mem_cons_of_mem _ hj, (hopens j hj).mp hopen⟩
      · rintro ⟨j, hj, hopen⟩
        rcases List.mem_cons.mp hj with heq | hj
        · obtain ⟨rfl, rfl⟩ := Prod.mk.inj heq
          exact .inl ⟨rfl, hopen⟩
        · exact .inr ⟨j, hj, (hopens j hj).mpr hopen⟩

/-- What executing a machine does to the signals there were. -/
theorem touches_execute (h : ρ.execute addFloat garbage m = some (.ok (), ρ')) :
    ∃ t, ρ.space.machines[m]? = some t ∧
      Touches m (fun a ↦ ∃ i : StdString, t.input[i]? = some a ∧ ρ.Opens m t i) ρ ρ' := by
  unfold execute at h
  split at h
  · cases h
  · next t ht =>
    obtain ⟨hclear, hsame⟩ := touches_clearPremixed m ρ
    have hdistinct : t.input.toList.Pairwise (·.1 ≠ ·.1) :=
      (Std.ExtTreeMap.distinct_keys_toList (t := t.input)).imp fun h heq ↦ h (by simp [heq])
    refine ⟨t, ht, (hclear.trans (touches_premixInputs _ hdistinct h)).congr fun a ↦ ?_⟩
    rw [false_or]
    refine exists_congr fun i ↦ ?_
    rw [Opens, Opens, hsame, Std.ExtTreeMap.mem_toList_iff_getElem?_eq_some]

/-! ### Premixed inputs in every run -/

/-- A premixed input is a signal of its own: no other machine has it, and no pointer of the network
leads to it. -/
structure Private (ρ : Rendering) : Prop where
  leads : Space.Leads (fun s ↦ s < ρ.space.signalCount ∧ ∀ m, ¬ ρ.Owns m s) ρ.space.signalCount
    ρ.space
  created : ∀ {m p}, ρ.Owns m p → p < ρ.space.signalCount
  owner : ∀ {m m' p}, ρ.Owns m p → ρ.Owns m' p → m = m'

namespace Private

theorem initial : Private initial where
  leads := .empty _
  created h := by
    obtain ⟨i, hi⟩ := h
    simp [Rendering.initial] at hi
  owner h := by
    obtain ⟨i, hi⟩ := h
    simp [Rendering.initial] at hi

theorem setBuffer (h : Private ρ) (s : SignalId) (values : List Int) :
    Private (ρ.setBuffer s values) := ⟨h.leads, h.created, h.owner⟩

theorem clearPremixed (h : Private ρ) (m : MachineId) : Private (ρ.clearPremixed m) := by
  unfold Rendering.clearPremixed
  generalize (ρ.premixedInput m).toList.map Prod.snd = l
  induction l generalizing ρ with
  | nil => exact h
  | cons s l ih => exact ih (h.setBuffer s _)

theorem mixInto (h : Private ρ) {p head : SignalId}
    (hmix : ρ.mixInto addFloat m p head = some ρ') : Private ρ' := by
  obtain ⟨l, -, hmix⟩ := Option.bind_eq_some_iff.mp hmix
  obtain ⟨out, -, hmix⟩ := Option.bind_eq_some_iff.mp hmix
  obtain rfl := Option.some.inj hmix
  exact h.setBuffer p _

/-- An operation on the network gives no machine a premixed input. -/
theorem change (h : Private ρ) {a : Space.Action} {r : Except JException Unit} {space : Space}
    (hstep : ρ.space.step a = some (r, space)) (buffer : SignalId → List Int) :
    Private { ρ with space, premixedInput := constructed ρ.premixedInput a, buffer } := by
  have hown : ∀ {m p}, (∃ i : StdString, (constructed ρ.premixedInput a m)[i]? = some p) →
      ρ.Owns m p := by
    rintro m p ⟨i, hi⟩
    unfold constructed at hi
    split at hi
    · next this _ _ =>
      rw [Function.update_apply] at hi
      split at hi
      · simp at hi
      · exact ⟨i, hi⟩
    · exact ⟨i, hi⟩
  obtain ⟨n, hn, hleads⟩ := h.leads.step hstep
  have hcount : space.signalCount = n := hleads.count
  subst hcount
  refine ⟨hleads.mono fun s hs ↦ ?_, fun hp ↦ Nat.lt_of_lt_of_le (h.created (hown hp)) hn,
    fun hp hp' ↦ h.owner (hown hp) (hown hp')⟩
  rcases hs with ⟨hlt, hnone⟩ | ⟨hle, hlt⟩
  · exact ⟨Nat.lt_of_lt_of_le hlt hn, fun m hm ↦ hnone m (hown hm)⟩
  · exact ⟨hlt, fun m hm ↦ Nat.not_lt.mpr hle (h.created (hown hm))⟩

/-- A new premixed input is at an address that nothing points to yet. -/
theorem createPremixed (h : Private ρ) {t : Machine} {i : StdString} {des : Description}
    {s : SignalId} {r : Except JException SignalId}
    (hcreate : ρ.createPremixed garbage m t i des s = some (r, ρ')) : Private ρ' := by
  unfold Rendering.createPremixed at hcreate
  dsimp only at hcreate
  split at hcreate
  · cases hcreate
  · obtain ⟨-, rfl⟩ := Prod.mk.inj (Option.some.inj hcreate)
    exact h
  · next p space hc =>
    obtain ⟨-, rfl⟩ := Prod.mk.inj (Option.some.inj hcreate)
    obtain ⟨e, he, -⟩ | ⟨hp, -, hleads⟩ := h.leads.createSignal hc
    · cases he
    obtain rfl := Except.ok.inj hp
    refine setBuffer (setBuffer ?_ _ _) _ _
    have hown : ∀ {x q}, (∃ j : StdString, (Function.update ρ.premixedInput m
        ((ρ.premixedInput m).insert i ρ.space.signalCount) x)[j]? = some q) →
        ρ.Owns x q ∨ x = m ∧ q = ρ.space.signalCount := by
      rintro x q ⟨j, hj⟩
      rw [Function.update_apply] at hj
      split at hj
      · next hx =>
        rw [Std.ExtTreeMap.getElem?_insert] at hj
        split at hj
        · exact .inr ⟨hx, (Option.some.inj hj).symm⟩
        · exact .inl ⟨j, hx ▸ hj⟩
      · exact .inl ⟨j, hj⟩
    have hcount : space.signalCount = ρ.space.signalCount + 1 := hleads.count
    refine ⟨?_, fun hq ↦ ?_, fun {x y q} hx hy ↦ ?_⟩
    · dsimp only
      rw [hcount]
      refine hleads.mono fun a ha ↦ ⟨Nat.lt_succ_of_lt ha.1, fun x hx ↦ ?_⟩
      rcases hown hx with hold | ⟨-, rfl⟩
      · exact ha.2 x hold
      · exact Nat.lt_irrefl _ ha.1
    · refine Nat.lt_of_lt_of_eq ?_ hcount.symm
      rcases hown hq with hold | ⟨-, rfl⟩
      · exact Nat.lt_succ_of_lt (h.created hold)
      · exact Nat.lt_succ_self _
    · rcases hown hx with hx | ⟨rfl, hq⟩
      · rcases hown hy with hy | ⟨-, rfl⟩
        · exact h.owner hx hy
        · exact absurd (h.created hx) (Nat.lt_irrefl _)
      · rcases hown hy with hy | ⟨rfl, -⟩
        · rw [hq] at hy
          exact absurd (h.created hy) (Nat.lt_irrefl _)
        · rfl

theorem premixInput (h : Private ρ) {t : Machine} {i : StdString} {s : SignalId}
    {r : Except JException Unit}
    (hround : premixInput addFloat garbage m t i s ρ = some (r, ρ')) : Private ρ' := by
  unfold Rendering.premixInput at hround
  split at hround
  · cases hround
  · split at hround
    · split at hround
      · obtain ⟨τ, hmix, heq⟩ := Option.map_eq_some_iff.mp hround
        obtain ⟨-, rfl⟩ := Prod.mk.inj heq
        exact h.mixInto hmix
      · split at hround
        · cases hround
        · next hcreate =>
          obtain ⟨-, rfl⟩ := Prod.mk.inj (Option.some.inj hround)
          exact h.createPremixed hcreate
        · next hcreate =>
          obtain ⟨τ, hmix, heq⟩ := Option.map_eq_some_iff.mp hround
          obtain ⟨-, rfl⟩ := Prod.mk.inj heq
          exact (h.createPremixed hcreate).mixInto hmix
    · obtain ⟨-, rfl⟩ := Prod.mk.inj (Option.some.inj hround)
      exact h

theorem premixInputs {t : Machine} (l : List (StdString × SignalId)) (h : Private ρ)
    {r : Except JException Unit}
    (hloop : premixInputs addFloat garbage m t l ρ = some (r, ρ')) : Private ρ' := by
  induction l generalizing ρ with
  | nil =>
    obtain ⟨-, rfl⟩ := Prod.mk.inj (Option.some.inj hloop)
    exact h
  | cons e l ih =>
    rw [Rendering.premixInputs] at hloop
    split at hloop
    · cases hloop
    · next hround =>
      obtain ⟨-, rfl⟩ := Prod.mk.inj (Option.some.inj hloop)
      exact h.premixInput hround
    · next hround => exact ih (h.premixInput hround) hloop

theorem execute (h : Private ρ) {r : Except JException Unit}
    (hexecute : ρ.execute addFloat garbage m = some (r, ρ')) : Private ρ' := by
  unfold Rendering.execute at hexecute
  split at hexecute
  · cases hexecute
  · exact premixInputs _ (h.clearPremixed m) hexecute

theorem step (h : Private ρ) {c : Command} {r : Except JException Unit}
    (hstep : ρ.step addFloat c = some (r, ρ')) : Private ρ' := by
  cases c with
  | change a buffer =>
    obtain ⟨⟨r', space⟩, hspace, heq⟩ := Option.map_eq_some_iff.mp hstep
    obtain ⟨-, rfl⟩ := Prod.mk.inj heq
    exact h.change hspace _
  | execute m garbage => exact h.execute hstep
  | write format buffer =>
    obtain ⟨-, rfl⟩ := Prod.mk.inj (Option.some.inj hstep)
    exact ⟨h.leads, h.created, h.owner⟩

/-- In every run the premixed inputs are private. -/
theorem run {cs : List Command}
    (h : Library.Run (Rendering.step addFloat) (fun _ _ _ ↦ True) Rendering.initial cs ρ) :
    Private ρ :=
  h.invariant Private (fun _ _ _ _ hs _ hstep ↦ hs.step hstep) initial

end Private

/-! ### The sources of a machine -/

/-- Executing `m` changes nothing but its premixed inputs: the outputs of all machines and the
premixed inputs of the others keep their values, and so does every other signal. -/
structure Undisturbed (m : MachineId) (ρ ρ' : Rendering) : Prop where
  machines : ρ'.space.machines = ρ.space.machines
  others : ∀ x, x ≠ m → ρ'.premixedInput x = ρ.premixedInput x
  signals : ∀ s < ρ.space.signalCount, ¬ ρ.Owns m s → ρ'.signalData s = ρ.signalData s
  outputs : ∀ {x : MachineId} {t : Machine} {o : StdString} {s}, ρ.space.machines[x]? = some t →
    t.output[o]? = some s → ρ'.signalData s = ρ.signalData s
  premixed : ∀ {x s}, x ≠ m → ρ.Owns x s → ρ'.signalData s = ρ.signalData s

/-- Where `m` is to create the signal of a premixed input, there is silence in the first signal that
is attached to it. -/
def Quiet (ρ : Rendering) (m : MachineId) : Prop :=
  ∀ (t : Machine) (i : StdString) s, ρ.space.machines[m]? = some t → t.input[i]? = some s →
    ρ.Opens m t i → (ρ.signalData s).Silent

/-- In every state that a run can reach, executing a machine leaves its sources undisturbed exactly
if no new premixed input has a source that is not silent. -/
theorem undisturbed_iff {cs : List Command}
    (hrun : Library.Run (step addFloat) (fun _ _ _ ↦ True) initial cs ρ)
    (h : ρ.execute addFloat garbage m = some (.ok (), ρ')) :
    Undisturbed m ρ ρ' ↔ ρ.Quiet m := by
  have hprivate := Private.run hrun
  obtain ⟨t, ht, htouch⟩ := touches_execute h
  constructor
  · intro hundisturbed t' i s ht' hi hopen
    obtain rfl : t = t' := Option.some.inj (ht.symm.trans ht')
    obtain ⟨hcreated, hnone⟩ := hprivate.leads.input ht hi
    rw [← SignalData.clear_eq_self_iff, ← htouch.cleared s hcreated (hnone m) ⟨i, hi, hopen⟩]
    exact hundisturbed.signals s hcreated (hnone m)
  · intro hquiet
    have hsignals : ∀ s < ρ.space.signalCount, ¬ ρ.Owns m s →
        ρ'.signalData s = ρ.signalData s := by
      intro s hs hown
      by_cases hcleared : ∃ i : StdString, t.input[i]? = some s ∧ ρ.Opens m t i
      · obtain ⟨i, hi, hopen⟩ := hcleared
        rw [htouch.cleared s hs hown ⟨i, hi, hopen⟩, SignalData.clear_eq_self_iff]
        exact hquiet t i s ht hi hopen
      · exact htouch.kept s hs hown hcleared
    refine ⟨htouch.machines, htouch.others, hsignals, fun hx hs ↦ ?_, fun hne hown ↦ ?_⟩
    · obtain ⟨hcreated, hnone⟩ := hprivate.leads.output hx hs
      exact hsignals _ hcreated (hnone m)
    · exact hsignals _ (hprivate.created hown) fun hm ↦ hne (hprivate.owner hown hm)

/-- A sink with a premixed input that a mono machine is attached to, and a value in the buffer of
the output. -/
def attached (value : Int) : List Command :=
  let build : Space.Action → Command := fun a ↦ .change a fun _ ↦ [0]
  [build (.setupMachine 1 (.mono ["in"] []) none),
    build (.setupMachine 2 (.mono [] ["out"]) none),
    build (.attachInput 1 (some 2) (str "out") (str "in")),
    .write (fun _ ↦ ⟨1, .fx8p24bit, 44100⟩) fun _ ↦ [value]]

/-- The result applies to the first execution of a machine after something was attached. -/
theorem undisturbed_iff_attached :
    ∃ ρ ρ', Library.Run (step fun _ _ ↦ 0) (fun _ _ _ ↦ True) initial (attached 0) ρ ∧
      ρ.execute (fun _ _ ↦ 0) (fun _ ↦ []) 1 = some (.ok (), ρ') ∧
      (Undisturbed 1 ρ ρ' ↔ ρ.Quiet 1) := by
  have hsome : ((Library.runAll (step fun _ _ ↦ 0) (fun _ _ _ ↦ true) initial (attached 0)).bind
      fun ρ ↦ (ρ.execute (fun _ _ ↦ 0) (fun _ ↦ []) 1).map fun p ↦ p.1.isOk) = some true := by
    decide +kernel
  obtain ⟨ρ, hρ, h⟩ := Option.bind_eq_some_iff.mp hsome
  obtain ⟨⟨r, ρ'⟩, hexecute, hr⟩ := Option.map_eq_some_iff.mp h
  have hrun := (Library.Run.of_runAll hρ).mono (o := fun _ _ _ ↦ True) fun _ _ _ _ ↦ trivial
  cases r with
  | error e => cases hr
  | ok u => exact ⟨ρ, ρ', hrun, hexecute, undisturbed_iff hrun hexecute⟩

/-- The first execution after something was attached wipes out what its source has written. -/
theorem source_disturbed :
    ¬ ∀ (cs : List Command) (ρ ρ' : Rendering) (m : MachineId),
      Library.Run (step fun _ _ ↦ 0) (fun _ _ _ ↦ True) initial cs ρ →
      ρ.execute (fun _ _ ↦ 0) (fun _ ↦ []) m = some (.ok (), ρ') → Undisturbed m ρ ρ' := by
  intro hall
  have hvalues : ((Library.runAll (step fun _ _ ↦ 0) (fun _ _ _ ↦ true) initial (attached 7)).bind
      fun ρ ↦ (ρ.execute (fun _ _ ↦ 0) (fun _ ↦ []) 1).map fun p ↦
        (p.1.isOk, (ρ.space.machines[2]?.bind (·.output[str "out"]?)), ρ.buffer 0,
          p.2.buffer 0)) = some (true, some 0, [7], [0]) := by
    decide +kernel
  obtain ⟨ρ, hρ, h⟩ := Option.bind_eq_some_iff.mp hvalues
  obtain ⟨⟨r, ρ'⟩, hexecute, h⟩ := Option.map_eq_some_iff.mp h
  obtain ⟨hr, h⟩ := Prod.mk.inj h
  obtain ⟨houtput, h⟩ := Prod.mk.inj h
  obtain ⟨hbefore, hafter⟩ := Prod.mk.inj h
  have hrun := (Library.Run.of_runAll hρ).mono (o := fun _ _ _ ↦ True) fun _ _ _ _ ↦ trivial
  obtain ⟨t, ht, hs⟩ := Option.bind_eq_some_iff.mp houtput
  cases r with
  | error e => cases hr
  | ok u =>
    have hsame := congrArg SignalData.buffer ((hall _ ρ ρ' 1 hrun hexecute).outputs ht hs)
    change ρ'.buffer 0 = ρ.buffer 0 at hsame
    rw [hbefore, hafter] at hsame
    cases hsame

end Rendering
end Vuknob
