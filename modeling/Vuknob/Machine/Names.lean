import Vuknob.Machine.Tight

/-!
# Names of machines

A machine that is created anew is named after the number of machines there are
(`src_jni/machine.cc:1174–1180`); one that is loaded or sequences another one is given its
name. Project files and the clearing of a project know machines by their names only, and
look them up with `internal_get_by_name` (`src_jni/machine.cc:1959–1972`).
-/

namespace Vuknob
namespace Space

/-! ### Looking up a name -/

/-- `Machine::internal_get_by_name`, `src_jni/machine.cc:1959–1972`. A match is read through the
static iterator `i`, which nothing ever sets. -/
def internalGetByName (σ : Space) (name : StdString) : Option (Option MachineId) :=
  match σ.machines.toList.find? fun e ↦ e.2.name = name with
  | some _ => none
  | none => some none

/-- Destroy the machines of the given names, `src_jni/machine.cc:2253–2257` and
`src_jni/machine_project_entry.cc:98–102`. A machine that went with an earlier one is not
found any more. -/
def destroyNamed : List StdString → Space → Outcome Unit
  | [], σ => σ.returns ()
  | name :: names, σ =>
    match σ.internalGetByName name with
    | none => none
    | some none => destroyNamed names σ
    | some (some m) =>
      match σ.internalDisconnectAndDestroy m with
      | some (.ok (), σ') => destroyNamed names σ'
      | r => r

/-- The names of the machines in the set. -/
def machineNames (σ : Space) : List StdString := σ.machines.toList.map fun e ↦ e.2.name

/-- `Machine::destroy_all_machines`, `src_jni/machine.cc:2238–2258`. -/
def destroyAllMachines (σ : Space) : Outcome Unit := destroyNamed σ.machineNames σ

/-- The start of `ProjectEntry::parse_xml`, `src_jni/machine_project_entry.cc:87–104`. -/
def clearProject (σ : Space) : Outcome Unit := destroyNamed σ.machineNames σ

/-- The lookup returns the machine of this name, or null when there is none. -/
def Finds (σ : Space) (name : StdString) : Prop :=
  ∃ r, σ.internalGetByName name = some r ∧
    (∀ m, r = some m → ∃ x, σ.machines[m]? = some x ∧ x.name = name) ∧
    (r = none → ∀ (p : MachineId) x, σ.machines[p]? = some x → x.name ≠ name)

/-- The call empties the set, destroying every machine once. -/
def Clears (σ : Space) (call : Outcome Unit) : Prop :=
  ∃ σ' gone, call = some (.ok (), σ') ∧ σ'.machines = ∅ ∧ gone.Nodup ∧
    (∀ p, p ∈ gone ↔ p ∈ σ.machines) ∧ σ'.unregistered = σ.unregistered ++ gone

/-- A name that no machine has is looked up correctly. -/
theorem internalGetByName_of_unused {σ : Space} {name : StdString}
    (h : ∀ (p : MachineId) x, σ.machines[p]? = some x → x.name ≠ name) :
    σ.internalGetByName name = some none := by
  unfold internalGetByName
  rw [List.find?_eq_none.mpr]
  intro e he
  have hx := h e.1 e.2 (Std.ExtTreeMap.mem_toList_iff_getElem?_eq_some.mp he)
  simpa using hx

theorem internalGetByName_of_used {σ : Space} {p : MachineId} {x : Machine}
    (h : σ.machines[p]? = some x) : σ.internalGetByName x.name = none := by
  unfold internalGetByName
  split
  · rfl
  · next hnone =>
    have hx := List.find?_eq_none.mp hnone (p, x)
      (Std.ExtTreeMap.mem_toList_iff_getElem?_eq_some.mpr h)
    simp at hx

theorem finds_iff (σ : Space) (name : StdString) :
    σ.Finds name ↔ ∀ (p : MachineId) x, σ.machines[p]? = some x → x.name ≠ name := by
  constructor
  · rintro ⟨r, hr, _⟩ p x hx rfl
    rw [internalGetByName_of_used hx] at hr
    cases hr
  · intro h
    exact ⟨none, internalGetByName_of_unused h, by simp, fun _ ↦ h⟩

/-- The first name is that of a machine, and looking it up has no defined result. -/
theorem destroyNamed_machineNames {σ : Space} (h : σ.machines ≠ ∅) :
    destroyNamed σ.machineNames σ = none := by
  cases hl : σ.machines.toList with
  | nil => exact absurd (Std.ExtTreeMap.toList_eq_nil_iff.mp hl) h
  | cons e l =>
    have he : σ.machines[e.1]? = some e.2 :=
      Std.ExtTreeMap.mem_toList_iff_getElem?_eq_some.mp (by simp [hl])
    simp only [machineNames, hl, List.map_cons, destroyNamed, internalGetByName_of_used he]

theorem clears_iff (σ : Space) :
    σ.Clears (destroyNamed σ.machineNames σ) ↔ σ.machines = ∅ := by
  constructor
  · rintro ⟨σ', gone, hcall, _⟩
    by_contra hne
    rw [destroyNamed_machineNames hne] at hcall
    cases hcall
  · intro h
    refine ⟨σ, [], ?_, h, .nil, by simp [h], by simp⟩
    have hnames : σ.machineNames = [] := by simp [machineNames, h]
    rw [hnames]
    rfl

/-- Both ways to clear a project work exactly where there is nothing to clear, and the lookup
exactly for names that no machine has. -/
theorem clearing_works_iff (σ : Space) :
    (σ.Clears σ.destroyAllMachines ↔ σ.machines = ∅) ∧
      (σ.Clears σ.clearProject ↔ σ.machines = ∅) ∧
      ∀ name, σ.Finds name ↔ ∀ (p : MachineId) x, σ.machines[p]? = some x → x.name ≠ name :=
  ⟨clears_iff σ, clears_iff σ, finds_iff σ⟩

/-- One machine without any connections is enough. -/
theorem project_not_cleared :
    ¬ ∀ (as : List Action) (σ : Space),
      Library.Run step (fun _ _ _ ↦ True) Space.empty as σ → σ.machineNames.Nodup →
      σ.TightForest →
      σ.Clears σ.destroyAllMachines ∧ σ.Clears σ.clearProject ∧ ∀ name, σ.Finds name := by
  intro hall
  let single : List Action := [.setupMachine 1 (.mono [] ["out"]) none]
  have heval : (Library.runAll step (fun _ _ _ ↦ true) Space.empty single).map (fun σ ↦
      (σ.machines.keys, σ.machineNames, σ.tight 1)) = some ([1], [str "m#0:unit"], []) := by
    decide +kernel
  obtain ⟨σ, hσ, h⟩ := Option.map_eq_some_iff.mp heval
  obtain ⟨hkeys, hnames, htight⟩ : σ.machines.keys = [1] ∧ σ.machineNames = [str "m#0:unit"] ∧
      σ.tight 1 = [] := by simpa using h
  have hlive : ∀ p, p ∈ σ.machines ↔ p = 1 := fun p ↦ by
    rw [← Std.ExtTreeMap.mem_keys, hkeys, List.mem_singleton]
  have hnone : ∀ p, σ.tight p = [] := by
    intro p
    refine List.eq_nil_iff_forall_not_mem.mpr fun q hq ↦ ?_
    rw [(hlive p).mp (mem_of_tight hq), htight] at hq
    cases hq
  have hempty := (clears_iff σ).mp (hall single σ
    ((Library.Run.of_runAll hσ).mono fun _ _ _ _ ↦ trivial) (by rw [hnames]; decide)
    (tightForest_of_none hnone)).1
  have hone : 1 ∈ σ.machines := (hlive 1).mpr rfl
  rw [hempty] at hone
  simp at hone

/-! ### How machines come by their names -/

/-- How a machine was named: `baseName` when there were `count` machines, or as it was told. -/
inductive Made
  | generated (count : Nat) (baseName : StdString)
  | given (name : StdString)
  deriving DecidableEq

/-- The name, `src_jni/machine.cc:1174–1180`. -/
def Made.name : Made → StdString
  | .generated count baseName => str "m#" ++ decimal count ++ str ":" ++ baseName
  | .given name => name

/-- Two machines that were named by the same count and base name clash, and so do two that were
given the same name. -/
def Made.clashes : Made → Made → Bool
  | .generated n a, .generated m b => n = m && a = b
  | .given a, .given b => a = b
  | .generated n a, .given b => b = (Made.generated n a).name
  | .given a, .generated m b => a = (Made.generated m b).name

theorem Made.name_inj {n m : Nat} {a b : StdString}
    (h : (Made.generated n a).name = (Made.generated m b).name) : n = m ∧ a = b := by
  refine decimal_append_inj (c := 58) (by decide) (@List.append_cancel_left _ (str "m#") _ _ ?_)
  simpa [name, show str ":" = [58] from by decide] using h

theorem Made.clashes_iff (a b : Made) : a.clashes b = true ↔ a.name = b.name := by
  cases a with
  | generated n a =>
    cases b with
    | generated m b =>
      simp only [clashes, Bool.and_eq_true, decide_eq_true_eq]
      constructor
      · rintro ⟨rfl, rfl⟩
        rfl
      · exact name_inj
    | given b =>
      simp only [clashes, decide_eq_true_eq]
      exact eq_comm
  | given a =>
    cases b with
    | generated m b => exact decide_eq_true_iff
    | given b => exact decide_eq_true_iff

/-- Machines that are left have the names they had. -/
def NamesKept (σ σ' : Space) : Prop :=
  ∀ (p : MachineId) x', σ'.machines[p]? = some x' →
    ∃ x, σ.machines[p]? = some x ∧ x'.name = x.name

theorem namesKept_of_machines_eq {σ σ' : Space} (h : σ'.machines = σ.machines) :
    NamesKept σ σ' := fun _ x' hx ↦ ⟨x', h ▸ hx, rfl⟩

theorem namesKept_modifyMachine (σ : Space) (p : MachineId) (f : Machine → Machine)
    (hf : ∀ x, (f x).name = x.name) : NamesKept σ (σ.modifyMachine p f) := by
  intro q x' hx
  rw [modifyMachine, Std.ExtTreeMap.getElem?_modify] at hx
  split at hx
  · next he =>
    obtain rfl : p = q := by simpa using he
    obtain ⟨x, hold, rfl⟩ := Option.map_eq_some_iff.mp hx
    exact ⟨x, hold, hf x⟩
  · exact ⟨x', hx, rfl⟩

theorem kept_names : KeptByDestroying NamesKept where
  refl _ := namesKept_of_machines_eq rfl
  trans h₁ h₂ p x'' hx := by
    obtain ⟨x', hx', heq'⟩ := h₂ p x'' hx
    obtain ⟨x, hx, heq⟩ := h₁ p x' hx'
    exact ⟨x, hx, heq'.trans heq⟩
  signals hm _ _ := namesKept_of_machines_eq hm
  detached _ _ _ _ _ := namesKept_of_machines_eq rfl
  countDown σ this _ := namesKept_modifyMachine σ this _ fun _ ↦ rfl
  setInput σ this _ _ := namesKept_modifyMachine σ this _ fun _ ↦ rfl
  recalculate {σ σ'} h p x' hx := by
    rw [getElem?_of_network (network_recalculateRenderChain h) p] at hx
    obtain ⟨x, hold, rfl⟩ := Option.map_eq_some_iff.mp hx
    exact ⟨x, hold, rfl⟩
  setTight σ p _ := namesKept_modifyMachine σ p _ fun _ ↦ rfl
  deregister {σ σ' m r} h p x' hx := by
    have herase : ∀ τ : Space, τ.machines = σ.machines.erase m → τ.machines[p]? = some x' →
        ∃ x, σ.machines[p]? = some x ∧ x'.name = x.name := by
      intro τ hτ hx
      rw [hτ, Std.ExtTreeMap.getElem?_erase] at hx
      split at hx
      · cases hx
      · exact ⟨x', hx, rfl⟩
    unfold internalDeregisterMachine at h
    split at h
    · dsimp only at h
      split at h
      · obtain ⟨_, rfl⟩ := Prod.mk.inj (Option.some.inj h)
        exact herase _ rfl hx
      · obtain ⟨_, rfl⟩ := Prod.mk.inj (Option.some.inj h)
        exact herase _ rfl hx
    · obtain ⟨_, rfl⟩ := Prod.mk.inj (Option.some.inj h)
      exact ⟨x', hx, rfl⟩

theorem namesKept_internalAttachInput {σ σ' : Space} {this : MachineId} {m : Option MachineId}
    {o i : StdString} {r : Except JException Unit}
    (h : σ.internalAttachInput this m o i = some (r, σ')) : NamesKept σ σ' := by
  rcases internalAttachInput_cases h with ⟨e, _, rfl⟩ | ⟨m₀, t, s, σ₁, _, _, hl, hf⟩
  · exact kept_names.refl _
  have hlink : NamesKept σ σ₁ := by
    unfold linkInput at hl
    split at hl
    · obtain rfl := Except.ok.inj hl
      exact kept_names.setInput σ this i (some s)
    · exact namesKept_of_machines_eq (machines_link hl).1
  obtain ⟨_, σ₃, hrec, rfl⟩ := finishAttach_eq_some hf
  have hcount : NamesKept σ₁ ((σ₁.attach s this).modifyMachine this fun x ↦
      { x with dependant := countUp x.dependant m₀ }) :=
    namesKept_modifyMachine (σ₁.attach s this) this _ fun _ ↦ rfl
  have hrec' : NamesKept _ σ₃ := kept_names.recalculate hrec
  exact kept_names.trans hlink (kept_names.trans hcount hrec')

end Space

/-! ### Sessions -/

open Space in
/-- A space, with how its machines came by their names. -/
structure Session where
  space : Space
  made : MachineId → Made

namespace Session

open Space

/-- No machines: the program has just started. -/
def empty : Session := ⟨Space.empty, fun _ ↦ .given []⟩

/-- The machine that a call creates, and how it is named. -/
def creates (s : Session) : Action → Option (MachineId × Made)
  | .setupMachine this spec _ =>
    some (this, if spec.baseNameIsName then .given spec.baseName
      else .generated s.space.machines.size spec.baseName)
  | _ => none

/-- Carry out one call. -/
def step (s : Session) (a : Action) : Option (Except JException Unit × Session) :=
  match s.space.step a with
  | none => none
  | some (r, σ) =>
    some (r, ⟨σ, match s.creates a with
      | none => s.made
      | some (this, how) => Function.update s.made this how⟩)

/-- A new machine clashes with no machine in the set: if it is named by the number of machines,
none of the same base name was created when there were as many; if it is given a name,
none has this name. -/
def unclaimed (s : Session) (a : Action) : Bool :=
  match s.creates a with
  | none => true
  | some (_, how) => s.space.machines.keys.all fun p ↦ !how.clashes (s.made p)

/-- The names are as recorded, and no two machines clash. -/
structure Distinct (s : Session) : Prop where
  recorded : ∀ (p : MachineId) x, s.space.machines[p]? = some x → x.name = (s.made p).name
  apart : ∀ p q, p ∈ s.space.machines → q ∈ s.space.machines → p ≠ q →
    (s.made p).name ≠ (s.made q).name

/-- Calls that create no machine. -/
theorem Distinct.of_kept {s : Session} (h : s.Distinct) {σ : Space} (hk : NamesKept s.space σ) :
    Distinct ⟨σ, s.made⟩ := by
  have hlive : ∀ p, p ∈ σ.machines → p ∈ s.space.machines := by
    intro p hp
    obtain ⟨x', hx'⟩ := Option.isSome_iff_exists.mp (Std.ExtTreeMap.mem_iff_isSome_getElem?.mp hp)
    obtain ⟨x, hx, _⟩ := hk p x' hx'
    exact mem_of_getElem? hx
  refine ⟨fun p x' hx' ↦ ?_, fun p q hp hq ↦ h.apart p q (hlive p hp) (hlive q hq)⟩
  obtain ⟨x, hx, heq⟩ := hk p x' hx'
  exact heq.trans (h.recorded p x hx)

/-- Creating a machine, under a name that is not in use if it succeeds. -/
theorem Distinct.setupMachine {s : Session} (h : s.Distinct) {this : MachineId}
    {spec : MachineSpec} {garbage : Option MachineId} {how : Made} {σ : Space}
    {r : Except JException Unit} (hcreates : s.creates (.setupMachine this spec garbage) =
      some (this, how))
    (hfree : ∀ p ∈ s.space.machines, how.name ≠ (s.made p).name)
    (hstep : s.space.setupMachine this spec garbage = some (r, σ)) :
    Distinct ⟨σ, Function.update s.made this how⟩ := by
  obtain ⟨hthis, hc⟩ := setupMachine_cases hstep
  have hne : ∀ p ∈ s.space.machines, p ≠ this := fun p hp heq ↦ hthis (heq ▸ hp)
  rcases hc with ⟨e, _, hc⟩ | ⟨output, σ₁, x, _, hc, hx, rfl⟩
  · have hm := (machines_createOutputs _ _ hc).1
    have hkept := h.of_kept (namesKept_of_machines_eq hm)
    refine ⟨fun p y hy ↦ ?_, fun p q hp hq ↦ ?_⟩
    · have hp := hne p (hm ▸ mem_of_getElem? hy)
      simpa only [Function.update_of_ne hp] using hkept.recorded p y hy
    · have hp' := hne p (hm ▸ hp)
      have hq' := hne q (hm ▸ hq)
      simpa only [Function.update_of_ne hp', Function.update_of_ne hq'] using
        hkept.apart p q hp hq
  · have hm := (machines_createOutputs _ _ hc).1
    have hname : x.name = how.name := by
      simp only [creates, Option.some.injEq, Prod.mk.injEq, true_and] at hcreates
      rw [← hcreates, hx, hm]
      split <;> rfl
    have hget : ∀ p : MachineId, (σ₁.machines.insert this x)[p]? =
        if p = this then some x else s.space.machines[p]? := by
      intro p
      rw [Std.ExtTreeMap.getElem?_insert, hm]
      by_cases hp : p = this
      · simp [hp]
      · simp [hp, Ne.symm hp]
    have hmem : ∀ p, p ∈ σ₁.machines.insert this x ↔ p = this ∨ p ∈ s.space.machines := by
      intro p
      rw [Std.ExtTreeMap.mem_insert, hm]
      simp [@eq_comm _ this]
    refine ⟨fun p y hy ↦ ?_, fun p q hp hq hpq ↦ ?_⟩
    · simp only [notify, hget] at hy
      split at hy
      · next hp =>
        obtain rfl := Option.some.inj hy
        simp [hp, hname]
      · next hp => simpa [hp] using h.recorded p y hy
    · simp only [notify, hmem] at hp hq
      rcases hp with rfl | hp
      · rcases hq with rfl | hq
        · exact absurd rfl hpq
        · simpa [Function.update_of_ne (hne q hq)] using hfree q hq
      · rcases hq with rfl | hq
        · simpa [Function.update_of_ne (hne p hp)] using (hfree p hp).symm
        · simpa [Function.update_of_ne (hne p hp), Function.update_of_ne (hne q hq)] using
            h.apart p q hp hq hpq

/-- A step whose new machine clashes with none keeps the names apart. -/
theorem step_distinct {s s' : Session} {a : Action} {r : Except JException Unit}
    (h : s.Distinct) (hfree : s.unclaimed a = true) (hstep : s.step a = some (r, s')) :
    s'.Distinct := by
  unfold step at hstep
  split at hstep
  · cases hstep
  · next r' σ hσ =>
    obtain ⟨rfl, rfl⟩ := Prod.mk.inj (Option.some.inj hstep)
    cases a with
    | setupMachine this spec garbage =>
      refine h.setupMachine rfl (fun p hp heq ↦ ?_) hσ
      simp only [unclaimed, creates, List.all_eq_true, Std.ExtTreeMap.mem_keys,
        Bool.not_eq_true'] at hfree
      have hclash := (Made.clashes_iff _ _).mpr heq
      rw [hfree p hp] at hclash
      cases hclash
    | registerSink m =>
      obtain ⟨_, rfl | rfl⟩ := registerSink_cases hσ
      · exact h
      · exact h.of_kept (namesKept_of_machines_eq rfl)
    | attachInput this m o i => exact h.of_kept (namesKept_internalAttachInput hσ)
    | detachInput this m o i => exact h.of_kept (kept_names.internalDetachInput hσ)
    | detachAllInputs this m => exact h.of_kept (kept_names.detachAllInputs hσ)
    | detachAllOutputs this => exact h.of_kept (kept_names.detachAllOutputs hσ)
    | tightlyConnect this m => exact h.of_kept (kept_names.tightlyConnect hσ)
    | disconnectAndDestroy m => exact h.of_kept (kept_names.disconnectAndDestroy _ hσ)

theorem distinct_empty : Session.empty.Distinct :=
  ⟨fun p x hx ↦ by simp [Session.empty, Space.empty] at hx,
    fun p q hp ↦ by simp [Session.empty, Space.empty] at hp⟩

/-- In every run in which no machine is created that clashes with one in the set, the names of
the machines are pairwise distinct. -/
theorem run_names_distinct {s : Session} {as : List Action}
    (h : Library.Run step (fun s a _ ↦ s.unclaimed a = true) Session.empty as s)
    (p q : MachineId) (x y : Machine) (hx : s.space.machines[p]? = some x)
    (hy : s.space.machines[q]? = some y) (hpq : p ≠ q) : x.name ≠ y.name := by
  have hd := h.invariant Distinct (fun s a r s' hs hfree hst ↦ step_distinct (a := a) hs hfree hst)
    distinct_empty
  rw [hd.recorded p x hx, hd.recorded q y hy]
  exact hd.apart p q (mem_of_getElem? hx) (mem_of_getElem? hy) hpq

/-- Two machines of the same kind, the first of which is destroyed before another one of a
different kind is created. -/
def replaced : List Action :=
  [.setupMachine 1 ⟨str "synth", false, ∅, ∅⟩ none, .setupMachine 2 ⟨str "synth", false, ∅, ∅⟩ none,
    .disconnectAndDestroy 1, .setupMachine 3 ⟨str "mixer", false, ∅, ∅⟩ none]

/-- The result applies where a machine of another kind takes the place of the first. -/
theorem run_names_distinct_replaced :
    ∃ s x y, Library.Run step (fun s a _ ↦ s.unclaimed a = true) Session.empty replaced s ∧
      s.space.machines[2]? = some x ∧ s.space.machines[3]? = some y ∧ x.name ≠ y.name := by
  have heval : ((Library.runAll step (fun s a _ ↦ s.unclaimed a) Session.empty replaced).bind
      fun s ↦ s.space.machines[2]?.bind fun x ↦ s.space.machines[3]?.map fun y ↦
        (s, x, y)).isSome = true := by decide +kernel
  obtain ⟨⟨s, x, y⟩, h⟩ := Option.isSome_iff_exists.mp heval
  obtain ⟨s', hs, h⟩ := Option.bind_eq_some_iff.mp h
  obtain ⟨x', hx, h⟩ := Option.bind_eq_some_iff.mp h
  obtain ⟨y', hy, h⟩ := Option.map_eq_some_iff.mp h
  have hrun := Library.Run.of_runAll hs
  exact ⟨s', x', y', hrun, hx, hy, run_names_distinct hrun 2 3 x' y' hx hy (by decide)⟩

/-- The number of machines goes down as well: the second of two equal machines has the name that
the next one is given when the first is destroyed. -/
theorem names_collide :
    ¬ ∀ (as : List Action) (s : Session) (p q : MachineId) (x y : Machine),
      Library.Run step (fun _ _ _ ↦ True) Session.empty as s → s.space.machines[p]? = some x →
      s.space.machines[q]? = some y → p ≠ q → x.name ≠ y.name := by
  intro hall
  let again : List Action :=
    [.setupMachine 1 ⟨str "synth", false, ∅, ∅⟩ none, .setupMachine 2 ⟨str "synth", false, ∅, ∅⟩ none,
      .disconnectAndDestroy 1, .setupMachine 3 ⟨str "synth", false, ∅, ∅⟩ none]
  have heval : (Library.runAll step (fun _ _ _ ↦ true) Session.empty again).bind (fun s ↦
      s.space.machines[2]?.bind fun x ↦ s.space.machines[3]?.map fun y ↦ (x.name, y.name)) =
      some (str "m#1:synth", str "m#1:synth") := by decide +kernel
  obtain ⟨s, hs, h⟩ := Option.bind_eq_some_iff.mp heval
  obtain ⟨x, hx, h⟩ := Option.bind_eq_some_iff.mp h
  obtain ⟨y, hy, h⟩ := Option.map_eq_some_iff.mp h
  obtain ⟨hxn, hyn⟩ := Prod.mk.inj h
  exact hall again s 2 3 x y ((Library.Run.of_runAll hs).mono fun _ _ _ _ ↦ trivial) hx hy
    (by decide) (hxn.trans hyn.symm)

end Session
end Vuknob
