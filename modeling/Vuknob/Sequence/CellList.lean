import Vuknob.Library.PointerList
import Vuknob.Sequence.State

/-!
# Lists of cells

`LinkedList`, `src_jni/linked_list.hh:20–86`, with its pointers: a cell is known by its number, and
all cells have a pointer to the next one, whatever it may hold. The loops have fuel; without it they
go on, and yield `none`.
-/

namespace Vuknob

open Library

/-- The head of a list, and what the `next` pointers of all cells hold. -/
structure CellList where
  head : Option Nat
  next : Nat → Option Nat

namespace CellList

variable {T : Type}

/-- From the head, the pointers lead through the cells of the list, and then there is a null
pointer. -/
def Leads (L : CellList) (cells : List Nat) : Prop :=
  IsList (fun c ↦ some (L.next c)) L.head cells

/-- The assignments at the end of `insert_element`, `src_jni/linked_list.hh:42–43`. -/
def link (newElement thisElement : Nat) (L : CellList) : CellList :=
  { L with
    next := Function.update (Function.update L.next newElement (L.next thisElement)) thisElement
      (some newElement) }

/-- The loop of `insert_element`, `src_jni/linked_list.hh:37–41`, and what follows it. -/
def insertAfter (lt : T → T → Bool) (value : Nat → T) (newElement : Nat) :
    Nat → Nat → CellList → Option CellList
  | 0, _, _ => none
  | fuel + 1, thisElement, L =>
    match L.next thisElement with
    | none => some (L.link newElement thisElement)
    | some next =>
      if lt (value thisElement) (value newElement) then
        insertAfter lt value newElement fuel next L
      else some (L.link newElement thisElement)

/-- `insert_element`, `src_jni/linked_list.hh:32–45`. -/
def insertElement (lt : T → T → Bool) (value : Nat → T) (fuel newElement : Nat) (L : CellList) :
    Option CellList :=
  match L.head with
  | none => some ⟨some newElement, Function.update L.next newElement none⟩
  | some head =>
    if lt (value newElement) (value head) then
      some ⟨some newElement, Function.update L.next newElement (some head)⟩
    else insertAfter lt value newElement fuel head L

/-- The loop of `drop_element`, `src_jni/linked_list.hh:64–67`, and what follows it. -/
def dropAfter (found : Nat → Bool) : Nat → Nat → CellList → Option (Option Nat × CellList)
  | 0, _, _ => none
  | fuel + 1, thisElement, L =>
    match L.next thisElement with
    | none => some (none, L)
    | some next =>
      if found next then
        some (some next, { L with next := Function.update L.next thisElement (L.next next) })
      else dropAfter found fuel next L

/-- `drop_element`, `src_jni/linked_list.hh:55–78`, with the cell for `func_on_drop`; `found` says
which cells equal the element. -/
def dropElement (found : Nat → Bool) (fuel : Nat) (L : CellList) : Option (Option Nat × CellList) :=
  match L.head with
  | none => some (none, L)
  | some head =>
    if found head then some (some head, { L with head := L.next head })
    else dropAfter found fuel head L

/-- The cells that `for_each`, `src_jni/linked_list.hh:80–86`, and `clear`,
`src_jni/linked_list.hh:47–53`, come to. -/
def cells (fuel : Nat) (L : CellList) : Option (List Nat) :=
  walk (fun c ↦ some (L.next c)) fuel L.head

/-! ## What the operations do -/

theorem leads_cons {L : CellList} {c : Nat} {cells : List Nat} :
    L.Leads (c :: cells) ↔ L.head = some c ∧ Leads { L with head := L.next c } cells := by
  constructor
  · rintro ⟨hhead, n, hn, hrest⟩
    obtain rfl := Option.some.inj hn
    exact ⟨hhead, hrest⟩
  · rintro ⟨hhead, hrest⟩
    exact ⟨hhead, L.next c, rfl, hrest⟩

theorem Leads.nodup {L : CellList} {cells : List Nat} (h : L.Leads cells) : cells.Nodup :=
  IsList.nodup h

/-- A list depends on its head and on the pointers of its own cells. -/
theorem Leads.congr {L L' : CellList} {cells : List Nat} (h : L.Leads cells)
    (hhead : L'.head = L.head) (hnext : ∀ c ∈ cells, L'.next c = L.next c) : L'.Leads cells := by
  rw [Leads, hhead]
  exact IsList.congr h fun c hc ↦ congrArg some (hnext c hc)

/-- With fuel for all of them, the cells are found. -/
theorem Leads.cells {L : CellList} {cells : List Nat} (h : L.Leads cells) {fuel : Nat}
    (hfuel : cells.length ≤ fuel) : L.cells fuel = some cells :=
  (walk_eq_some_iff _ _ _ _).mpr ⟨h, hfuel⟩

theorem link_next (L : CellList) (newElement thisElement c : Nat) :
    (L.link newElement thisElement).next c =
      if c = thisElement then some newElement
      else if c = newElement then L.next thisElement else L.next c := by
  show Function.update (Function.update L.next newElement _) thisElement _ c = _
  rw [Function.update_apply, Function.update_apply]

/-- The cell behind the first one, and the list from there on. -/
theorem leads_second {L : CellList} {c next : Nat} {rest : List Nat}
    (h : L.Leads (c :: next :: rest)) :
    L.next c = some next ∧ Leads { L with head := some next } (next :: rest) := by
  obtain ⟨-, hrest⟩ := leads_cons.mp h
  have hnext : L.next c = some next := (leads_cons.mp hrest).1
  exact ⟨hnext, hnext ▸ hrest⟩

/-- A new cell behind one that is in the list. -/
theorem leads_link {L : CellList} {newElement thisElement : Nat} {rest : List Nat}
    (h : L.Leads (thisElement :: rest)) (hnew : newElement ∉ thisElement :: rest) :
    (L.link newElement thisElement).Leads (thisElement :: newElement :: rest) := by
  have hthis := (List.nodup_cons.mp h.nodup).1
  obtain ⟨hhead, hrest⟩ := leads_cons.mp h
  have hne : newElement ≠ thisElement := fun he ↦ hnew (he ▸ List.mem_cons_self)
  have hfirst : (L.link newElement thisElement).next thisElement = some newElement := by
    rw [link_next, if_pos rfl]
  have hsecond : (L.link newElement thisElement).next newElement = L.next thisElement := by
    rw [link_next, if_neg hne, if_pos rfl]
  refine leads_cons.mpr ⟨hhead, leads_cons.mpr ⟨hfirst, hrest.congr hsecond fun c hc ↦ ?_⟩⟩
  have hc₁ : c ≠ thisElement := fun he ↦ hthis (he ▸ hc)
  have hc₂ : c ≠ newElement := fun he ↦ hnew (he ▸ List.mem_cons_of_mem _ hc)
  show (L.link newElement thisElement).next c = L.next c
  rw [link_next, if_neg hc₁, if_neg hc₂]

/-- Only pointers of some cells are written to. -/
def Frame (cells : List Nat) (L L' : CellList) : Prop := ∀ c ∉ cells, L'.next c = L.next c

/-- The loop goes on to a cell that is not smaller, or to the last one, and puts the new one behind
it. -/
theorem insertAfter_spec (lt : T → T → Bool) (value : Nat → T) {newElement thisElement fuel : Nat}
    {rest : List Nat} {L : CellList}
    (h : Leads { L with head := some thisElement } (thisElement :: rest))
    (hnew : newElement ∉ thisElement :: rest) (hfuel : rest.length < fuel) :
    ∃ L', insertAfter lt value newElement fuel thisElement L = some L' ∧ L'.head = L.head ∧
      Leads { L' with head := some thisElement }
        (LinkedList.insertAfter (fun a b ↦ lt (value a) (value b)) newElement thisElement rest) ∧
      Frame (newElement :: thisElement :: rest) L L' := by
  induction rest generalizing thisElement fuel with
  | nil =>
    obtain ⟨fuel, rfl⟩ : ∃ n, fuel = n + 1 := ⟨fuel - 1, by omega⟩
    have hend : L.next thisElement = none := (leads_cons.mp h).2
    refine ⟨L.link newElement thisElement, ?_, rfl, leads_link h hnew, ?_⟩
    · rw [insertAfter, hend]
    · intro c hc
      rw [List.mem_cons, List.mem_singleton, not_or] at hc
      rw [link_next, if_neg hc.2, if_neg hc.1]
  | cons next rest ih =>
    rw [List.length_cons] at hfuel
    obtain ⟨fuel, rfl⟩ : ∃ n, fuel = n + 1 := ⟨fuel - 1, by omega⟩
    have hnext : L.next thisElement = some next := (leads_second h).1
    have hgo : Leads { L with head := some next } (next :: rest) := (leads_second h).2
    have hthis := (List.nodup_cons.mp h.nodup).1
    simp only [insertAfter, hnext, LinkedList.insertAfter]
    split
    · have hnew' : newElement ∉ next :: rest := fun hmem ↦ hnew (List.mem_cons_of_mem _ hmem)
      obtain ⟨L', hL', hhead, hleads, hframe⟩ := ih hgo hnew' (by omega : rest.length < fuel)
      have hkept : L'.next thisElement = some next := by
        rw [hframe, hnext]
        rintro hmem
        rcases List.mem_cons.mp hmem with he | hmem
        · exact hnew (he ▸ List.mem_cons_self)
        · exact hthis hmem
      refine ⟨L', hL', hhead, leads_cons.mpr ⟨rfl, hkept ▸ hleads⟩, fun c hc ↦ ?_⟩
      refine hframe c fun hmem ↦ hc ?_
      rcases List.mem_cons.mp hmem with he | hmem
      · exact he ▸ List.mem_cons_self
      · exact List.mem_cons_of_mem _ (List.mem_cons_of_mem _ hmem)
    · refine ⟨L.link newElement thisElement, rfl, rfl, leads_link h hnew, fun c hc ↦ ?_⟩
      rw [link_next, if_neg fun he ↦ hc (by simp [he]), if_neg fun he ↦ hc (by simp [he])]

/-- The new cell comes to its place. -/
theorem insertElement_spec (lt : T → T → Bool) (value : Nat → T) {newElement fuel : Nat}
    {cells : List Nat} {L : CellList} (h : L.Leads cells) (hnew : newElement ∉ cells)
    (hfuel : cells.length ≤ fuel) :
    ∃ L', insertElement lt value fuel newElement L = some L' ∧
      L'.Leads (LinkedList.insertElement (fun a b ↦ lt (value a) (value b)) newElement cells) ∧
      Frame (newElement :: cells) L L' := by
  cases cells with
  | nil =>
    have hhead : L.head = none := h
    refine ⟨⟨some newElement, Function.update L.next newElement none⟩, ?_, ?_, fun c hc ↦ ?_⟩
    · rw [insertElement, hhead]
    · exact leads_cons.mpr ⟨rfl, Function.update_self ..⟩
    · have hne : c ≠ newElement := fun he ↦ hc (he ▸ List.mem_cons_self)
      exact Function.update_of_ne hne ..
  | cons head rest =>
    obtain ⟨hhead, -⟩ := leads_cons.mp h
    simp only [insertElement, hhead, LinkedList.insertElement]
    split
    · have hframe : ∀ c, c ≠ newElement →
          Function.update L.next newElement (some head) c = L.next c :=
        fun c hc ↦ Function.update_of_ne hc ..
      refine ⟨⟨some newElement, Function.update L.next newElement (some head)⟩, rfl, ?_, ?_⟩
      · refine leads_cons.mpr ⟨rfl, h.congr ?_ fun c hc ↦ hframe c fun he ↦ hnew (he ▸ hc)⟩
        rw [hhead]
        exact Function.update_self ..
      · exact fun c hc ↦ hframe c fun he ↦ hc (he ▸ List.mem_cons_self)
    · have hgo : Leads { L with head := some head } (head :: rest) := hhead ▸ h
      obtain ⟨L', hL', hhead', hleads, hframe⟩ := insertAfter_spec lt value hgo hnew hfuel
      refine ⟨L', hL', ?_, hframe⟩
      rwa [Leads, hhead', hhead]

/-- The loop takes out the first cell behind `thisElement` that is found. -/
theorem dropAfter_spec (found : Nat → Bool) {thisElement fuel : Nat} {rest : List Nat}
    {L : CellList} (h : Leads { L with head := some thisElement } (thisElement :: rest))
    (hfuel : rest.length < fuel) :
    ∃ L', dropAfter found fuel thisElement L = some (rest.find? found, L') ∧ L'.head = L.head ∧
      Leads { L' with head := some thisElement } (thisElement :: rest.eraseP found) ∧
      Frame (thisElement :: rest) L L' := by
  induction rest generalizing thisElement fuel with
  | nil =>
    obtain ⟨fuel, rfl⟩ : ∃ n, fuel = n + 1 := ⟨fuel - 1, by omega⟩
    have hend : L.next thisElement = none := (leads_cons.mp h).2
    refine ⟨L, ?_, rfl, h, fun _ _ ↦ rfl⟩
    rw [dropAfter, hend]
    rfl
  | cons next rest ih =>
    rw [List.length_cons] at hfuel
    obtain ⟨fuel, rfl⟩ : ∃ n, fuel = n + 1 := ⟨fuel - 1, by omega⟩
    have hnext : L.next thisElement = some next := (leads_second h).1
    have hgo : Leads { L with head := some next } (next :: rest) := (leads_second h).2
    have hthis := (List.nodup_cons.mp h.nodup).1
    simp only [dropAfter, hnext]
    by_cases hfound : found next = true
    · rw [if_pos hfound, List.find?_cons_of_pos hfound, List.eraseP_cons_of_pos hfound]
      refine ⟨_, rfl, rfl, leads_cons.mpr ⟨rfl, ?_⟩, fun c hc ↦ ?_⟩
      · refine (leads_cons.mp hgo).2.congr (Function.update_self ..) fun c hc ↦ ?_
        have hne : c ≠ thisElement := fun he ↦ hthis (he ▸ List.mem_cons_of_mem _ hc)
        exact Function.update_of_ne hne ..
      · have hne : c ≠ thisElement := fun he ↦ hc (he ▸ List.mem_cons_self)
        exact Function.update_of_ne hne ..
    · rw [if_neg hfound, List.find?_cons_of_neg hfound, List.eraseP_cons_of_neg hfound]
      obtain ⟨L', hL', hhead, hleads, hframe⟩ := ih hgo (by omega : rest.length < fuel)
      have hkept : L'.next thisElement = some next := (hframe thisElement hthis).trans hnext
      refine ⟨L', hL', hhead, leads_cons.mpr ⟨rfl, hkept ▸ hleads⟩, fun c hc ↦ ?_⟩
      exact hframe c fun hmem ↦ hc (List.mem_cons_of_mem _ hmem)

/-- The first cell that is found is taken out, and nothing where there is none. -/
theorem dropElement_spec (found : Nat → Bool) {fuel : Nat} {cells : List Nat} {L : CellList}
    (h : L.Leads cells) (hfuel : cells.length ≤ fuel) :
    ∃ L', dropElement found fuel L = some (cells.find? found, L') ∧
      L'.Leads (cells.eraseP found) ∧ Frame cells L L' := by
  cases cells with
  | nil =>
    have hhead : L.head = none := h
    refine ⟨L, ?_, h, fun _ _ ↦ rfl⟩
    rw [dropElement, hhead]
    rfl
  | cons head rest =>
    obtain ⟨hhead, hrest⟩ := leads_cons.mp h
    simp only [dropElement, hhead]
    by_cases hfound : found head = true
    · rw [if_pos hfound, List.find?_cons_of_pos hfound, List.eraseP_cons_of_pos hfound]
      exact ⟨_, rfl, hrest, fun _ _ ↦ rfl⟩
    · rw [if_neg hfound, List.find?_cons_of_neg hfound, List.eraseP_cons_of_neg hfound]
      have hgo : Leads { L with head := some head } (head :: rest) := hhead ▸ h
      obtain ⟨L', hL', hhead', hleads, hframe⟩ := dropAfter_spec found hgo hfuel
      refine ⟨L', hL', ?_, hframe⟩
      rwa [Leads, hhead', hhead]

end CellList

end Vuknob
