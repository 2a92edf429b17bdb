import Mathlib.Order.Defs.Unbundled
import Vuknob.Sequence.CellList

/-!
# Insertion in order

Where `insert_element`, `src_jni/linked_list.hh:32–45`, puts a new element. Its loop compares the
element it stands at, not the one behind it, and so goes one element further than
`drop_element` would.
-/

namespace Vuknob

namespace LinkedList

variable {T : Type}

/-- No element comes before one that is less. -/
def Sorted (lt : T → T → Bool) (l : List T) : Prop := l.Pairwise fun a b ↦ ¬lt b a

instance (lt : T → T → Bool) (l : List T) : Decidable (Sorted lt l) :=
  inferInstanceAs (Decidable (l.Pairwise fun a b ↦ ¬lt b a))

/-- No element is less than the new one, or none is greater, or some element is neither. -/
def FindsPlace (lt : T → T → Bool) (newElement : T) (l : List T) : Prop :=
  (∀ a ∈ l, ¬lt a newElement) ∨ (∀ a ∈ l, ¬lt newElement a) ∨
    ∃ a ∈ l, ¬lt a newElement ∧ ¬lt newElement a

instance (lt : T → T → Bool) (newElement : T) (l : List T) :
    Decidable (FindsPlace lt newElement l) :=
  inferInstanceAs (Decidable (_ ∨ _ ∨ _))

theorem sorted_cons {lt : T → T → Bool} {head : T} {rest : List T} :
    Sorted lt (head :: rest) ↔ (∀ a ∈ rest, ¬lt a head) ∧ Sorted lt rest :=
  List.pairwise_cons

section Order

variable (lt : T → T → Bool) [IsStrictWeakOrder T fun a b ↦ lt a b = true]

private theorem lt_asymm {a b : T} (h : lt a b) : ¬lt b a :=
  fun h' ↦ irrefl_of (fun a b ↦ lt a b = true) a (trans_of (fun a b ↦ lt a b = true) h h')

private theorem not_lt_self (a : T) : ¬lt a a := irrefl_of (fun a b ↦ lt a b = true) a

/-- "Not greater" is transitive. -/
private theorem not_lt_trans {a b c : T} (hab : ¬lt b a) (hbc : ¬lt c b) : ¬lt c a := by
  intro hca
  by_cases hlt : lt a b = true
  · exact hbc (trans_of (fun a b ↦ lt a b = true) hca hlt)
  · by_cases hlt' : lt b c = true
    · exact hab (trans_of (fun a b ↦ lt a b = true) hlt' hca)
    · have hincomp := @IsStrictWeakOrder.incomp_trans T (fun a b ↦ lt a b = true) _ a b c
        ⟨hlt, hab⟩ ⟨hlt', hbc⟩
      exact hincomp.2 hca

/-- Behind a greater element the new one is out of order. -/
private theorem not_sorted_insertAfter {newElement thisElement : T} (rest : List T)
    (h : lt newElement thisElement) :
    ¬Sorted lt (insertAfter lt newElement thisElement rest) := by
  have hnot : ¬lt thisElement newElement := lt_asymm lt h
  intro hsorted
  cases rest with
  | nil => exact (sorted_cons.mp hsorted).1 newElement List.mem_cons_self h
  | cons next rest =>
    rw [insertAfter, if_neg hnot] at hsorted
    exact (sorted_cons.mp hsorted).1 newElement List.mem_cons_self h

/-- With everything else greater, one element that is less has no place behind it. -/
private theorem not_findsPlace {newElement thisElement next : T} {rest : List T}
    (hrest : Sorted lt (next :: rest)) (hless : lt thisElement newElement)
    (hnext : lt newElement next) : ¬FindsPlace lt newElement (thisElement :: next :: rest) := by
  have hle : ∀ a ∈ next :: rest, ¬lt a next := by
    intro a ha
    rcases List.mem_cons.mp ha with rfl | ha
    · exact not_lt_self lt a
    · exact (sorted_cons.mp hrest).1 a ha
  rintro (hnone | hnone | ⟨a, ha, hless', hgreater⟩)
  · exact hnone thisElement List.mem_cons_self hless
  · exact hnone next (List.mem_cons_of_mem _ List.mem_cons_self) hnext
  · rcases List.mem_cons.mp ha with rfl | ha
    · exact hless' hless
    · exact not_lt_trans lt (hle a ha) hgreater hnext

/-- An element that is less changes nothing where the one behind it is not greater. -/
private theorem findsPlace_cons {newElement thisElement next : T} {rest : List T}
    (hless : lt thisElement newElement) (hnext : ¬lt newElement next) :
    FindsPlace lt newElement (next :: rest) ↔
      FindsPlace lt newElement (thisElement :: next :: rest) := by
  constructor
  · rintro (hnone | hnone | ⟨a, ha, hincomp⟩)
    · have hincomp : ¬lt next newElement ∧ ¬lt newElement next :=
        ⟨hnone next List.mem_cons_self, hnext⟩
      exact .inr (.inr ⟨next, List.mem_cons_of_mem _ List.mem_cons_self, hincomp⟩)
    · refine .inr (.inl fun a ha ↦ ?_)
      rcases List.mem_cons.mp ha with rfl | ha
      · exact lt_asymm lt hless
      · exact hnone a ha
    · exact .inr (.inr ⟨a, List.mem_cons_of_mem _ ha, hincomp⟩)
  · rintro (hnone | hnone | ⟨a, ha, hincomp⟩)
    · exact absurd hless (hnone thisElement List.mem_cons_self)
    · exact .inr (.inl fun a ha ↦ hnone a (List.mem_cons_of_mem _ ha))
    · rcases List.mem_cons.mp ha with rfl | ha
      · exact absurd hless hincomp.1
      · exact .inr (.inr ⟨a, ha, hincomp⟩)

/-- The loop at an element that is not greater than the new one. -/
private theorem sorted_insertAfter_iff {newElement thisElement : T} {rest : List T}
    (hsorted : Sorted lt (thisElement :: rest)) (hthis : ¬lt newElement thisElement) :
    Sorted lt (insertAfter lt newElement thisElement rest) ↔
      FindsPlace lt newElement (thisElement :: rest) := by
  induction rest generalizing thisElement with
  | nil =>
    have hpair : Sorted lt [thisElement, newElement] := by simpa [Sorted] using hthis
    refine iff_of_true hpair (.inr (.inl fun a ha ↦ ?_))
    rwa [List.mem_singleton.mp ha]
  | cons next rest ih =>
    obtain ⟨hfirst, hrest⟩ := sorted_cons.mp hsorted
    by_cases hless : lt thisElement newElement = true
    · rw [insertAfter, if_pos hless]
      have hperm := insertAfter_perm lt newElement next rest
      have hall : ∀ a ∈ insertAfter lt newElement next rest, ¬lt a thisElement := by
        intro a ha
        rcases List.mem_cons.mp (hperm.mem_iff.mp ha) with rfl | ha
        · exact hthis
        · exact hfirst a ha
      rw [sorted_cons, and_iff_right hall]
      by_cases hnext : lt newElement next = true
      · exact iff_of_false (not_sorted_insertAfter lt rest hnext)
          (not_findsPlace lt hrest hless hnext)
      · rw [ih hrest hnext, findsPlace_cons lt hless hnext]
    · -- neither is less: the new element stands right behind its equal
      rw [insertAfter, if_neg hless]
      refine iff_of_true ?_ (.inr (.inr ⟨thisElement, List.mem_cons_self, hless, hthis⟩))
      refine sorted_cons.mpr ⟨fun a ha ↦ ?_, sorted_cons.mpr ⟨fun a ha ↦ ?_, hrest⟩⟩
      · rcases List.mem_cons.mp ha with rfl | ha
        · exact hthis
        · exact hfirst a ha
      · exact not_lt_trans lt hless (hfirst a ha)

/-- The list stays in order where the new element finds its place, and only there. -/
theorem sorted_insertElement {newElement : T} {l : List T} (hsorted : Sorted lt l) :
    Sorted lt (insertElement lt newElement l) ↔ FindsPlace lt newElement l := by
  cases l with
  | nil =>
    refine iff_of_true (List.pairwise_singleton ..) (.inl ?_)
    simp
  | cons head rest =>
    by_cases hhead : lt newElement head = true
    · rw [insertElement, if_pos hhead]
      have hle : ∀ a ∈ head :: rest, ¬lt a newElement := by
        intro a ha
        rcases List.mem_cons.mp ha with rfl | ha
        · exact lt_asymm lt hhead
        · exact not_lt_trans lt (lt_asymm lt hhead) ((sorted_cons.mp hsorted).1 a ha)
      exact iff_of_true (sorted_cons.mpr ⟨hle, hsorted⟩) (.inl hle)
    · rw [insertElement, if_neg hhead]
      exact sorted_insertAfter_iff lt hsorted hhead

end Order

end LinkedList

/-- Elements that are compared by a number are in a strict weak order. -/
theorem strictWeakOrder_of_key {T : Type} (key : T → Int32) :
    IsStrictWeakOrder T fun a b ↦ decide (key a < key b) = true where
  irrefl a := by simp
  trans a b c := by
    simp only [decide_eq_true_eq, Int32.lt_iff_toInt_lt]
    omega
  incomp_trans a b c := by
    simp only [decide_eq_true_eq, Int32.lt_iff_toInt_lt]
    omega

instance : IsStrictWeakOrder Note fun a b ↦ Note.lt a b = true := strictWeakOrder_of_key Note.onAt

instance : IsStrictWeakOrder PatternInstance fun a b ↦ PatternInstance.lt a b = true :=
  strictWeakOrder_of_key PatternInstance.startAt

namespace CellList

open LinkedList

variable {T : Type}

/-- `insert_element` ends with a list in order that has the new element too. -/
def InsertsInOrder (lt : T → T → Bool) (value : Nat → T) (fuel newElement : Nat)
    (cells : List Nat) (L : CellList) : Prop :=
  ∃ L' cells', L.insertElement lt value fuel newElement = some L' ∧ L'.Leads cells' ∧
    cells'.Perm (newElement :: cells) ∧ Sorted lt (cells'.map value)

/-- The insertion always ends, and nothing is lost. The list stays in order exactly where the new
element finds its place. -/
theorem insertElement_inOrder_iff (lt : T → T → Bool) [IsStrictWeakOrder T fun a b ↦ lt a b = true]
    (value : Nat → T) {newElement fuel : Nat} {cells : List Nat} {L : CellList}
    (h : L.Leads cells) (hsorted : Sorted lt (cells.map value)) (hnew : newElement ∉ cells)
    (hfuel : cells.length ≤ fuel) :
    (∃ L' cells', L.insertElement lt value fuel newElement = some L' ∧ L'.Leads cells' ∧
      cells'.Perm (newElement :: cells)) ∧
    (L.InsertsInOrder lt value fuel newElement cells ↔
      FindsPlace lt (value newElement) (cells.map value)) := by
  obtain ⟨L', hL', hleads, -⟩ := insertElement_spec lt value h hnew hfuel
  have hperm := insertElement_perm (fun a b ↦ lt (value a) (value b)) newElement cells
  refine ⟨⟨L', _, hL', hleads, hperm⟩, ?_⟩
  rw [← sorted_insertElement lt hsorted, ← map_insertElement value]
  constructor
  · rintro ⟨L'', cells'', hL'', hleads'', -, hsorted''⟩
    obtain rfl : L' = L'' := Option.some.inj (hL'.symm.trans hL'')
    rwa [Library.IsList.unique hleads hleads'']
  · intro hsorted'
    exact ⟨L', _, hL', hleads, hperm, hsorted'⟩

/-- A note at 5 goes behind the one that is there. -/
theorem insertElement_inOrder_iff_notes :
    let value : Nat → Note := fun c ↦ ⟨0, 0, 100, 60, if c = 0 then 1 else 5, 2⟩
    let L : CellList := ⟨some 0, fun c ↦ if c = 0 then some 1 else none⟩
    L.InsertsInOrder Note.lt value 2 2 [0, 1] := by
  intro value L
  have h : L.Leads [0, 1] := ⟨rfl, some 1, rfl, rfl, none, rfl, rfl⟩
  exact ((insertElement_inOrder_iff Note.lt value h (by decide) (by decide) (by decide)).2).mpr
    (by decide)

/-- A note at 3 goes behind the one at 5, not between 1 and 5. -/
theorem insertElement_misplaces :
    let value : Nat → Note :=
      fun c ↦ ⟨0, 0, 100, 60, if c = 0 then 1 else if c = 1 then 5 else 3, 2⟩
    let L : CellList := ⟨some 0, fun c ↦ if c = 0 then some 1 else none⟩
    L.Leads [0, 1] ∧ Sorted Note.lt ([0, 1].map value) ∧ 2 ∉ [0, 1] ∧
      (L.insertElement Note.lt value 2 2).bind (cells 3) = some [0, 1, 2] ∧
      ¬L.InsertsInOrder Note.lt value 2 2 [0, 1] := by
  intro value L
  refine ⟨⟨rfl, some 1, rfl, rfl, none, rfl, rfl⟩, by decide, by decide, rfl, ?_⟩
  rintro ⟨L', cells', hL', hleads, hperm, hsorted⟩
  have hread : L'.cells 3 = some [0, 1, 2] := by
    rw [← Option.some.inj hL']
    rfl
  have hcells : cells' = [0, 1, 2] :=
    Option.some.inj ((hleads.cells hperm.length_eq.le).symm.trans hread)
  rw [hcells] at hsorted
  exact absurd hsorted (by decide)

end CellList

end Vuknob
