import Mathlib.Data.List.Perm.Subperm
import Vuknob.Library.Ownership
import Vuknob.Sequence.CellList
import Vuknob.Sequence.Pointers

/-!
# The cells of all sequences

What `Sequence::process_*`, `src_jni/engine_code/sequence.cc:589–702`, does to the cells that the
three static allocators hand out. A cell is known by its number; its contents, the pointers in it
among them, stay as they are while it is free.
-/

namespace Vuknob

open Library

/-! ## Allocators -/

/-- `ObjectAllocator`, `src_jni/common.hh:86–111`, where objects stay in their places. -/
structure CellAllocator where
  allocated : Nat
  freeObjects : List Nat

namespace CellAllocator

/-- `allocate`, `src_jni/common.hh:93–106`. -/
def allocate (A : CellAllocator) : Nat × CellAllocator :=
  match A.freeObjects with
  | retval :: freeObjects => (retval, { A with freeObjects := freeObjects })
  | [] => (A.allocated, { A with allocated := A.allocated + 1 })

/-- `recycle`, `src_jni/common.hh:108–110`. -/
def recycle (A : CellAllocator) (obj : Nat) : CellAllocator :=
  { A with freeObjects := obj :: A.freeObjects }

theorem mem_of_mem_allocate {A : CellAllocator} {c : Nat} (hc : c ∈ A.allocate.2.freeObjects) :
    c ∈ A.freeObjects := by
  rw [allocate] at hc
  split at hc
  · next hfree => exact hfree ▸ List.mem_cons_of_mem _ hc
  · exact hc

theorem allocated_le (A : CellAllocator) : A.allocated ≤ A.allocate.2.allocated := by
  rw [allocate]
  split
  · exact Nat.le_refl _
  · exact Nat.le_succ _

variable {κ : Type} [DecidableEq κ] {A : CellAllocator} {lists : κ → List Nat} {k : κ}
  {l : List Nat} {c : Nat}

/-- Every cell that has been allocated is in one of the lists or on the free stack, once. -/
def Owned (A : CellAllocator) (lists : κ → List Nat) : Prop :=
  Divides (· < A.allocated) fun k : Option κ ↦ k.elim A.freeObjects lists

private theorem elim_update (free l : List Nat) :
    (fun j : Option κ ↦ j.elim free (Function.update lists k l)) =
      Function.update (fun j : Option κ ↦ j.elim free lists) (some k) l := by
  refine Function.eq_update_iff.mpr ⟨Function.update_self .., fun j hj ↦ ?_⟩
  cases j with
  | none => rfl
  | some j => exact Function.update_of_ne (fun he ↦ hj (congrArg some he)) ..

omit [DecidableEq κ] in
private theorem elim_free [DecidableEq (Option κ)] (free free' : List Nat) :
    (fun j : Option κ ↦ j.elim free' lists) =
      Function.update (fun j : Option κ ↦ j.elim free lists) none free' := by
  refine Function.eq_update_iff.mpr ⟨rfl, fun j hj ↦ ?_⟩
  cases j with
  | none => exact absurd rfl hj
  | some j => rfl

omit [DecidableEq κ] in
theorem Owned.lt (h : A.Owned lists) (hc : c ∈ lists k) : c < A.allocated :=
  (h.mem c).mp ⟨some k, hc⟩

omit [DecidableEq κ] in
theorem Owned.nodup (h : A.Owned lists) (k : κ) : (lists k).Nodup := Divides.nodup h (some k)

omit [DecidableEq κ] in
theorem Owned.owner_unique (h : A.Owned lists) {j : κ} (hk : c ∈ lists k) (hj : c ∈ lists j) :
    k = j :=
  Option.some.inj (Divides.owner_unique h (k := some k) (j := some j) hk hj)

omit [DecidableEq κ] in
theorem owned_new : Owned ⟨0, []⟩ fun _ : κ ↦ [] where
  mem c := by
    refine ⟨fun ⟨k, hk⟩ ↦ ?_, nofun⟩
    cases k <;> cases hk
  nodup k := by cases k <;> exact List.nodup_nil
  apart k j hkj c hc := by cases k <;> cases hc

omit [DecidableEq κ] in
/-- No list is longer than there are cells. -/
theorem Owned.length_le (h : A.Owned lists) (k : κ) : (lists k).length ≤ A.allocated := by
  have hsub : lists k ⊆ List.range A.allocated := fun c hc ↦ List.mem_range.mpr (h.lt hc)
  have hlength := (List.subperm_of_subset (h.nodup k) hsub).length_le
  rwa [List.length_range] at hlength

omit [DecidableEq κ] in
/-- What is allocated is in no list. -/
theorem Owned.allocate_notMem (h : A.Owned lists) (k : κ) : A.allocate.1 ∉ lists k := by
  intro hk
  rw [allocate] at hk
  split at hk
  · next retval freeObjects hfree =>
    have hnone : retval ∈ A.freeObjects := hfree ▸ List.mem_cons_self
    have hsame := Divides.owner_unique h (k := some k) (j := none) hk hnone
    cases hsame
  · exact Nat.lt_irrefl _ (h.lt hk)

/-- A cell that is allocated goes to one of the lists. -/
theorem Owned.allocate (h : A.Owned lists) (hperm : l.Perm (A.allocate.1 :: lists k)) :
    A.allocate.2.Owned (Function.update lists k l) := by
  rw [CellAllocator.allocate] at hperm ⊢
  split at hperm
  · next retval freeObjects hfree =>
    show Divides (· < A.allocated) fun j : Option κ ↦ j.elim freeObjects (Function.update lists k l)
    rw [elim_update, elim_free A.freeObjects]
    refine h.move nofun ?_ hperm
    show A.freeObjects.Perm _
    rw [hfree]
  · next hfree =>
    simp only [hfree]
    show Divides (· < A.allocated + 1) fun j : Option κ ↦ j.elim [] (Function.update lists k l)
    rw [elim_update, ← hfree]
    refine h.grow (Nat.lt_irrefl _) (fun b ↦ ?_) hperm
    omega

/-- A list gives a cell back. -/
theorem Owned.recycle (h : A.Owned lists) (hperm : (lists k).Perm (c :: l)) :
    (A.recycle c).Owned (Function.update lists k l) := by
  show Divides (· < A.allocated) fun j : Option κ ↦
    j.elim (c :: A.freeObjects) (Function.update lists k l)
  rw [elim_free A.freeObjects, elim_update]
  exact h.move nofun hperm (.refl _)

/-- A list gives all its cells back. -/
theorem Owned.clear {cells : List Nat} (h : A.Owned lists) (hcells : lists k = cells) :
    (cells.foldl CellAllocator.recycle A).Owned (Function.update lists k []) := by
  induction cells generalizing A lists with
  | nil =>
    rw [List.foldl_nil, ← hcells, Function.update_eq_self]
    exact h
  | cons c cells ih =>
    have hrest := ih (h.recycle (.of_eq hcells)) (Function.update_self k _ lists)
    rwa [Function.update_idem] at hrest

/-- What is taken out of a list goes back to the allocator. -/
theorem Owned.drop (h : A.Owned lists) (found : Nat → Bool) :
    (((lists k).find? found).elim A A.recycle).Owned
      (Function.update lists k ((lists k).eraseP found)) := by
  cases hfind : (lists k).find? found with
  | none =>
    rw [List.eraseP_of_forall_not (List.find?_eq_none.mp hfind), Function.update_eq_self]
    exact h
  | some c =>
    obtain ⟨hfound, front, back, hsplit, hfront⟩ := List.find?_eq_some_iff_append.mp hfind
    refine h.recycle ?_
    have hnone : ∀ d ∈ front, ¬ found d = true := fun d hd ↦ by simpa using hfront d hd
    rw [hsplit, List.eraseP_append_right _ hnone, List.eraseP_cons_of_pos hfound]
    exact List.perm_middle

end CellAllocator

/-! ## Sequences -/

/-- `Sequence::Pattern`, `src_jni/engine_code/sequence.hh:180–188`, with the head of its list. -/
structure PatternCell where
  id : UInt32
  name : StdString
  noteList : Option Nat

/-- The cells of the three allocators, `src_jni/engine_code/sequence.cc:829–831`, with their
contents, and the members `patterns` and `instance_list` of every sequence. -/
structure SequenceCells where
  patternAllocator : CellAllocator
  patternInstanceAllocator : CellAllocator
  noteAllocator : CellAllocator
  pattern : Nat → PatternCell
  patternInstance : Nat → PatternInstance
  instanceNext : Nat → Option Nat
  note : Nat → Note
  noteNext : Nat → Option Nat
  patterns : Nat → Std.ExtTreeMap UInt32 Nat
  instanceList : Nat → Option Nat

namespace SequenceCells

/-- The list of the instances of a sequence. -/
def instances (s : SequenceCells) (k : Nat) : CellList := ⟨s.instanceList k, s.instanceNext⟩

/-- The list of the notes of a pattern. -/
def notes (s : SequenceCells) (ptrn : Nat) : CellList := ⟨(s.pattern ptrn).noteList, s.noteNext⟩

/-- The list of the instances of a sequence is assigned to. -/
def setInstances (s : SequenceCells) (k : Nat) (L : CellList) : SequenceCells :=
  { s with instanceList := Function.update s.instanceList k L.head, instanceNext := L.next }

/-- The list of the notes of a pattern is assigned to. -/
def setNotes (s : SequenceCells) (ptrn : Nat) (L : CellList) : SequenceCells :=
  { s with
    pattern := Function.update s.pattern ptrn { s.pattern ptrn with noteList := L.head }
    noteNext := L.next }

/-- `process_add_pattern`, `src_jni/engine_code/sequence.cc:589–594`. A cell that is new has the
empty list of its constructor. -/
def processAddPattern (s : SequenceCells) (k : Nat) (newName : StdString) (newId : UInt32) :
    SequenceCells :=
  let ptrn := s.patternAllocator.allocate.1
  let noteList :=
    if s.patternAllocator.freeObjects = [] then none else (s.pattern ptrn).noteList
  { s with
    patternAllocator := s.patternAllocator.allocate.2
    pattern := Function.update s.pattern ptrn ⟨newId, newName, noteList⟩
    patterns := Function.update s.patterns k ((s.patterns k).insert newId ptrn) }

/-- `process_del_pattern`, `src_jni/engine_code/sequence.cc:596–611`. -/
def processDelPattern (s : SequenceCells) (k : Nat) (patternId : UInt32) :
    Option SequenceCells :=
  match (s.patterns k)[patternId]? with
  | none => some s
  | some ptrn => do
    let dropped ← (s.notes ptrn).cells s.noteAllocator.allocated
    some
      { s.setNotes ptrn ⟨none, s.noteNext⟩ with
        noteAllocator := dropped.foldl CellAllocator.recycle s.noteAllocator
        patternAllocator := s.patternAllocator.recycle ptrn
        patterns := Function.update s.patterns k ((s.patterns k).erase patternId) }

/-- `process_add_pattern_instance`, `src_jni/engine_code/sequence.cc:613–662`. -/
def processAddPatternInstance (s : SequenceCells) (k : Nat) (pin : PatternInstance) :
    Option SequenceCells :=
  let difference := pin.stopAt.toInt - pin.startAt.toInt
  if difference < -2 ^ 31 ∨ 2 ^ 31 ≤ difference then none
  else if difference ≤ 0 then some s
  else
    match (s.patterns k)[pin.patternId]? with
    | none => some s
    | some _ => do
      let others ← (s.instances k).cells s.patternInstanceAllocator.allocated
      if others.any fun c ↦ Sequence.overlaps pin.startAt pin.stopAt (s.patternInstance c) then
        some s
      else
        let newInstance := s.patternInstanceAllocator.allocate.1
        let s :=
          { s with
            patternInstanceAllocator := s.patternInstanceAllocator.allocate.2
            patternInstance := Function.update s.patternInstance newInstance pin
            instanceNext := Function.update s.instanceNext newInstance none }
        let L ← (s.instances k).insertElement PatternInstance.lt s.patternInstance
          s.patternInstanceAllocator.allocated newInstance
        some (s.setInstances k L)

/-- `process_del_pattern_instance`, `src_jni/engine_code/sequence.cc:664–671`. -/
def processDelPatternInstance (s : SequenceCells) (k : Nat) (pin : PatternInstance) :
    Option SequenceCells := do
  let (dropped, L) ← (s.instances k).dropElement
    (fun c ↦ PatternInstance.eq (s.patternInstance c) pin) s.patternInstanceAllocator.allocated
  some
    { s.setInstances k L with
      patternInstanceAllocator :=
        dropped.elim s.patternInstanceAllocator s.patternInstanceAllocator.recycle }

/-- `process_add_note`, `src_jni/engine_code/sequence.cc:673–689`. -/
def processAddNote (s : SequenceCells) (k : Nat) (patternId : UInt32) (note : Note) :
    Option SequenceCells :=
  match (s.patterns k)[patternId]? with
  | none => some s
  | some ptrn => do
    let newNote := s.noteAllocator.allocate.1
    let s :=
      { s with
        noteAllocator := s.noteAllocator.allocate.2
        note := Function.update s.note newNote note }
    let L ← (s.notes ptrn).insertElement Note.lt s.note s.noteAllocator.allocated newNote
    some (s.setNotes ptrn L)

/-- `process_delete_note`, `src_jni/engine_code/sequence.cc:691–702`. -/
def processDeleteNote (s : SequenceCells) (k : Nat) (patternId : UInt32) (note : Note) :
    Option SequenceCells :=
  match (s.patterns k)[patternId]? with
  | none => some s
  | some ptrn => do
    let (dropped, L) ← (s.notes ptrn).dropElement (fun c ↦ Note.eq (s.note c) note)
      s.noteAllocator.allocated
    some
      { s.setNotes ptrn L with
        noteAllocator := dropped.elim s.noteAllocator s.noteAllocator.recycle }

/-- An operation on the sequence `k`. -/
def process (s : SequenceCells) (k : Nat) : SequenceCall → Option SequenceCells
  | .addPattern newName newId => some (s.processAddPattern k newName newId)
  | .delPattern patternId => s.processDelPattern k patternId
  | .addPatternInstance pin => s.processAddPatternInstance k pin
  | .delPatternInstance pin => s.processDelPatternInstance k pin
  | .addNote patternId note => s.processAddNote k patternId note
  | .deleteNote patternId note => s.processDeleteNote k patternId note

/-- An operation on one of the sequences. -/
def step (s : SequenceCells) (call : Nat × SequenceCall) : Option (Unit × SequenceCells) :=
  (s.process call.1 call.2).map fun s' ↦ ((), s')

/-- A pattern is added under an id that its sequence does not have. -/
def FreshId (s : SequenceCells) (call : Nat × SequenceCall) (_ : Unit) : Prop :=
  match call.2 with
  | .addPattern _ newId => newId ∉ s.patterns call.1
  | _ => True

/-- Nothing has been allocated; the memory may hold anything. -/
structure New (s : SequenceCells) : Prop where
  pattern : s.patternAllocator = ⟨0, []⟩
  patternInstance : s.patternInstanceAllocator = ⟨0, []⟩
  note : s.noteAllocator = ⟨0, []⟩
  patterns : ∀ k, s.patterns k = ∅
  instanceList : ∀ k, s.instanceList k = none

/-! ## Who owns a cell -/

/-- The cells that the maps `patterns` point to. -/
def patternCells (s : SequenceCells) (k : Nat × UInt32) : List Nat := (s.patterns k.1)[k.2]?.toList

/-- The cells in the lists of notes. -/
abbrev NoteCells : Type := Nat × UInt32 → List Nat

/-- All lists end, and every cell is in one of them, or in a map, or on the free stack of its
allocator, once. -/
structure Owned (s : SequenceCells) (instanceCells : Nat → List Nat) (noteCells : NoteCells) :
    Prop where
  instances : ∀ k, (s.instances k).Leads (instanceCells k)
  notes : ∀ k, ∀ ptrn ∈ s.patternCells k, (s.notes ptrn).Leads (noteCells k)
  noNotes : ∀ k, s.patternCells k = [] → noteCells k = []
  pattern : s.patternAllocator.Owned s.patternCells
  patternInstance : s.patternInstanceAllocator.Owned instanceCells
  note : s.noteAllocator.Owned noteCells
  free : ∀ ptrn ∈ s.patternAllocator.freeObjects, (s.pattern ptrn).noteList = none

variable {s s' : SequenceCells} {instanceCells : Nat → List Nat} {noteCells : NoteCells}
  {k : Nat}

/-- A pattern is in one place of the maps. -/
theorem Owned.ne (h : s.Owned instanceCells noteCells) {i j : Nat × UInt32} {ptrn other : Nat}
    (hptrn : ptrn ∈ s.patternCells i) (hother : other ∈ s.patternCells j) (hij : j ≠ i) :
    other ≠ ptrn :=
  fun he ↦ hij (h.pattern.owner_unique hother (he ▸ hptrn))

/-- The notes of one pattern are assigned to. -/
theorem Owned.setNotes (h : s.Owned instanceCells noteCells) {i : Nat × UInt32} {ptrn : Nat}
    (hptrn : ptrn ∈ s.patternCells i) {L : CellList} {cells : List Nat} (hL : L.Leads cells)
    (hframe : ∀ j, j ≠ i → ∀ c ∈ noteCells j, L.next c = s.noteNext c) {A : CellAllocator}
    (hA : A.Owned (Function.update noteCells i cells)) (note : Nat → Note) :
    Owned { s.setNotes ptrn L with noteAllocator := A, note := note } instanceCells
      (Function.update noteCells i cells) where
  instances := h.instances
  pattern := h.pattern
  patternInstance := h.patternInstance
  note := hA
  notes j other hother := by
    by_cases hj : j = i
    · obtain rfl : other = ptrn := by
        rw [hj] at hother
        have heq := (Option.mem_toList.mp hother).symm.trans (Option.mem_toList.mp hptrn)
        exact Option.some.inj heq
      rw [hj, Function.update_self]
      refine hL.congr ?_ fun _ _ ↦ rfl
      show (Function.update s.pattern other _ other).noteList = L.head
      rw [Function.update_self]
    · rw [Function.update_of_ne hj]
      refine (h.notes j other hother).congr ?_ (hframe j hj)
      exact congrArg PatternCell.noteList (Function.update_of_ne (h.ne hptrn hother hj) ..)
  noNotes j hj := by
    have hne : j ≠ i := by
      rintro rfl
      exact List.ne_nil_of_mem hptrn hj
    rw [Function.update_of_ne hne]
    exact h.noNotes j hj
  free other hother := by
    have hne : other ≠ ptrn := by
      rintro rfl
      have hsame := Divides.owner_unique h.pattern (k := none) (j := some i) hother hptrn
      cases hsame
    exact (congrArg PatternCell.noteList (Function.update_of_ne hne ..)).trans (h.free other hother)

/-- The instances of one sequence are assigned to. -/
theorem Owned.setInstances (h : s.Owned instanceCells noteCells) {L : CellList} {cells : List Nat}
    (hL : L.Leads cells)
    (hframe : ∀ j, j ≠ k → ∀ c ∈ instanceCells j, L.next c = s.instanceNext c) {A : CellAllocator}
    (hA : A.Owned (Function.update instanceCells k cells)) (value : Nat → PatternInstance) :
    Owned { s.setInstances k L with patternInstanceAllocator := A, patternInstance := value }
      (Function.update instanceCells k cells) noteCells where
  notes := h.notes
  noNotes := h.noNotes
  pattern := h.pattern
  note := h.note
  free := h.free
  patternInstance := hA
  instances j := by
    by_cases hj : j = k
    · rw [hj, Function.update_self]
      exact hL.congr (Function.update_self ..) fun _ _ ↦ rfl
    · rw [Function.update_of_ne hj]
      exact (h.instances j).congr (Function.update_of_ne hj ..) (hframe j hj)

/-- One entry of one map changes. -/
theorem patternCells_update (id : UInt32) {m : Std.ExtTreeMap UInt32 Nat}
    (hpatterns : s'.patterns = Function.update s.patterns k m)
    (hother : ∀ i, i ≠ id → m[i]? = (s.patterns k)[i]?) :
    s'.patternCells = Function.update s.patternCells (k, id) m[id]?.toList := by
  refine Function.eq_update_iff.mpr ⟨?_, ?_⟩
  · rw [patternCells, hpatterns, Function.update_self]
  · rintro ⟨j, i⟩ hne
    simp only [patternCells, hpatterns]
    by_cases hj : j = k
    · have hi : i ≠ id := fun hi ↦ hne (Prod.ext hj hi)
      rw [hj, Function.update_self, hother i hi]
    · rw [Function.update_of_ne hj]

/-- A pattern that is allocated has no notes. -/
theorem Owned.noteList_allocate (h : s.Owned instanceCells noteCells) :
    (if s.patternAllocator.freeObjects = [] then none
      else (s.pattern s.patternAllocator.allocate.1).noteList) = none := by
  split
  · rfl
  · next hne =>
    obtain ⟨ptrn, freeObjects, hfree⟩ := List.exists_cons_of_ne_nil hne
    rw [CellAllocator.allocate, hfree]
    exact h.free ptrn (hfree ▸ List.mem_cons_self)

/-- One entry of the maps comes to hold a pattern without notes, or none. -/
theorem Owned.replacePattern (h : s.Owned instanceCells noteCells) {i : Nat × UInt32}
    (cells : List Nat) (hcells : s'.patternCells = Function.update s.patternCells i cells)
    (hempty : ∀ ptrn ∈ cells, (s'.pattern ptrn).noteList = none)
    (hkept : ∀ j, j ≠ i → ∀ ptrn ∈ s.patternCells j, s'.notes ptrn = s.notes ptrn)
    (hinstances : s'.instances = s.instances)
    (hpattern : s'.patternAllocator.Owned (Function.update s.patternCells i cells))
    (hpatternInstance : s'.patternInstanceAllocator = s.patternInstanceAllocator)
    (hnote : s'.noteAllocator.Owned (Function.update noteCells i []))
    (hfree : ∀ ptrn ∈ s'.patternAllocator.freeObjects, (s'.pattern ptrn).noteList = none) :
    s'.Owned instanceCells (Function.update noteCells i []) where
  instances := hinstances ▸ h.instances
  pattern := hcells ▸ hpattern
  patternInstance := hpatternInstance ▸ h.patternInstance
  note := hnote
  free := hfree
  notes j ptrn hptrn := by
    rw [hcells] at hptrn
    by_cases hj : j = i
    · rw [hj, Function.update_self] at hptrn ⊢
      exact hempty ptrn hptrn
    · rw [Function.update_of_ne hj] at hptrn ⊢
      rw [hkept j hj ptrn hptrn]
      exact h.notes j ptrn hptrn
  noNotes j hnone := by
    rw [hcells] at hnone
    by_cases hj : j = i
    · rw [hj, Function.update_self]
    · rw [Function.update_of_ne hj] at hnone ⊢
      exact h.noNotes j hnone

theorem Owned.processAddPattern (h : s.Owned instanceCells noteCells) (newName : StdString)
    {newId : UInt32} (hfresh : newId ∉ s.patterns k) :
    (s.processAddPattern k newName newId).Owned instanceCells noteCells := by
  have hnone : s.patternCells (k, newId) = [] := by
    rw [patternCells, Std.ExtTreeMap.getElem?_eq_none hfresh]
    rfl
  have hcells : (s.processAddPattern k newName newId).patternCells =
      Function.update s.patternCells (k, newId) [s.patternAllocator.allocate.1] := by
    refine (patternCells_update newId rfl fun i hi ↦ ?_).trans ?_
    · rw [Std.ExtTreeMap.getElem?_insert, if_neg (by simpa using Ne.symm hi)]
    · rw [Std.ExtTreeMap.getElem?_insert_self]
      rfl
  have hperm : [s.patternAllocator.allocate.1].Perm
      (s.patternAllocator.allocate.1 :: s.patternCells (k, newId)) := by rw [hnone]
  have hother : ∀ ptrn, ptrn ≠ s.patternAllocator.allocate.1 →
      (s.processAddPattern k newName newId).pattern ptrn = s.pattern ptrn :=
    fun ptrn hne ↦ Function.update_of_ne hne ..
  have hnew : ((s.processAddPattern k newName newId).pattern
      s.patternAllocator.allocate.1).noteList = none := by
    show (Function.update s.pattern _ _ _).noteList = none
    rw [Function.update_self]
    exact h.noteList_allocate
  have hnotes : Function.update noteCells (k, newId) [] = noteCells := by
    rw [← h.noNotes _ hnone, Function.update_eq_self]
  rw [← hnotes]
  refine h.replacePattern _ hcells ?_ ?_ rfl (h.pattern.allocate hperm) rfl ?_ ?_
  · intro ptrn hptrn
    rw [List.mem_singleton.mp hptrn, hnew]
  · intro j _ ptrn hptrn
    have hne : ptrn ≠ s.patternAllocator.allocate.1 :=
      fun he ↦ h.pattern.allocate_notMem j (he ▸ hptrn)
    show CellList.mk ((s.processAddPattern k newName newId).pattern ptrn).noteList _ = _
    rw [hother ptrn hne]
    rfl
  · rw [hnotes]
    exact h.note
  · intro ptrn hptrn
    by_cases hptrn' : ptrn = s.patternAllocator.allocate.1
    · rw [hptrn', hnew]
    · rw [hother ptrn hptrn']
      exact h.free ptrn (CellAllocator.mem_of_mem_allocate hptrn)

theorem Owned.processDelPattern (h : s.Owned instanceCells noteCells) {patternId : UInt32}
    {ptrn : Nat} (hptrn : (s.patterns k)[patternId]? = some ptrn) :
    ∃ s', s.processDelPattern k patternId = some s' ∧
      s'.Owned instanceCells (Function.update noteCells (k, patternId) []) := by
  have hself : s.patternCells (k, patternId) = [ptrn] := by rw [patternCells, hptrn]; rfl
  have hmem : ptrn ∈ s.patternCells (k, patternId) := hself ▸ List.mem_cons_self
  have hdropped : (s.notes ptrn).cells s.noteAllocator.allocated =
      some (noteCells (k, patternId)) := (h.notes _ ptrn hmem).cells (h.note.length_le _)
  rw [SequenceCells.processDelPattern, hptrn]
  simp only [hdropped, Option.bind_eq_bind, Option.bind_some]
  refine ⟨_, rfl, ?_⟩
  have hempty : ((s.setNotes ptrn ⟨none, s.noteNext⟩).pattern ptrn).noteList = none := by
    show (Function.update s.pattern _ _ _).noteList = none
    rw [Function.update_self]
  have hother : ∀ other, other ≠ ptrn →
      (s.setNotes ptrn ⟨none, s.noteNext⟩).pattern other = s.pattern other :=
    fun other hne ↦ Function.update_of_ne hne ..
  refine h.replacePattern [] ?_ nofun ?_ rfl ?_ rfl (h.note.clear rfl) ?_
  · refine (patternCells_update patternId rfl fun i hi ↦ ?_).trans ?_
    · rw [Std.ExtTreeMap.getElem?_erase, if_neg (by simpa using Ne.symm hi)]
    · rw [Std.ExtTreeMap.getElem?_erase_self]
      rfl
  · intro j hj other hmem'
    show CellList.mk ((s.setNotes ptrn ⟨none, s.noteNext⟩).pattern other).noteList _ = _
    rw [hother other (h.ne hmem hmem' hj)]
    rfl
  · exact h.pattern.recycle (.of_eq hself)
  · intro other hother'
    show ((s.setNotes ptrn ⟨none, s.noteNext⟩).pattern other).noteList = none
    by_cases hne : other = ptrn
    · rw [hne, hempty]
    · rw [hother other hne]
      exact h.free other ((List.mem_cons.mp hother').resolve_left hne)

theorem Owned.processDelPatternInstance (h : s.Owned instanceCells noteCells) (k : Nat)
    (pin : PatternInstance) :
    ∃ s', s.processDelPatternInstance k pin = some s' ∧
      s'.Owned (Function.update instanceCells k ((instanceCells k).eraseP
        fun c ↦ PatternInstance.eq (s.patternInstance c) pin)) noteCells := by
  obtain ⟨L, hdrop, hL, hframe⟩ := CellList.dropElement_spec
    (fun c ↦ PatternInstance.eq (s.patternInstance c) pin) (h.instances k)
    (h.patternInstance.length_le k)
  rw [SequenceCells.processDelPatternInstance, hdrop]
  refine ⟨_, rfl, h.setInstances hL (fun j hj c hc ↦ ?_) (h.patternInstance.drop _) _⟩
  exact hframe c fun hk ↦ hj (h.patternInstance.owner_unique hc hk)

theorem Owned.processDeleteNote (h : s.Owned instanceCells noteCells) {patternId : UInt32}
    {ptrn : Nat} (hptrn : (s.patterns k)[patternId]? = some ptrn) (note : Note) :
    ∃ s', s.processDeleteNote k patternId note = some s' ∧
      s'.Owned instanceCells (Function.update noteCells (k, patternId)
        ((noteCells (k, patternId)).eraseP fun c ↦ Note.eq (s.note c) note)) := by
  have hmem : ptrn ∈ s.patternCells (k, patternId) := Option.mem_toList.mpr hptrn
  obtain ⟨L, hdrop, hL, hframe⟩ := CellList.dropElement_spec (fun c ↦ Note.eq (s.note c) note)
    (h.notes _ ptrn hmem) (h.note.length_le _)
  rw [SequenceCells.processDeleteNote, hptrn]
  simp only [hdrop, Option.bind_eq_bind, Option.bind_some]
  refine ⟨_, rfl, h.setNotes hmem hL (fun j hj c hc ↦ ?_) (h.note.drop _) _⟩
  exact hframe c fun hk ↦ hj (h.note.owner_unique hc hk)

/-- Where there is no such pattern there are no notes to delete. -/
theorem Owned.deleteNote (h : s.Owned instanceCells noteCells) (k : Nat) (patternId : UInt32)
    (note : Note) :
    ∃ s', s.process k (.deleteNote patternId note) = some s' ∧
      s'.Owned instanceCells (Function.update noteCells (k, patternId)
        ((noteCells (k, patternId)).eraseP fun c ↦ Note.eq (s.note c) note)) := by
  cases hptrn : (s.patterns k)[patternId]? with
  | some ptrn => exact h.processDeleteNote hptrn note
  | none =>
    refine ⟨s, ?_, ?_⟩
    · rw [SequenceCells.process, SequenceCells.processDeleteNote, hptrn]
    · have hnone : noteCells (k, patternId) = [] := by
        refine h.noNotes _ ?_
        rw [patternCells, hptrn]
        rfl
      rwa [hnone, List.eraseP_nil, ← hnone, Function.update_eq_self]

theorem Owned.processAddNote (h : s.Owned instanceCells noteCells) {patternId : UInt32}
    {ptrn : Nat} (hptrn : (s.patterns k)[patternId]? = some ptrn) (note : Note) :
    ∃ s' cells, s.processAddNote k patternId note = some s' ∧
      s'.Owned instanceCells (Function.update noteCells (k, patternId) cells) := by
  have hmem : ptrn ∈ s.patternCells (k, patternId) := Option.mem_toList.mpr hptrn
  have hnew := h.note.allocate_notMem (k, patternId)
  have hfuel : (noteCells (k, patternId)).length ≤ s.noteAllocator.allocate.2.allocated :=
    (h.note.length_le _).trans s.noteAllocator.allocated_le
  obtain ⟨L, hinsert, hL, hframe⟩ := CellList.insertElement_spec Note.lt
    (Function.update s.note s.noteAllocator.allocate.1 note) (h.notes _ ptrn hmem) hnew hfuel
  rw [SequenceCells.processAddNote, hptrn]
  have hperm := LinkedList.insertElement_perm
    (fun a b ↦ Note.lt (Function.update s.note s.noteAllocator.allocate.1 note a)
      (Function.update s.note s.noteAllocator.allocate.1 note b))
    s.noteAllocator.allocate.1 (noteCells (k, patternId))
  refine ⟨_, _, Option.bind_eq_some_iff.mpr ⟨L, hinsert, rfl⟩,
    h.setNotes hmem hL (fun j hj c hc ↦ ?_) (h.note.allocate hperm) _⟩
  refine hframe c fun hk ↦ ?_
  rcases List.mem_cons.mp hk with he | hk
  · exact h.note.allocate_notMem j (he ▸ hc)
  · exact hj (h.note.owner_unique hc hk)

/-- `stop_at - start_at` does not overflow. -/
def NoOverflow : SequenceCall → Prop
  | .addPatternInstance pin =>
    -2 ^ 31 ≤ pin.stopAt.toInt - pin.startAt.toInt ∧ pin.stopAt.toInt - pin.startAt.toInt < 2 ^ 31
  | _ => True

theorem Owned.processAddPatternInstance (h : s.Owned instanceCells noteCells) (k : Nat)
    {pin : PatternInstance} (hpin : NoOverflow (.addPatternInstance pin)) :
    ∃ s' cells, s.processAddPatternInstance k pin = some s' ∧
      s'.Owned (Function.update instanceCells k cells) noteCells := by
  have hsame : ∃ s' cells, some s = some s' ∧
      s'.Owned (Function.update instanceCells k cells) noteCells :=
    ⟨s, instanceCells k, rfl, by rwa [Function.update_eq_self]⟩
  obtain ⟨hlow, hhigh⟩ := hpin
  simp only [SequenceCells.processAddPatternInstance]
  rw [if_neg (by omega)]
  split
  · exact hsame
  split
  · exact hsame
  simp only [(h.instances k).cells (h.patternInstance.length_le k), Option.bind_eq_bind,
    Option.bind_some]
  split
  · exact hsame
  have hnew := h.patternInstance.allocate_notMem k
  have hfuel : (instanceCells k).length ≤ s.patternInstanceAllocator.allocate.2.allocated :=
    (h.patternInstance.length_le k).trans s.patternInstanceAllocator.allocated_le
  have hleads : CellList.Leads ⟨s.instanceList k, Function.update s.instanceNext
      s.patternInstanceAllocator.allocate.1 none⟩ (instanceCells k) := by
    refine (h.instances k).congr rfl fun c hc ↦ Function.update_of_ne (fun he ↦ ?_) ..
    exact hnew (he ▸ hc)
  obtain ⟨L, hinsert, hL, hframe⟩ := CellList.insertElement_spec PatternInstance.lt
    (Function.update s.patternInstance s.patternInstanceAllocator.allocate.1 pin) hleads hnew hfuel
  have hperm := LinkedList.insertElement_perm
    (fun a b ↦ PatternInstance.lt
      (Function.update s.patternInstance s.patternInstanceAllocator.allocate.1 pin a)
      (Function.update s.patternInstance s.patternInstanceAllocator.allocate.1 pin b))
    s.patternInstanceAllocator.allocate.1 (instanceCells k)
  refine ⟨_, _, Option.bind_eq_some_iff.mpr ⟨L, hinsert, rfl⟩,
    h.setInstances hL (fun j hj c hc ↦ ?_) (h.patternInstance.allocate hperm) _⟩
  have hne : c ≠ s.patternInstanceAllocator.allocate.1 :=
    fun he ↦ h.patternInstance.allocate_notMem j (he ▸ hc)
  rw [hframe c fun hk ↦ ?_]
  · exact Function.update_of_ne hne ..
  · exact hj (h.patternInstance.owner_unique hc ((List.mem_cons.mp hk).resolve_left hne))

/-- Every operation comes to an end, and leaves every cell with one owner. -/
theorem Owned.process (h : s.Owned instanceCells noteCells) {k : Nat} {call : SequenceCall}
    (hfresh : s.FreshId (k, call) ()) (hcall : NoOverflow call) :
    ∃ s' instanceCells' noteCells', s.process k call = some s' ∧
      s'.Owned instanceCells' noteCells' := by
  cases call with
  | addPattern newName newId => exact ⟨_, _, _, rfl, h.processAddPattern newName hfresh⟩
  | delPattern patternId =>
    cases hptrn : (s.patterns k)[patternId]? with
    | none =>
      exact ⟨s, _, _, by rw [SequenceCells.process, SequenceCells.processDelPattern, hptrn], h⟩
    | some ptrn =>
      obtain ⟨s', hs', howned⟩ := h.processDelPattern hptrn
      exact ⟨s', _, _, hs', howned⟩
  | addPatternInstance pin =>
    obtain ⟨s', cells, hs', howned⟩ := h.processAddPatternInstance k hcall
    exact ⟨s', _, _, hs', howned⟩
  | delPatternInstance pin =>
    obtain ⟨s', hs', howned⟩ := h.processDelPatternInstance k pin
    exact ⟨s', _, _, hs', howned⟩
  | addNote patternId note =>
    cases hptrn : (s.patterns k)[patternId]? with
    | none => exact ⟨s, _, _, by rw [SequenceCells.process, SequenceCells.processAddNote, hptrn], h⟩
    | some ptrn =>
      obtain ⟨s', cells, hs', howned⟩ := h.processAddNote hptrn note
      exact ⟨s', _, _, hs', howned⟩
  | deleteNote patternId note =>
    obtain ⟨s', hs', howned⟩ := h.deleteNote k patternId note
    exact ⟨s', _, _, hs', howned⟩

/-- An operation that is carried out has not overflowed. -/
theorem noOverflow_of_process {call : SequenceCall} (h : s.process k call = some s') :
    NoOverflow call := by
  cases call with
  | addPatternInstance pin =>
    simp only [process, processAddPatternInstance] at h
    split at h
    · cases h
    · next hrange =>
      rw [NoOverflow]
      omega
  | _ => trivial

/-- Before the first operation there are no cells. -/
theorem owned_new (h : s.New) : s.Owned (fun _ ↦ []) fun _ ↦ [] := by
  have hcells : s.patternCells = fun _ ↦ [] := by
    funext k
    rw [patternCells, h.patterns]
    rfl
  refine ⟨h.instanceList, ?_, fun _ _ ↦ rfl, ?_, ?_, ?_, ?_⟩
  · intro k ptrn hptrn
    rw [hcells] at hptrn
    cases hptrn
  · rw [hcells, h.pattern]
    exact CellAllocator.owned_new
  · rw [h.patternInstance]
    exact CellAllocator.owned_new
  · rw [h.note]
    exact CellAllocator.owned_new
  · rw [h.pattern]
    nofun

/-- After any run every cell has one owner, and all lists end; deleting takes out the first cell
that is equal, and nothing where there is none. -/
theorem cells_owned {s₀ : SequenceCells} (hnew : s₀.New) {calls : List (Nat × SequenceCall)}
    (hrun : Run step FreshId s₀ calls s) :
    ∃ instanceCells noteCells, s.Owned instanceCells noteCells ∧
      (∀ k call, s.FreshId (k, call) () → NoOverflow call → ∃ s', s.process k call = some s') ∧
      (∀ k pin, ∃ s', s.process k (.delPatternInstance pin) = some s' ∧
        s'.Owned (Function.update instanceCells k ((instanceCells k).eraseP
          fun c ↦ PatternInstance.eq (s.patternInstance c) pin)) noteCells) ∧
      ∀ k patternId note, ∃ s', s.process k (.deleteNote patternId note) = some s' ∧
        s'.Owned instanceCells (Function.update noteCells (k, patternId)
          ((noteCells (k, patternId)).eraseP fun c ↦ Note.eq (s.note c) note)) := by
  have hkeep : ∀ s call r s', (∃ I N, Owned s I N) → s.FreshId call r →
      s.step call = some (r, s') → ∃ I N, Owned s' I N := by
    rintro s ⟨k, call⟩ r s' ⟨I, N, h⟩ hfresh hstep
    obtain ⟨t, hprocess, ht⟩ := Option.map_eq_some_iff.mp hstep
    obtain ⟨s'', I', N', hs'', howned⟩ := h.process hfresh (noOverflow_of_process hprocess)
    cases ht
    obtain rfl := Option.some.inj (hprocess.symm.trans hs'')
    exact ⟨I', N', howned⟩
  obtain ⟨I, N, h⟩ := hrun.invariant (∃ I N, Owned · I N) hkeep ⟨_, _, owned_new hnew⟩
  refine ⟨I, N, h, fun k call hfresh hcall ↦ ?_, h.processDelPatternInstance, ?_⟩
  · obtain ⟨s', _, _, hs', -⟩ := h.process hfresh hcall
    exact ⟨s', hs'⟩
  · exact fun k patternId note ↦ h.deleteNote k patternId note

/-- Two sequences get a pattern each, the first one loses its pattern, and a third one gets the
cell. -/
theorem cells_owned_reused :
    let s₀ : SequenceCells :=
      ⟨⟨0, []⟩, ⟨0, []⟩, ⟨0, []⟩, fun _ ↦ ⟨0, [], some 7⟩, fun _ ↦ ⟨0, 0, 0, 0⟩, fun c ↦ some c,
        fun _ ↦ ⟨0, 0, 0, 0, 0, 0⟩, fun c ↦ some c, fun _ ↦ ∅, fun _ ↦ none⟩
    ∃ s instanceCells noteCells,
      Run step FreshId s₀
        [(0, .addPattern [] 1), (1, .addPattern [] 1), (0, .delPattern 1),
          (2, .addPattern [] 1)] s ∧
      s.Owned instanceCells noteCells := by
  intro s₀
  have hnew : s₀.New := ⟨rfl, rfl, rfl, fun _ ↦ rfl, fun _ ↦ rfl⟩
  obtain ⟨s, hrun⟩ : ∃ s, Run step FreshId s₀
      [(0, .addPattern [] 1), (1, .addPattern [] 1), (0, .delPattern 1), (2, .addPattern [] 1)] s :=
    ⟨_, .cons rfl Std.ExtTreeMap.not_mem_empty (.cons rfl Std.ExtTreeMap.not_mem_empty
      (.cons rfl trivial (.cons rfl Std.ExtTreeMap.not_mem_empty (.nil _))))⟩
  obtain ⟨I, N, h, -⟩ := cells_owned hnew hrun
  exact ⟨s, I, N, hrun, h⟩

end SequenceCells

end Vuknob
