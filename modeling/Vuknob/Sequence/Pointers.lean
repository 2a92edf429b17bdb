import Vuknob.Library.Ownership
import Vuknob.Sequence.Allocator

/-!
# The pointers that sequences keep

All sequences of a process take their patterns, pattern instances and notes from three static
allocators, `src_jni/engine_code/sequence.cc:829–831`. As long as every `allocate` finds room,
what is stored in the maps and lists of the sequences denotes elements of the allocators, each of
them stored once. Whatever becomes of the pointers, the values are those of the model in which
cells are stable.
-/

namespace Vuknob

open Library

/-! ## What is stored from one allocator -/

namespace ObjectAllocator

variable {κ : Type} [DecidableEq κ] {grow : Nat → Nat} {a : ObjectAllocator}
  {lists : κ → List CellPointer} {k : κ} {l l' : List CellPointer}

/-- The allocator is sound and the lists hold pointers it has handed out, each of them once. -/
structure Holds (a : ObjectAllocator) (lists : κ → List CellPointer) : Prop where
  sound : a.Sound
  owns : Owns a.outstanding lists

/-- The lists hold outstanding pointers that denote elements, each of them once. -/
structure Stores (a : ObjectAllocator) (lists : κ → List CellPointer) : Prop where
  live : ∀ k, ∀ p ∈ lists k, a.Live p
  owns : Owns a.outstanding lists

omit [DecidableEq κ] in
theorem Holds.stores (h : a.Holds lists) : a.Stores lists :=
  ⟨fun k p hp ↦ h.sound.stable.outstanding p (h.owns.out k p hp), h.owns⟩

/-- A new object, where there is room for it, goes to one of the lists. -/
theorem Holds.allocate (h : a.Holds lists) (hroom : a.HasRoom) (hsub : l.Subset (lists k))
    (hnodup : l.Nodup) (hperm : l'.Perm ((a.allocate grow).1 :: l)) :
    (a.allocate grow).2.Holds (Function.update lists k l') := by
  obtain ⟨hsound, hfresh, hout⟩ := @Sound.allocate grow a h.sound hroom
  refine ⟨hsound, ?_⟩
  rw [hout]
  exact h.owns.add hfresh hsub hnodup hperm

/-- A list gives an object back. -/
theorem Holds.recycle {p : CellPointer} (h : a.Holds lists) (hperm : (lists k).Perm (p :: l)) :
    (a.recycle p).Holds (Function.update lists k l) :=
  have ⟨hmem, howns⟩ := h.owns.remove hperm
  ⟨h.sound.recycle hmem, howns⟩

/-- A list gives all its objects back. -/
theorem Holds.clear {T : Type} {cells : List (Cell T)} (h : a.Holds lists)
    (hcells : lists k = cells.map Cell.pointer) :
    (cells.foldl (fun a c ↦ a.recycle c.pointer) a).Holds (Function.update lists k []) := by
  induction cells generalizing a lists with
  | nil =>
    rw [List.foldl_nil, ← show lists k = [] from hcells, Function.update_eq_self]
    exact h
  | cons c cells ih =>
    have hrest := ih (h.recycle (.of_eq hcells)) (Function.update_self k _ lists)
    rwa [Function.update_idem] at hrest

end ObjectAllocator

/-! ## Lists of cells -/

namespace SequenceStore

variable {T : Type}

private theorem insertCell_perm (lt : Cell T → Cell T → Bool) (newCell : Cell T)
    (cells : List (Cell T)) :
    ((LinkedList.insertElement lt newCell cells).map Cell.pointer).Perm
      (newCell.pointer :: cells.map Cell.pointer) :=
  (LinkedList.insertElement_perm lt newCell cells).map Cell.pointer

private theorem dropCell_perm (eq : T → T → Bool) (elementToDrop : T) (cells : List (Cell T)) :
    (cells.map Cell.pointer).Perm ((dropCell eq elementToDrop cells).1.toList ++
      (dropCell eq elementToDrop cells).2.map Cell.pointer) := by
  induction cells with
  | nil => exact .refl _
  | cons head rest ih =>
    rw [dropCell]
    split
    · exact .refl _
    · exact (ih.cons head.pointer).trans List.perm_middle.symm

end SequenceStore

namespace ObjectAllocator

variable {κ T : Type} [DecidableEq κ] {a : ObjectAllocator} {lists : κ → List CellPointer} {k : κ}

/-- What `drop_element` takes out of a list goes back to the allocator. -/
theorem Holds.drop {cells : List (Cell T)} (eq : T → T → Bool) (elementToDrop : T)
    (h : a.Holds lists) (hcells : lists k = cells.map Cell.pointer) :
    (SequenceStore.recycleDropped a (SequenceStore.dropCell eq elementToDrop cells).1).Holds
      (Function.update lists k
        ((SequenceStore.dropCell eq elementToDrop cells).2.map Cell.pointer)) := by
  have hperm := SequenceStore.dropCell_perm eq elementToDrop cells
  rw [← hcells] at hperm
  cases hdropped : (SequenceStore.dropCell eq elementToDrop cells).1 with
  | some p =>
    rw [hdropped] at hperm
    exact h.recycle hperm
  | none =>
    rw [hdropped] at hperm
    have hsub : (List.map Cell.pointer (SequenceStore.dropCell eq elementToDrop cells).2).Subset
        (lists k) := fun p hp ↦ hperm.mem_iff.mpr hp
    exact ⟨h.sound, h.owns.update hsub (hperm.nodup_iff.mp (h.owns.nodup k))⟩

end ObjectAllocator

/-! ## The operations of a sequence -/

/-- The operations of a sequence, `src_jni/engine_code/sequence.cc:589–702`. -/
inductive SequenceCall
  | addPattern (newName : StdString) (newId : UInt32)
  | delPattern (patternId : UInt32)
  | addPatternInstance (pin : PatternInstance)
  | delPatternInstance (pin : PatternInstance)
  | addNote (patternId : UInt32) (note : Note)
  | deleteNote (patternId : UInt32) (note : Note)

/-- Carry out an operation on one sequence. -/
def SequenceStore.process (grow : Nat → Nat) (w : SequenceStore) :
    SequenceCall → Option SequenceStore
  | .addPattern newName newId => some (w.processAddPattern grow newName newId)
  | .delPattern patternId => some (w.processDelPattern patternId)
  | .addPatternInstance pin => w.processAddPatternInstance grow pin
  | .delPatternInstance pin => some (w.processDelPatternInstance pin)
  | .addNote patternId note => some (w.processAddNote grow patternId note)
  | .deleteNote patternId note => some (w.processDeleteNote patternId note)

/-! ## Without the pointers -/

/-- The pattern without pointers. -/
def StoredPattern.erase (ptrn : StoredPattern) : Pattern :=
  ⟨ptrn.id, ptrn.name, ptrn.noteList.map Cell.value⟩

/-- The sequence without pointers. -/
def StoredSequence.erase (s : StoredSequence) : Sequence where
  patterns := s.patterns.map fun _ ↦ StoredPattern.erase
  instanceList := s.instanceList.map Cell.value

/-- Carry out an operation on a sequence whose cells are taken as stable. -/
def Sequence.process (s : Sequence) : SequenceCall → Option Sequence
  | .addPattern newName newId => some (s.processAddPattern newName newId)
  | .delPattern patternId => some (s.processDelPattern patternId).2
  | .addPatternInstance pin => (s.processAddPatternInstance pin).map Prod.snd
  | .delPatternInstance pin => some (s.processDelPatternInstance pin)
  | .addNote patternId note => some (s.processAddNote patternId note)
  | .deleteNote patternId note => some (s.processDeleteNote patternId note)

namespace SequenceStore

variable {T : Type}

private theorem map_dropCell (eq : T → T → Bool) (elementToDrop : T) (cells : List (Cell T)) :
    (dropCell eq elementToDrop cells).2.map Cell.value =
      LinkedList.dropElement eq elementToDrop (cells.map Cell.value) := by
  induction cells with
  | nil => rfl
  | cons head rest ih =>
    simp only [dropCell, LinkedList.dropElement, List.map_cons]
    split
    · rfl
    · rw [List.map_cons, ih]

private theorem erase_insert (patterns : Std.ExtTreeMap UInt32 StoredPattern) (id : UInt32)
    (ptrn : StoredPattern) :
    (patterns.insert id ptrn).map (fun _ ↦ StoredPattern.erase) =
      (patterns.map fun _ ↦ StoredPattern.erase).insert id ptrn.erase := by
  apply Std.ExtTreeMap.ext_getElem?
  intro i
  simp only [Std.ExtTreeMap.getElem?_map, Std.ExtTreeMap.getElem?_insert]
  split <;> rfl

private theorem erase_erase (patterns : Std.ExtTreeMap UInt32 StoredPattern) (id : UInt32) :
    (patterns.erase id).map (fun _ ↦ StoredPattern.erase) =
      (patterns.map fun _ ↦ StoredPattern.erase).erase id := by
  apply Std.ExtTreeMap.ext_getElem?
  intro i
  simp only [Std.ExtTreeMap.getElem?_map, Std.ExtTreeMap.getElem?_erase]
  split <;> rfl

/-- Whatever becomes of the pointers, the operations do with the values what they do where cells
are stable. -/
theorem erase_process (grow : Nat → Nat) (w : SequenceStore) (call : SequenceCall) :
    (w.process grow call).map (fun w' ↦ w'.sequence.erase) = w.sequence.erase.process call := by
  cases call with
  | addPattern newName newId =>
    simp only [process, processAddPattern, Sequence.process, Sequence.processAddPattern,
      StoredSequence.erase, erase_insert, Option.map_some]
    rfl
  | delPattern patternId =>
    simp only [process, processDelPattern, Sequence.process, Sequence.processDelPattern,
      StoredSequence.erase, Std.ExtTreeMap.getElem?_map]
    cases w.sequence.patterns[patternId]? with
    | none => rfl
    | some ptrn => simp only [Option.map_some, erase_erase]
  | addPatternInstance pin =>
    have hany : ((w.sequence.instanceList.map Cell.value).any
        (Sequence.overlaps pin.startAt pin.stopAt)) = w.sequence.instanceList.any
          fun c ↦ Sequence.overlaps pin.startAt pin.stopAt c.value := List.any_map
    simp only [process, processAddPatternInstance, Sequence.process,
      Sequence.processAddPatternInstance, StoredSequence.erase, Std.ExtTreeMap.getElem?_map, hany]
    split
    · rfl
    split
    · rfl
    cases w.sequence.patterns[pin.patternId]? with
    | none => rfl
    | some ptrn =>
      simp only [Option.map_some]
      split
      · rfl
      · simp only [Option.map_some, LinkedList.map_insertElement Cell.value]
  | delPatternInstance pin =>
    simp only [process, processDelPatternInstance, Sequence.process,
      Sequence.processDelPatternInstance, StoredSequence.erase, map_dropCell, Option.map_some]
  | addNote patternId note =>
    simp only [process, processAddNote, Sequence.process, Sequence.processAddNote,
      StoredSequence.erase, Std.ExtTreeMap.getElem?_map]
    cases w.sequence.patterns[patternId]? with
    | none => rfl
    | some ptrn =>
      simp only [Option.map_some, erase_insert, StoredPattern.erase,
        LinkedList.map_insertElement Cell.value]
  | deleteNote patternId note =>
    simp only [process, processDeleteNote, Sequence.process, Sequence.processDeleteNote,
      StoredSequence.erase, Std.ExtTreeMap.getElem?_map]
    cases w.sequence.patterns[patternId]? with
    | none => rfl
    | some ptrn =>
      simp only [Option.map_some, erase_insert, StoredPattern.erase, map_dropCell]

end SequenceStore

/-! ## All sequences -/

/-- A pattern instance that gets an object: it is not empty, has a pattern and overlaps no
other. -/
def StoredSequence.Accepts (s : StoredSequence) (pin : PatternInstance) : Prop :=
  pin.startAt.toInt < pin.stopAt.toInt ∧ pin.patternId ∈ s.patterns ∧
    ∀ c ∈ s.instanceList, ¬ Sequence.overlaps pin.startAt pin.stopAt c.value

/-- Where the operation takes an object from an allocator, there is room for it. -/
def SequenceStore.FindsRoom (w : SequenceStore) : SequenceCall → Prop
  | .addPattern _ _ => w.allocators.pattern.HasRoom
  | .addPatternInstance pin => w.sequence.Accepts pin → w.allocators.patternInstance.HasRoom
  | .addNote patternId _ => patternId ∈ w.sequence.patterns → w.allocators.note.HasRoom
  | _ => True

/-- The pointers in the list of notes. -/
def StoredPattern.notePointers (ptrn : StoredPattern) : List CellPointer :=
  ptrn.noteList.map Cell.pointer

/-- All sequences with the allocators they share. -/
structure Sequences where
  allocators : Allocators
  sequence : Nat → StoredSequence

namespace Sequences

variable {grow : Nat → Nat} {s s' : Sequences}

/-- One of the sequences with the allocators. -/
def store (s : Sequences) (k : Nat) : SequenceStore := ⟨s.allocators, s.sequence k⟩

/-- An operation on one of the sequences. -/
def step (grow : Nat → Nat) (s : Sequences) (call : Nat × SequenceCall) :
    Option (Unit × Sequences) :=
  ((s.store call.1).process grow call.2).map fun w ↦
    ((), ⟨w.allocators, Function.update s.sequence call.1 w.sequence⟩)

/-- The operation finds room where it needs any. -/
def FindsRoom (s : Sequences) (call : Nat × SequenceCall) (_ : Unit) : Prop :=
  (s.store call.1).FindsRoom call.2

/-- Sequences without patterns and instances, and new allocators. -/
def empty (pattern patternInstance note : Nat) : Sequences where
  allocators := ⟨.empty pattern, .empty patternInstance, .empty note⟩
  sequence _ := ⟨∅, []⟩

/-- The pointers in the maps `patterns`. -/
def patternPointers (s : Sequences) (k : Nat × UInt32) : List CellPointer :=
  ((s.sequence k.1).patterns[k.2]?.map StoredPattern.pointer).toList

/-- The pointers in the lists of notes. -/
def notePointers (s : Sequences) (k : Nat × UInt32) : List CellPointer :=
  ((s.sequence k.1).patterns[k.2]?.map StoredPattern.notePointers).getD []

/-- The pointers in the lists of instances. -/
def instancePointers (s : Sequences) (k : Nat) : List CellPointer :=
  (s.sequence k).instanceList.map Cell.pointer

/-- What is stored comes from the allocators and is stored once. -/
structure Sound (s : Sequences) : Prop where
  pattern : s.allocators.pattern.Holds s.patternPointers
  patternInstance : s.allocators.patternInstance.Holds s.instancePointers
  note : s.allocators.note.Holds s.notePointers

/-! ### What an operation stores -/

section Views

variable {k : Nat} {id : UInt32} {ptrn : StoredPattern} {allocators : Allocators}

/-- The sequence `k` has another map of patterns. -/
private def setPatterns (s : Sequences) (allocators : Allocators) (k : Nat)
    (patterns : Std.ExtTreeMap UInt32 StoredPattern) : Sequences :=
  ⟨allocators, Function.update s.sequence k { s.sequence k with patterns := patterns }⟩

/-- The sequence `k` has another list of instances. -/
private def setInstances (s : Sequences) (allocators : Allocators) (k : Nat)
    (instanceList : List (Cell PatternInstance)) : Sequences :=
  ⟨allocators, Function.update s.sequence k { s.sequence k with instanceList := instanceList }⟩

private theorem sequence_setPatterns (patterns : Std.ExtTreeMap UInt32 StoredPattern) (j : Nat) :
    ((s.setPatterns allocators k patterns).sequence j).patterns =
      if j = k then patterns else (s.sequence j).patterns := by
  simp only [setPatterns, Function.update_apply]
  split <;> rfl

private theorem instancePointers_setPatterns (patterns : Std.ExtTreeMap UInt32 StoredPattern) :
    (s.setPatterns allocators k patterns).instancePointers = s.instancePointers := by
  funext j
  simp only [instancePointers, setPatterns, Function.update_apply]
  split
  · next hj => rw [hj]
  · rfl

private theorem patterns_setInstances (instanceList : List (Cell PatternInstance)) (j : Nat) :
    ((s.setInstances allocators k instanceList).sequence j).patterns =
      (s.sequence j).patterns := by
  simp only [setInstances, Function.update_apply]
  split
  · next hj => rw [hj]
  · rfl

private theorem instancePointers_setInstances (instanceList : List (Cell PatternInstance)) :
    (s.setInstances allocators k instanceList).instancePointers =
      Function.update s.instancePointers k (instanceList.map Cell.pointer) := by
  refine Function.eq_update_iff.mpr ⟨?_, fun j hj ↦ ?_⟩
  · simp only [instancePointers, setInstances, Function.update_self]
  · simp only [instancePointers, setInstances, Function.update_of_ne hj]

/-- A view of the patterns changes at the one pattern that changes. -/
private theorem view_update (s : Sequences) (allocators : Allocators) {T : Type}
    (view : Option StoredPattern → T) {patterns : Std.ExtTreeMap UInt32 StoredPattern}
    (hother : ∀ i, i ≠ id → patterns[i]? = (s.sequence k).patterns[i]?) :
    (fun j : Nat × UInt32 ↦
        view ((s.setPatterns allocators k patterns).sequence j.1).patterns[j.2]?) =
      Function.update (fun j : Nat × UInt32 ↦ view (s.sequence j.1).patterns[j.2]?) (k, id)
        (view patterns[id]?) := by
  refine Function.eq_update_iff.mpr ⟨?_, ?_⟩
  · simp only [sequence_setPatterns, if_true]
  · rintro ⟨j, i⟩ hne
    simp only [sequence_setPatterns]
    split
    · next hj =>
      have hi : i ≠ id := fun hi ↦ hne (Prod.ext hj hi)
      rw [hother i hi, hj]
    · rfl

private theorem pointers_insert :
    let t := s.setPatterns allocators k ((s.sequence k).patterns.insert id ptrn)
    t.patternPointers = Function.update s.patternPointers (k, id) [ptrn.pointer] ∧
      t.notePointers = Function.update s.notePointers (k, id) ptrn.notePointers := by
  have hother (i : UInt32) (hi : i ≠ id) :
      ((s.sequence k).patterns.insert id ptrn)[i]? = (s.sequence k).patterns[i]? := by
    rw [Std.ExtTreeMap.getElem?_insert, if_neg]
    simpa using Ne.symm hi
  have hview {T : Type} (view : Option StoredPattern → T) :=
    view_update s allocators view hother
  simp only [Std.ExtTreeMap.getElem?_insert_self] at hview
  exact ⟨hview fun ptrn ↦ (ptrn.map StoredPattern.pointer).toList,
    hview fun ptrn ↦ (ptrn.map StoredPattern.notePointers).getD []⟩

private theorem pointers_erase :
    let t := s.setPatterns allocators k ((s.sequence k).patterns.erase id)
    t.patternPointers = Function.update s.patternPointers (k, id) [] ∧
      t.notePointers = Function.update s.notePointers (k, id) [] := by
  have hother (i : UInt32) (hi : i ≠ id) :
      ((s.sequence k).patterns.erase id)[i]? = (s.sequence k).patterns[i]? := by
    rw [Std.ExtTreeMap.getElem?_erase, if_neg]
    simpa using Ne.symm hi
  have hview {T : Type} (view : Option StoredPattern → T) :=
    view_update s allocators view hother
  simp only [Std.ExtTreeMap.getElem?_erase_self] at hview
  exact ⟨hview fun ptrn ↦ (ptrn.map StoredPattern.pointer).toList,
    hview fun ptrn ↦ (ptrn.map StoredPattern.notePointers).getD []⟩

private theorem sound_insert
    (hpattern : allocators.pattern.Holds (Function.update s.patternPointers (k, id) [ptrn.pointer]))
    (hinstance : allocators.patternInstance.Holds s.instancePointers)
    (hnote : allocators.note.Holds (Function.update s.notePointers (k, id) ptrn.notePointers)) :
    (s.setPatterns allocators k ((s.sequence k).patterns.insert id ptrn)).Sound := by
  obtain ⟨hpatterns, hnotes⟩ := @pointers_insert s k id ptrn allocators
  constructor
  · rw [hpatterns]
    exact hpattern
  · rw [instancePointers_setPatterns]
    exact hinstance
  · rw [hnotes]
    exact hnote

private theorem sound_erase
    (hpattern : allocators.pattern.Holds (Function.update s.patternPointers (k, id) []))
    (hinstance : allocators.patternInstance.Holds s.instancePointers)
    (hnote : allocators.note.Holds (Function.update s.notePointers (k, id) [])) :
    (s.setPatterns allocators k ((s.sequence k).patterns.erase id)).Sound := by
  obtain ⟨hpatterns, hnotes⟩ := @pointers_erase s k id allocators
  constructor
  · rw [hpatterns]
    exact hpattern
  · rw [instancePointers_setPatterns]
    exact hinstance
  · rw [hnotes]
    exact hnote

private theorem sound_setInstances {instanceList : List (Cell PatternInstance)}
    (hpattern : allocators.pattern.Holds s.patternPointers)
    (hinstance : allocators.patternInstance.Holds
      (Function.update s.instancePointers k (instanceList.map Cell.pointer)))
    (hnote : allocators.note.Holds s.notePointers) :
    (s.setInstances allocators k instanceList).Sound := by
  have hpatterns : (s.setInstances allocators k instanceList).patternPointers = s.patternPointers := by
    funext j
    rw [patternPointers, patterns_setInstances, patternPointers]
  have hnotes : (s.setInstances allocators k instanceList).notePointers = s.notePointers := by
    funext j
    rw [notePointers, patterns_setInstances, notePointers]
  constructor
  · rw [hpatterns]
    exact hpattern
  · rw [instancePointers_setInstances]
    exact hinstance
  · rw [hnotes]
    exact hnote

end Views

/-! ### One operation -/

section Operations

variable {k : Nat}

/-- The sequences after an operation on the sequence `k`. -/
private def after (s : Sequences) (k : Nat) (w : SequenceStore) : Sequences :=
  ⟨w.allocators, Function.update s.sequence k w.sequence⟩

private theorem after_store : s.after k (s.store k) = s := by
  simp only [after, store, Function.update_eq_self]

private theorem pointers_self {id : UInt32} {ptrn : StoredPattern}
    (h : (s.sequence k).patterns[id]? = some ptrn) :
    s.patternPointers (k, id) = [ptrn.pointer] ∧ s.notePointers (k, id) = ptrn.notePointers := by
  simp only [patternPointers, notePointers, h, Option.map_some, Option.toList_some,
    Option.getD_some, and_self]

private theorem mem_patterns {id : UInt32} {ptrn : StoredPattern}
    (h : (s.sequence k).patterns[id]? = some ptrn) : id ∈ (s.sequence k).patterns := by
  rw [Std.ExtTreeMap.mem_iff_isSome_getElem?, h]
  rfl

private theorem exists_pattern {id : UInt32} (h : id ∈ (s.sequence k).patterns) :
    ∃ ptrn, (s.sequence k).patterns[id]? = some ptrn :=
  Option.isSome_iff_exists.mp (Std.ExtTreeMap.mem_iff_isSome_getElem?.mp h)

private theorem Sound.addPattern (h : s.Sound) (newName : StdString) (newId : UInt32)
    (hroom : s.allocators.pattern.HasRoom) :
    (s.after k ((s.store k).processAddPattern grow newName newId)).Sound := by
  -- a pattern that the map had under the identity is lost, with its notes
  apply sound_insert
  · exact h.pattern.allocate hroom (List.nil_subset _) List.nodup_nil (.refl _)
  · exact h.patternInstance
  · exact ⟨h.note.sound, h.note.owns.update (List.nil_subset _) List.nodup_nil⟩

private theorem Sound.delPattern (h : s.Sound) (patternId : UInt32) :
    (s.after k ((s.store k).processDelPattern patternId)).Sound := by
  rw [SequenceStore.processDelPattern]
  split
  · next ptrn hptrn =>
    obtain ⟨hpointer, hnotes⟩ := pointers_self hptrn
    apply sound_erase
    · exact h.pattern.recycle (.of_eq hpointer)
    · exact h.patternInstance
    · exact h.note.clear hnotes
  · rw [after_store]
    exact h

private theorem Sound.addNote (h : s.Sound) (patternId : UInt32) (note : Note)
    (hroom : patternId ∈ (s.sequence k).patterns → s.allocators.note.HasRoom) :
    (s.after k ((s.store k).processAddNote grow patternId note)).Sound := by
  rw [SequenceStore.processAddNote]
  split
  · rw [after_store]
    exact h
  · next ptrn hptrn =>
    obtain ⟨hpointer, hnotes⟩ := pointers_self hptrn
    apply sound_insert
    · rw [← hpointer, Function.update_eq_self]
      exact h.pattern
    · exact h.patternInstance
    · refine h.note.allocate (hroom (mem_patterns hptrn)) (List.Subset.refl _) (h.note.owns.nodup _) ?_
      rw [hnotes]
      exact SequenceStore.insertCell_perm (fun c d ↦ Note.lt c.value d.value)
        ⟨(s.allocators.note.allocate grow).1, note⟩ ptrn.noteList

private theorem Sound.deleteNote (h : s.Sound) (patternId : UInt32) (note : Note) :
    (s.after k ((s.store k).processDeleteNote patternId note)).Sound := by
  rw [SequenceStore.processDeleteNote]
  split
  · rw [after_store]
    exact h
  · next ptrn hptrn =>
    obtain ⟨hpointer, hnotes⟩ := pointers_self hptrn
    apply sound_insert
    · rw [← hpointer, Function.update_eq_self]
      exact h.pattern
    · exact h.patternInstance
    · exact h.note.drop Note.eq note hnotes

private theorem Sound.addPatternInstance (h : s.Sound) (pin : PatternInstance)
    (hroom : (s.sequence k).Accepts pin → s.allocators.patternInstance.HasRoom)
    {w : SequenceStore} (hw : (s.store k).processAddPatternInstance grow pin = some w) :
    (s.after k w).Sound := by
  rw [SequenceStore.processAddPatternInstance] at hw
  split at hw
  · cases hw
  split at hw
  · rw [← Option.some.inj hw, after_store]
    exact h
  · next hpositive =>
    split at hw
    · rw [← Option.some.inj hw, after_store]
      exact h
    · next ptrn hptrn =>
      split at hw
      · rw [← Option.some.inj hw, after_store]
        exact h
      · next hoverlap =>
        have haccepts : (s.sequence k).Accepts pin := by
          refine ⟨by omega, mem_patterns hptrn, fun c hc hover ↦ hoverlap ?_⟩
          exact List.any_eq_true.mpr ⟨c, hc, hover⟩
        rw [← Option.some.inj hw]
        apply sound_setInstances
        · exact h.pattern
        · refine h.patternInstance.allocate (hroom haccepts) (List.Subset.refl _)
            (h.patternInstance.owns.nodup k) ?_
          exact SequenceStore.insertCell_perm _ _ _
        · exact h.note

private theorem Sound.delPatternInstance (h : s.Sound) (pin : PatternInstance) :
    (s.after k ((s.store k).processDelPatternInstance pin)).Sound := by
  apply sound_setInstances
  · exact h.pattern
  · exact h.patternInstance.drop PatternInstance.eq pin rfl
  · exact h.note

/-- An operation that finds room keeps what is stored sound. -/
theorem Sound.step {call : Nat × SequenceCall} {r : Unit} (h : s.Sound)
    (hroom : s.FindsRoom call r) (hstep : s.step grow call = some (r, s')) : s'.Sound := by
  obtain ⟨k, call⟩ := call
  obtain ⟨w, hw, hs'⟩ := Option.map_eq_some_iff.mp hstep
  obtain rfl : s.after k w = s' := congrArg Prod.snd hs'
  cases call with
  | addPattern newName newId =>
    obtain rfl := Option.some.inj hw
    exact h.addPattern newName newId hroom
  | delPattern patternId =>
    obtain rfl := Option.some.inj hw
    exact h.delPattern patternId
  | addPatternInstance pin => exact h.addPatternInstance pin hroom hw
  | delPatternInstance pin =>
    obtain rfl := Option.some.inj hw
    exact h.delPatternInstance pin
  | addNote patternId note =>
    obtain rfl := Option.some.inj hw
    exact h.addNote patternId note hroom
  | deleteNote patternId note =>
    obtain rfl := Option.some.inj hw
    exact h.deleteNote patternId note

end Operations

/-! ### Runs -/

/-- No allocator has outstanding or free pointers that dangle. -/
def Stable (s : Sequences) : Prop :=
  s.allocators.pattern.Stable ∧ s.allocators.patternInstance.Stable ∧ s.allocators.note.Stable

/-- After the operation all pointers are stable. -/
def KeepsStable (grow : Nat → Nat) (s : Sequences) (call : Nat × SequenceCall) (r : Unit) : Prop :=
  ∀ s', s.step grow call = some (r, s') → s'.Stable

/-- The maps and lists of the sequences store pointers to elements, each of them once. -/
structure Stored (s : Sequences) : Prop where
  pattern : s.allocators.pattern.Stores s.patternPointers
  patternInstance : s.allocators.patternInstance.Stores s.instancePointers
  note : s.allocators.note.Stores s.notePointers

theorem Sound.stored (h : s.Sound) : s.Stored :=
  ⟨h.pattern.stores, h.patternInstance.stores, h.note.stores⟩

theorem Sound.stable (h : s.Sound) : s.Stable :=
  ⟨h.pattern.sound.stable, h.patternInstance.sound.stable, h.note.sound.stable⟩

private theorem allocate_of_accepts {w w' : SequenceStore} {pin : PatternInstance}
    (haccepts : w.sequence.Accepts pin) (hw : w.processAddPatternInstance grow pin = some w') :
    w'.allocators.patternInstance = (w.allocators.patternInstance.allocate grow).2 := by
  obtain ⟨hpositive, hmem, hapart⟩ := haccepts
  rw [SequenceStore.processAddPatternInstance] at hw
  split at hw
  · cases hw
  rw [if_neg (by omega)] at hw
  split at hw
  · next hnone =>
    rw [Std.ExtTreeMap.mem_iff_isSome_getElem?, hnone] at hmem
    cases hmem
  · split at hw
    · next hany =>
      obtain ⟨c, hc, hoverlap⟩ := List.any_eq_true.mp hany
      exact absurd hoverlap (hapart c hc)
    · exact congrArg (fun w ↦ w.allocators.patternInstance) (Option.some.inj hw).symm

/-- An operation that needs room and finds none leaves pointers that dangle. -/
private theorem Sound.findsRoom {call : Nat × SequenceCall} {r : Unit} (h : s.Sound)
    (hstep : s.step grow call = some (r, s')) (hstable : s'.Stable) : s.FindsRoom call r := by
  obtain ⟨k, call⟩ := call
  obtain ⟨w, hw, hs'⟩ := Option.map_eq_some_iff.mp hstep
  obtain rfl : s.after k w = s' := congrArg Prod.snd hs'
  obtain ⟨hpattern, hinstance, hnote⟩ := hstable
  apply Classical.byContradiction
  intro hroom
  cases call with
  | addPattern newName newId =>
    obtain rfl := Option.some.inj hw
    exact h.pattern.sound.not_stable_allocate hroom hpattern
  | addPatternInstance pin =>
    obtain ⟨haccepts, hfull⟩ := Classical.not_imp.mp hroom
    have hallocate : w.allocators.patternInstance = (s.allocators.patternInstance.allocate grow).2 :=
      allocate_of_accepts haccepts hw
    rw [after, hallocate] at hinstance
    exact h.patternInstance.sound.not_stable_allocate hfull hinstance
  | addNote patternId note =>
    obtain ⟨hmem, hfull⟩ := Classical.not_imp.mp hroom
    obtain ⟨ptrn, hptrn⟩ := exists_pattern hmem
    simp only [SequenceStore.process, SequenceStore.processAddNote, store, hptrn] at hw
    obtain rfl := Option.some.inj hw
    exact h.note.sound.not_stable_allocate hfull hnote
  | delPattern | delPatternInstance | deleteNote => exact hroom trivial

theorem sound_empty (pattern patternInstance note : Nat) :
    (empty pattern patternInstance note).Sound where
  pattern := ⟨ObjectAllocator.sound_empty pattern, .nil⟩
  patternInstance := ⟨ObjectAllocator.sound_empty patternInstance, .nil⟩
  note := ⟨ObjectAllocator.sound_empty note, .nil⟩

end Sequences

/-- However vectors grow: an allocator keeps its pointers stable exactly in the calls that find
room, and where the operations of the sequences do, what they store denotes elements of the
allocators, each of them stored once. -/
theorem pointers_stable_iff (grow : Nat → Nat) :
    (∀ capacity calls a,
      (Run (ObjectAllocator.step grow) ObjectAllocator.NeedsRoom (.empty capacity) calls a ↔
        Run (ObjectAllocator.step grow) (ObjectAllocator.KeepsStable grow) (.empty capacity)
          calls a) ∧
      (Run (ObjectAllocator.step grow) ObjectAllocator.NeedsRoom (.empty capacity) calls a →
        a.Stable)) ∧
    ∀ pattern patternInstance note calls s,
      (Run (Sequences.step grow) Sequences.FindsRoom (.empty pattern patternInstance note) calls s ↔
        Run (Sequences.step grow) (Sequences.KeepsStable grow)
          (.empty pattern patternInstance note) calls s) ∧
      (Run (Sequences.step grow) Sequences.FindsRoom (.empty pattern patternInstance note) calls s →
        s.Stable ∧ s.Stored) := by
  constructor
  · intro capacity calls a
    have hinitial := ObjectAllocator.sound_empty capacity
    constructor
    · refine Run.iff_of_invariant ObjectAllocator.Sound ?_ ?_ hinitial
      · intro a call p a' ha hstep
        exact (ha.step hstep).1
      · intro a call p a' ha hroom hstep
        exact (ha.step hstep).2 hroom
    · intro hrun
      refine ObjectAllocator.Sound.stable (hrun.invariant ObjectAllocator.Sound ?_ hinitial)
      intro a call p a' ha hroom hstep
      exact (ha.step hstep).2 hroom
  · intro pattern patternInstance note calls s
    have hinitial := Sequences.sound_empty pattern patternInstance note
    have hkeeps (s : Sequences) (call : Nat × SequenceCall) (r : Unit) (s' : Sequences)
        (hs : s.Sound) (hroom : s.FindsRoom call r) (hstep : s.step grow call = some (r, s')) :
        s'.Sound := hs.step hroom hstep
    constructor
    · refine Run.iff_of_invariant Sequences.Sound ?_ hkeeps hinitial
      intro s call r s' hs hstep
      constructor
      · intro hroom t ht
        exact (hs.step hroom ht).stable
      · intro hstable
        exact hs.findsRoom hstep (hstable s' hstep)
    · intro hrun
      have hsound := hrun.invariant Sequences.Sound hkeeps hinitial
      exact ⟨hsound.stable, hsound.stored⟩

/-- Where vectors start empty and double, the second `allocate` leaves the first pointer dangling,
and with the second pattern of a sequence the pointer to the first one dangles in its map. -/
theorem pattern_dangles :
    (∃ a, Run (ObjectAllocator.step fun n ↦ max 1 (2 * n)) (fun _ _ _ ↦ True) (.empty 0)
        [.allocate, .allocate] a ∧ ¬ a.Stable) ∧
      ∃ s, Run (Sequences.step fun n ↦ max 1 (2 * n)) (fun _ _ _ ↦ True) (.empty 0 0 0)
          [(0, .addPattern [] 0), (0, .addPattern [] 1)] s ∧
        ∃ p ∈ s.patternPointers (0, 0), ¬ s.allocators.pattern.Live p := by
  refine ⟨⟨_, .cons rfl trivial (.cons rfl trivial (.nil _)), ?_⟩,
    _, .cons rfl trivial (.cons rfl trivial (.nil _)), ⟨1, 0⟩, ?_, ?_⟩
  · intro hstable
    have hlive := hstable.outstanding ⟨1, 0⟩ (by decide)
    exact absurd hlive.1 (by decide)
  · decide
  · intro hlive
    exact absurd hlive.1 (by decide)

end Vuknob
