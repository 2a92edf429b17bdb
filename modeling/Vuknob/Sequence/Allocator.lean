import Vuknob.Library.Runs
import Vuknob.Sequence.State

/-!
# Object allocators

`ObjectAllocator`, `src_jni/common.hh:86–111`, hands out pointers to the elements of a
`std::vector`. A `push_back` on a full vector moves the elements to a new block, and what pointed
to the old one dangles. How much larger the new block is, is up to the library.
-/

namespace Vuknob

open Library

/-- A pointer to an element of a vector, by the block and the place in it. -/
structure CellPointer where
  block : Nat
  index : Nat
  deriving DecidableEq

/-- `ObjectAllocator`: the current block of `allocated_objects` and how far it is used, the stack
of free objects, and the pointers that have been returned and not been recycled. -/
structure ObjectAllocator where
  block : Nat
  size : Nat
  capacity : Nat
  freeObjects : List CellPointer
  outstanding : List CellPointer

namespace ObjectAllocator

variable (grow : Nat → Nat)

/-- `push_back`, with a pointer to the new element. -/
def pushBack (a : ObjectAllocator) : CellPointer × ObjectAllocator :=
  if a.size < a.capacity then (⟨a.block, a.size⟩, { a with size := a.size + 1 })
  else
    (⟨a.block + 1, a.size⟩,
      { a with block := a.block + 1, size := a.size + 1, capacity := grow a.capacity })

/-- `allocate`, `src_jni/common.hh:93–106`. -/
def allocate (a : ObjectAllocator) : CellPointer × ObjectAllocator :=
  match a.freeObjects with
  | p :: freeObjects =>
    (p, { a with freeObjects := freeObjects, outstanding := p :: a.outstanding })
  | [] =>
    ((a.pushBack grow).1,
      { (a.pushBack grow).2 with outstanding := (a.pushBack grow).1 :: a.outstanding })

/-- `recycle`, `src_jni/common.hh:108–110`. -/
def recycle (a : ObjectAllocator) (p : CellPointer) : ObjectAllocator :=
  { a with freeObjects := p :: a.freeObjects, outstanding := a.outstanding.erase p }

/-- A new allocator. -/
def empty (capacity : Nat) : ObjectAllocator := ⟨0, 0, capacity, [], []⟩

end ObjectAllocator

/-- The calls of an allocator. -/
inductive AllocatorCall
  | allocate
  | recycle (p : CellPointer)

namespace ObjectAllocator

variable {grow : Nat → Nat} {a a' : ObjectAllocator} {p : CellPointer}

/-- Carry out a call. A pointer is recycled by the one who holds it. -/
def step (grow : Nat → Nat) (a : ObjectAllocator) :
    AllocatorCall → Option (CellPointer × ObjectAllocator)
  | .allocate => some (a.allocate grow)
  | .recycle p => if p ∈ a.outstanding then some (p, a.recycle p) else none

/-- The pointer denotes an element of the vector. -/
def Live (a : ObjectAllocator) (p : CellPointer) : Prop := p.block = a.block ∧ p.index < a.size

/-- Outstanding and free pointers denote elements, and no two outstanding ones the same. -/
structure Stable (a : ObjectAllocator) : Prop where
  outstanding : ∀ p ∈ a.outstanding, a.Live p
  free : ∀ p ∈ a.freeObjects, a.Live p
  distinct : a.outstanding.Nodup

/-- After the call all pointers are stable. -/
def KeepsStable (grow : Nat → Nat) (a : ObjectAllocator) (call : AllocatorCall)
    (r : CellPointer) : Prop :=
  ∀ a', a.step grow call = some (r, a') → a'.Stable

/-- An object is allocated from the free stack, into an empty vector, or into one with room. -/
def HasRoom (a : ObjectAllocator) : Prop :=
  a.freeObjects ≠ [] ∨ a.size = 0 ∨ a.size < a.capacity

/-- Objects are allocated where there is room. -/
def NeedsRoom (a : ObjectAllocator) (call : AllocatorCall) (_ : CellPointer) : Prop :=
  match call with
  | .allocate => a.HasRoom
  | .recycle _ => True

/-- Every element is pointed to once, by a free or by an outstanding pointer. -/
structure Sound (a : ObjectAllocator) : Prop where
  live : ∀ p ∈ a.freeObjects ++ a.outstanding, a.Live p
  distinct : (a.freeObjects ++ a.outstanding).Nodup
  count : a.freeObjects.length + a.outstanding.length = a.size

theorem Sound.stable (h : a.Sound) : a.Stable where
  outstanding p hp := h.live p (List.mem_append_right _ hp)
  free p hp := h.live p (List.mem_append_left _ hp)
  distinct := (List.nodup_append.mp h.distinct).2.1

theorem sound_empty (capacity : Nat) : (empty capacity).Sound where
  live p hp := by cases hp
  distinct := List.nodup_nil
  count := rfl

/-- Where there is room, `allocate` returns a pointer that nobody else holds. -/
theorem Sound.allocate (h : a.Sound) (hroom : a.HasRoom) :
    (a.allocate grow).2.Sound ∧ (a.allocate grow).1 ∉ a.outstanding ∧
      (a.allocate grow).2.outstanding = (a.allocate grow).1 :: a.outstanding := by
  obtain ⟨hlive, hdistinct, hcount⟩ := h
  cases hfree : a.freeObjects with
  | cons p freeObjects =>
    simp only [hfree, List.cons_append, List.length_cons] at hlive hdistinct hcount
    have hperm : (freeObjects ++ p :: a.outstanding).Perm (p :: (freeObjects ++ a.outstanding)) :=
      List.perm_middle
    simp only [ObjectAllocator.allocate, hfree]
    refine ⟨⟨fun q hq ↦ hlive q (hperm.mem_iff.mp hq), hperm.nodup_iff.mpr hdistinct, ?_⟩, ?_, trivial⟩
    · simp only [List.length_cons]
      omega
    · exact fun hmem ↦ (List.nodup_cons.mp hdistinct).1 (List.mem_append_right _ hmem)
  | nil =>
    simp only [hfree, List.nil_append, List.length_nil, Nat.zero_add] at hlive hdistinct hcount
    by_cases hlt : a.size < a.capacity
    · have hfresh : (⟨a.block, a.size⟩ : CellPointer) ∉ a.outstanding := fun hmem ↦
        Nat.lt_irrefl _ (hlive _ hmem).2
      simp only [ObjectAllocator.allocate, hfree, pushBack, if_pos hlt]
      refine ⟨⟨fun q hq ↦ ?_, List.nodup_cons.mpr ⟨hfresh, hdistinct⟩, ?_⟩, hfresh, trivial⟩
      · rcases List.mem_cons.mp hq with rfl | hq
        · exact ⟨rfl, Nat.lt_succ_self _⟩
        · exact ⟨(hlive q hq).1, Nat.lt_succ_of_lt (hlive q hq).2⟩
      · simp only [List.length_cons, List.length_nil]
        omega
    · have hsize : a.size = 0 := by
        rcases hroom with hne | hsize | hlt'
        · exact absurd hfree hne
        · exact hsize
        · exact absurd hlt' hlt
      have hnone : a.outstanding = [] := List.eq_nil_of_length_eq_zero (by omega)
      simp only [ObjectAllocator.allocate, hfree, pushBack, if_neg hlt, hnone]
      refine ⟨⟨fun q hq ↦ ?_, by simp, by simp [hsize]⟩, by simp, trivial⟩
      obtain rfl : q = ⟨a.block + 1, a.size⟩ := by simpa using hq
      exact ⟨rfl, Nat.lt_succ_self _⟩

/-- Where there is none, the outstanding pointers dangle. -/
theorem Sound.not_stable_allocate (h : a.Sound) (hroom : ¬ a.HasRoom) :
    ¬ (a.allocate grow).2.Stable := by
  obtain ⟨hlive, -, hcount⟩ := h
  simp only [HasRoom, not_or, Decidable.not_not] at hroom
  obtain ⟨hfree, hsize, hfull⟩ := hroom
  intro hstable
  have hone : a.outstanding ≠ [] := by
    intro hnone
    rw [hfree, hnone] at hcount
    exact hsize hcount.symm
  obtain ⟨q, hq⟩ := List.exists_mem_of_ne_nil _ hone
  have hold := (hlive q (List.mem_append_right _ hq)).1
  simp only [ObjectAllocator.allocate, hfree, pushBack, if_neg hfull] at hstable
  have hnew : q.block = a.block + 1 := (hstable.outstanding q (List.mem_cons_of_mem _ hq)).1
  omega

/-- The holder of a pointer gives it back. -/
theorem Sound.recycle (h : a.Sound) (hp : p ∈ a.outstanding) : (a.recycle p).Sound := by
  obtain ⟨hlive, hdistinct, hcount⟩ := h
  have hperm : (p :: a.freeObjects ++ a.outstanding.erase p).Perm
      (a.freeObjects ++ a.outstanding) :=
    List.perm_middle.symm.trans ((List.perm_cons_erase hp).symm.append_left a.freeObjects)
  refine ⟨fun q hq ↦ hlive q (hperm.mem_iff.mp hq), hperm.nodup_iff.mpr hdistinct, ?_⟩
  have hlength := hperm.length_eq
  rw [List.length_append, List.length_append] at hlength
  exact hlength.trans hcount

/-- From a sound allocator a call keeps the pointers stable exactly if it finds room. -/
theorem Sound.step {call : AllocatorCall} (h : a.Sound) (hstep : a.step grow call = some (p, a')) :
    (a.NeedsRoom call p ↔ a.KeepsStable grow call p) ∧ (a.NeedsRoom call p → a'.Sound) := by
  have hkeeps : a.KeepsStable grow call p ↔ a'.Stable := by
    constructor
    · intro hk
      exact hk a' hstep
    · intro hs b hb
      obtain ⟨-, rfl⟩ := Prod.mk.inj (Option.some.inj (hstep.symm.trans hb))
      exact hs
  rw [hkeeps]
  cases call with
  | allocate =>
    obtain rfl : (a.allocate grow).2 = a' := congrArg Prod.snd (Option.some.inj hstep)
    refine ⟨⟨fun hroom ↦ (h.allocate hroom).1.stable, fun hs ↦ ?_⟩, fun hroom ↦ (h.allocate hroom).1⟩
    exact Classical.byContradiction fun hroom ↦ h.not_stable_allocate hroom hs
  | recycle q =>
    simp only [ObjectAllocator.step, Option.ite_none_right_eq_some, Option.some.injEq,
      Prod.mk.injEq] at hstep
    obtain ⟨hmem, -, rfl⟩ := hstep
    have hsound := h.recycle hmem
    exact ⟨iff_of_true trivial hsound.stable, fun _ ↦ hsound⟩

end ObjectAllocator

/-! ## The pointers of a sequence -/

/-- An element of a list with the pointer to it. -/
structure Cell (T : Type) where
  pointer : CellPointer
  value : T

/-- `Sequence::Pattern` with the pointers to it and to its notes. -/
structure StoredPattern where
  pointer : CellPointer
  id : UInt32
  name : StdString
  noteList : List (Cell Note)

/-- A `Sequence` with the pointers in its map and lists. -/
structure StoredSequence where
  patterns : Std.ExtTreeMap UInt32 StoredPattern
  instanceList : List (Cell PatternInstance)

/-- The allocators that all sequences share, `src_jni/engine_code/sequence.cc:829–831`. -/
structure Allocators where
  pattern : ObjectAllocator
  patternInstance : ObjectAllocator
  note : ObjectAllocator

/-- A sequence and the allocators. -/
structure SequenceStore where
  allocators : Allocators
  sequence : StoredSequence

namespace SequenceStore

variable (grow : Nat → Nat) (w : SequenceStore)

/-- `process_add_pattern`, `src_jni/engine_code/sequence.cc:589–594`. -/
def processAddPattern (newName : StdString) (newId : UInt32) : SequenceStore :=
  let (ptrn, pattern) := w.allocators.pattern.allocate grow
  { allocators := { w.allocators with pattern := pattern }
    sequence :=
      { w.sequence with
        patterns := w.sequence.patterns.insert newId ⟨ptrn, newId, newName, []⟩ } }

/-- `process_del_pattern`, `src_jni/engine_code/sequence.cc:596–611`. -/
def processDelPattern (patternId : UInt32) : SequenceStore :=
  match w.sequence.patterns[patternId]? with
  | some ptrn =>
    { allocators :=
        { w.allocators with
          note := ptrn.noteList.foldl (fun a c ↦ a.recycle c.pointer) w.allocators.note
          pattern := w.allocators.pattern.recycle ptrn.pointer }
      sequence := { w.sequence with patterns := w.sequence.patterns.erase patternId } }
  | none => w

/-- `process_add_pattern_instance`, `src_jni/engine_code/sequence.cc:613–662`. -/
def processAddPatternInstance (pin : PatternInstance) : Option SequenceStore :=
  let difference := pin.stopAt.toInt - pin.startAt.toInt
  if difference < -2 ^ 31 ∨ 2 ^ 31 ≤ difference then none
  else if difference ≤ 0 then some w
  else
    match w.sequence.patterns[pin.patternId]? with
    | none => some w
    | some _ =>
      if w.sequence.instanceList.any fun c ↦ Sequence.overlaps pin.startAt pin.stopAt c.value then
        some w
      else
        let (newInstance, patternInstance) := w.allocators.patternInstance.allocate grow
        some
          { allocators := { w.allocators with patternInstance := patternInstance }
            sequence :=
              { w.sequence with
                instanceList :=
                  LinkedList.insertElement (fun c d ↦ PatternInstance.lt c.value d.value)
                    ⟨newInstance, pin⟩ w.sequence.instanceList } }

/-- `drop_element` on a list of cells, with the pointer that is dropped. -/
def dropCell {T : Type} (eq : T → T → Bool) (elementToDrop : T) :
    List (Cell T) → Option CellPointer × List (Cell T)
  | [] => (none, [])
  | head :: rest =>
    if eq head.value elementToDrop then (some head.pointer, rest)
    else ((dropCell eq elementToDrop rest).1, head :: (dropCell eq elementToDrop rest).2)

/-- `func_on_drop` with an allocator, where there is something to drop. -/
def recycleDropped (a : ObjectAllocator) (dropped : Option CellPointer) : ObjectAllocator :=
  dropped.elim a a.recycle

/-- `process_del_pattern_instance`, `src_jni/engine_code/sequence.cc:664–671`. -/
def processDelPatternInstance (pin : PatternInstance) : SequenceStore :=
  let (dropped, instanceList) := dropCell PatternInstance.eq pin w.sequence.instanceList
  { allocators :=
      { w.allocators with
        patternInstance := recycleDropped w.allocators.patternInstance dropped }
    sequence := { w.sequence with instanceList := instanceList } }

/-- `process_add_note`, `src_jni/engine_code/sequence.cc:673–689`. -/
def processAddNote (patternId : UInt32) (note : Note) : SequenceStore :=
  match w.sequence.patterns[patternId]? with
  | none => w
  | some ptrn =>
    let (newNote, noteAllocator) := w.allocators.note.allocate grow
    { allocators := { w.allocators with note := noteAllocator }
      sequence :=
        { w.sequence with
          patterns := w.sequence.patterns.insert patternId
            { ptrn with
              noteList := LinkedList.insertElement (fun c d ↦ Note.lt c.value d.value)
                ⟨newNote, note⟩ ptrn.noteList } } }

/-- `process_delete_note`, `src_jni/engine_code/sequence.cc:691–702`. -/
def processDeleteNote (patternId : UInt32) (note : Note) : SequenceStore :=
  match w.sequence.patterns[patternId]? with
  | none => w
  | some ptrn =>
    let (dropped, noteList) := dropCell Note.eq note ptrn.noteList
    { allocators := { w.allocators with note := recycleDropped w.allocators.note dropped }
      sequence :=
        { w.sequence with
          patterns := w.sequence.patterns.insert patternId { ptrn with noteList := noteList } } }

end SequenceStore

end Vuknob
