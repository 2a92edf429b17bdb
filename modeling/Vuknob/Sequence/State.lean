import Mathlib.Algebra.Order.Ring.Int
import Vuknob.Base.StdString

/-!
# Sequences

The state of a `Sequence`, `src_jni/engine_code/sequence.hh:44–196`, with the operations
that server and client share, `src_jni/engine_code/sequence.cc:589–702`. The cells that the
object allocators hand out are taken as stable: a list is the sequence of its elements and
a pattern is a value. `int` is `Int32`; an overflow is undefined and yields `none`.
-/

namespace Vuknob

/-! ## Linked lists, `src_jni/linked_list.hh:20–86` -/

namespace LinkedList

variable {T : Type}

/-- The loop of `insert_element` at `thisElement` with `rest` behind it. -/
def insertAfter (lt : T → T → Bool) (newElement : T) : T → List T → List T
  | thisElement, [] => [thisElement, newElement]
  | thisElement, next :: rest =>
    if lt thisElement newElement then thisElement :: insertAfter lt newElement next rest
    else thisElement :: newElement :: next :: rest

/-- `insert_element`, `src_jni/linked_list.hh:32–45`. -/
def insertElement (lt : T → T → Bool) (newElement : T) : List T → List T
  | [] => [newElement]
  | head :: rest =>
    if lt newElement head then newElement :: head :: rest
    else insertAfter lt newElement head rest

/-- `drop_element`, `src_jni/linked_list.hh:55–78`: the first equal element is taken out. -/
def dropElement (eq : T → T → Bool) (elementToDrop : T) : List T → List T
  | [] => []
  | head :: rest =>
    if eq head elementToDrop then rest else head :: dropElement eq elementToDrop rest

theorem insertAfter_perm (lt : T → T → Bool) (newElement thisElement : T) (rest : List T) :
    (insertAfter lt newElement thisElement rest).Perm (newElement :: thisElement :: rest) := by
  induction rest generalizing thisElement with
  | nil => exact .swap _ _ _
  | cons next rest ih =>
    rw [insertAfter]
    split
    · exact ((ih next).cons thisElement).trans (.swap _ _ _)
    · exact .swap _ _ _

/-- Wherever the new element goes, nothing is lost. -/
theorem insertElement_perm (lt : T → T → Bool) (newElement : T) (l : List T) :
    (insertElement lt newElement l).Perm (newElement :: l) := by
  cases l with
  | nil => exact .refl _
  | cons head rest =>
    rw [insertElement]
    split
    · exact .refl _
    · exact insertAfter_perm lt newElement head rest

theorem dropElement_sublist (eq : T → T → Bool) (elementToDrop : T) (l : List T) :
    (dropElement eq elementToDrop l).Sublist l := by
  induction l with
  | nil => exact .slnil
  | cons head rest ih =>
    rw [dropElement]
    split
    · exact List.sublist_cons_self head rest
    · exact ih.cons_cons head

private theorem map_insertAfter {U : Type} (f : T → U) (lt : U → U → Bool)
    (newElement thisElement : T) (rest : List T) :
    (insertAfter (fun a b ↦ lt (f a) (f b)) newElement thisElement rest).map f =
      insertAfter lt (f newElement) (f thisElement) (rest.map f) := by
  induction rest generalizing thisElement with
  | nil => rfl
  | cons next rest ih =>
    simp only [insertAfter, List.map_cons]
    split
    · rw [List.map_cons, ih]
    · rfl

/-- Elements that are compared by what they carry are ordered as that is. -/
theorem map_insertElement {U : Type} (f : T → U) (lt : U → U → Bool) (newElement : T) (l : List T) :
    (insertElement (fun a b ↦ lt (f a) (f b)) newElement l).map f =
      insertElement lt (f newElement) (l.map f) := by
  cases l with
  | nil => rfl
  | cons head rest =>
    simp only [insertElement, List.map_cons]
    split
    · rfl
    · exact map_insertAfter f lt newElement head rest

theorem map_dropElement {U : Type} (f : T → U) (eq : U → U → Bool) (elementToDrop : T) (l : List T) :
    (dropElement (fun a b ↦ eq (f a) (f b)) elementToDrop l).map f =
      dropElement eq (f elementToDrop) (l.map f) := by
  induction l with
  | nil => rfl
  | cons head rest ih =>
    simp only [dropElement, List.map_cons]
    split
    · rfl
    · rw [List.map_cons, ih]

end LinkedList

/-- `IDAllocator`, `src_jni/common.hh:48–84`. -/
structure IDAllocator where
  availableIds : Std.ExtTreeSet UInt32
  totalAmount : UInt32

namespace IDAllocator

/-- `get_id`, `src_jni/common.hh:66–76`. -/
def getId (a : IDAllocator) : UInt32 × IDAllocator :=
  match a.availableIds.toList.head? with
  | some id => (id, { a with availableIds := a.availableIds.erase id })
  | none => (a.totalAmount, { a with totalAmount := a.totalAmount + 1 })

/-- `free_id`, `src_jni/common.hh:78–83`; `none` when it throws `IDFreedTwice`. -/
def freeId (a : IDAllocator) (id : UInt32) : Option IDAllocator :=
  if id ∈ a.availableIds then none else some { a with availableIds := a.availableIds.insert id }

end IDAllocator

/-- `Sequence::PatternInstance`, `src_jni/engine_code/sequence.hh:44–70`. -/
structure PatternInstance where
  patternId : UInt32
  startAt : Int32
  loopLength : Int32
  stopAt : Int32
  deriving DecidableEq

namespace PatternInstance

/-- `operator==`, which compares `start_at` twice and `loop_length` not at all. -/
def eq (lhs rhs : PatternInstance) : Bool :=
  lhs.patternId = rhs.patternId ∧ lhs.startAt = rhs.startAt ∧ lhs.startAt = rhs.startAt ∧
    lhs.stopAt = rhs.stopAt

/-- `operator<`. -/
def lt (lhs rhs : PatternInstance) : Bool := lhs.startAt < rhs.startAt

end PatternInstance

/-- `Sequence::Note`, `src_jni/engine_code/sequence.hh:72–108`. -/
structure Note where
  channel : Int32
  program : Int32
  velocity : Int32
  note : Int32
  onAt : Int32
  length : Int32
  deriving DecidableEq

namespace Note

/-- `operator==`. -/
def eq (lhs rhs : Note) : Bool := lhs = rhs

/-- `operator<`. -/
def lt (lhs rhs : Note) : Bool := lhs.onAt < rhs.onAt

end Note

/-- `Sequence::Pattern`, `src_jni/engine_code/sequence.hh:180–188`. -/
structure Pattern where
  id : UInt32
  name : StdString
  noteList : List Note
  deriving DecidableEq

/-- The data of a `Sequence` that requests change, `src_jni/engine_code/sequence.hh:195–196`. -/
structure Sequence where
  patterns : Std.ExtTreeMap UInt32 Pattern
  instanceList : List PatternInstance

namespace Sequence

/-- `process_add_pattern`, `src_jni/engine_code/sequence.cc:589–594`. A pattern comes from
its allocator with an empty list of notes, also when it has been in use before. -/
def processAddPattern (s : Sequence) (newName : StdString) (newId : UInt32) : Sequence :=
  { s with patterns := s.patterns.insert newId ⟨newId, newName, []⟩ }

/-- `process_del_pattern`, `src_jni/engine_code/sequence.cc:596–611`. -/
def processDelPattern (s : Sequence) (patternId : UInt32) : Bool × Sequence :=
  match s.patterns[patternId]? with
  | some _ => (true, { s with patterns := s.patterns.erase patternId })
  | none => (false, s)

/-- The test of `process_add_pattern_instance` on an instance that is already there,
`src_jni/engine_code/sequence.cc:626–640`. -/
def overlaps (startAt stopAt : Int32) (pin : PatternInstance) : Bool :=
  (pin.startAt ≥ startAt ∧ pin.startAt ≤ stopAt) ∨ (pin.stopAt ≥ startAt ∧ pin.stopAt ≤ stopAt)

/-- `process_add_pattern_instance`, `src_jni/engine_code/sequence.cc:613–662`. -/
def processAddPatternInstance (s : Sequence) (pin : PatternInstance) : Option (Bool × Sequence) :=
  let difference := pin.stopAt.toInt - pin.startAt.toInt
  if difference < -2 ^ 31 ∨ 2 ^ 31 ≤ difference then none
  else if difference ≤ 0 then some (false, s)
  else
    match s.patterns[pin.patternId]? with
    | none => some (false, s)
    | some _ =>
      if s.instanceList.any (overlaps pin.startAt pin.stopAt) then some (false, s)
      else
        some (true, { s with
          instanceList := LinkedList.insertElement PatternInstance.lt pin s.instanceList })

/-- `process_del_pattern_instance`, `src_jni/engine_code/sequence.cc:664–671`. -/
def processDelPatternInstance (s : Sequence) (pin : PatternInstance) : Sequence :=
  { s with instanceList := LinkedList.dropElement PatternInstance.eq pin s.instanceList }

/-- `process_add_note`, `src_jni/engine_code/sequence.cc:673–689`. -/
def processAddNote (s : Sequence) (patternId : UInt32) (note : Note) : Sequence :=
  match s.patterns[patternId]? with
  | none => s
  | some ptrn =>
    { s with
      patterns := s.patterns.insert patternId
        { ptrn with noteList := LinkedList.insertElement Note.lt note ptrn.noteList } }

/-- `process_delete_note`, `src_jni/engine_code/sequence.cc:691–702`. -/
def processDeleteNote (s : Sequence) (patternId : UInt32) (note : Note) : Sequence :=
  match s.patterns[patternId]? with
  | none => s
  | some ptrn =>
    { s with
      patterns := s.patterns.insert patternId
        { ptrn with noteList := LinkedList.dropElement Note.eq note ptrn.noteList } }

end Sequence

end Vuknob
