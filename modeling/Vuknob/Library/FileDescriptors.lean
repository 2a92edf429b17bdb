import Mathlib.Data.List.Basic
import Mathlib.Logic.Function.Basic

/-!
# Files under descriptors

What is written to a descriptor goes to the position that the descriptor has in its file, over what
is there, and moves the position on. A descriptor that is at the end of its file appends to it.
-/

namespace Library

variable {D N B : Type} [DecidableEq D] [DecidableEq N]

/-- Some bytes from a position on, over those that are there; a gap in front of them is filled. -/
def overwriteAt (gap : B) (file : List B) (position : Nat) (bytes : List B) : List B :=
  file.take position ++ List.replicate (position - file.length) gap ++ bytes ++
    file.drop (position + bytes.length)

/-- The files by their names, and the open descriptors with the names of their files and their
positions. -/
structure FileTable (D N B : Type) where
  content : N → List B
  opened : D → Option (N × Nat)

namespace FileTable

/-- Make an empty file, or empty it, and open it. -/
def create (t : FileTable D N B) (d : D) (name : N) : FileTable D N B :=
  ⟨Function.update t.content name [], Function.update t.opened d (some (name, 0))⟩

/-- Write to a descriptor; to one that is not open nothing is written. -/
def write (t : FileTable D N B) (gap : B) (d : D) (bytes : List B) : FileTable D N B :=
  match t.opened d with
  | none => t
  | some (name, position) =>
    ⟨Function.update t.content name (overwriteAt gap (t.content name) position bytes),
      Function.update t.opened d (some (name, position + bytes.length))⟩

/-- Go back to the first byte. -/
def rewind (t : FileTable D N B) (d : D) : FileTable D N B :=
  { t with opened := Function.update t.opened d ((t.opened d).map fun p ↦ (p.1, 0)) }

/-- Close a descriptor. -/
def close (t : FileTable D N B) (d : D) : FileTable D N B :=
  { t with opened := Function.update t.opened d none }

/-- The descriptor is at the end of a file with this content. -/
structure Holds (t : FileTable D N B) (d : D) (name : N) (bytes : List B) : Prop where
  opened : t.opened d = some (name, bytes.length)
  content : t.content name = bytes

variable {t : FileTable D N B} {d : D} {name other : N} {bytes more : List B} {gap : B}

theorem holds_create (t : FileTable D N B) (d : D) (name : N) : (t.create d name).Holds d name [] :=
  ⟨Function.update_self .., Function.update_self ..⟩

theorem content_create_of_ne (h : other ≠ name) : (t.create d name).content other = t.content other :=
  Function.update_of_ne h ..

/-- At the end of a file is appended. -/
theorem Holds.write (h : t.Holds d name bytes) (gap : B) (more : List B) :
    (t.write gap d more).Holds d name (bytes ++ more) := by
  rw [FileTable.write, h.opened]
  refine ⟨?_, ?_⟩
  · rw [List.length_append]
    exact Function.update_self ..
  · refine (Function.update_self ..).trans ?_
    rw [h.content, overwriteAt, List.take_length, Nat.sub_self, List.replicate_zero,
      List.append_nil, List.drop_eq_nil_of_le (Nat.le_add_right _ _), List.append_nil]

theorem Holds.content_write_of_ne (h : t.Holds d name bytes) (hne : other ≠ name) :
    (t.write gap d more).content other = t.content other := by
  rw [FileTable.write, h.opened]
  exact Function.update_of_ne hne ..

omit [DecidableEq N] in
/-- The descriptor is then at the first byte. -/
theorem Holds.opened_rewind (h : t.Holds d name bytes) : (t.rewind d).opened d = some (name, 0) := by
  refine (Function.update_self ..).trans ?_
  rw [h.opened]
  rfl

/-- The first bytes are replaced by as many others. -/
theorem Holds.content_rewind_write {first rest : List B} (h : t.Holds d name (first ++ rest))
    (hlength : more.length = first.length) :
    ((t.rewind d).write gap d more).content name = more ++ rest := by
  rw [FileTable.write, h.opened_rewind]
  refine (Function.update_self ..).trans ?_
  show overwriteAt gap (t.content name) 0 more = _
  rw [h.content, overwriteAt, Nat.zero_sub, Nat.zero_add, hlength, List.drop_left]
  rfl

theorem Holds.content_rewind_write_of_ne (h : t.Holds d name bytes) (hne : other ≠ name) :
    ((t.rewind d).write gap d more).content other = t.content other := by
  rw [FileTable.write, h.opened_rewind]
  exact Function.update_of_ne hne ..

end FileTable

end Library
