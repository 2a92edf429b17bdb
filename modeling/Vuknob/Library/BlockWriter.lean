import Mathlib.Data.List.Basic

/-!
# Writing in blocks

Items are put into a block that is written out before the next item would fill it, and a last time
at the end. What has been written is all items one after the other, wherever the blocks end.
-/

namespace Library

/-- What has been written, and what is in the block. -/
structure BlockWriter (α : Type) where
  written : List α
  pending : List α

namespace BlockWriter

variable {α : Type} {size : Nat} {w : BlockWriter α}

/-- Nothing has been written. -/
def empty : BlockWriter α := ⟨[], []⟩

/-- One more item. -/
def put (size : Nat) (w : BlockWriter α) (item : List α) : BlockWriter α :=
  if size ≤ w.pending.length + item.length then ⟨w.written ++ w.pending, item⟩
  else ⟨w.written, w.pending ++ item⟩

/-- All that has been written when the block is written out. -/
def flush (w : BlockWriter α) : List α := w.written ++ w.pending

theorem flush_put (w : BlockWriter α) (item : List α) :
    (w.put size item).flush = w.flush ++ item := by
  rw [put]
  split
  · rfl
  · rw [flush, flush, List.append_assoc]

/-- Every item is written once, in order. -/
theorem flush_foldl (items : List (List α)) (w : BlockWriter α) :
    (items.foldl (put size) w).flush = w.flush ++ items.flatten := by
  induction items generalizing w with
  | nil => rw [List.foldl_nil, List.flatten_nil, List.append_nil]
  | cons item items ih =>
    rw [List.foldl_cons, ih, flush_put, List.flatten_cons, List.append_assoc]

/-- The block is never full. -/
theorem pending_lt (w : BlockWriter α) {item : List α} (hitem : item.length < size) :
    (w.put size item).pending.length < size := by
  rw [put]
  split
  · exact hitem
  · rw [List.length_append]
    omega

end BlockWriter

end Library
