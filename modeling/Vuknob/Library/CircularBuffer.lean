import Mathlib.Data.Nat.ModEq
import Mathlib.Logic.Function.Basic

/-!
# Circular buffers with an index at either end

One slot of the buffer stays unused, so that equal indices mean an empty buffer. A writer constructs
an element in a slot before it moves `tail`, and a reader destroys one before it moves `front`, so
that for a while the slots do not agree with the indices.
-/

namespace Library

variable {α : Type}

/-- A ring of slots, the index of its first element and the index after its last. -/
structure CircularBuffer (α : Type) where
  front : Nat
  tail : Nat
  data : Nat → Option α
  size : Nat

/-- Positions in a circular buffer that do not go round: the slots before `lo` may be written, those
before `hi` may be read, and from `start` on they hold `content`. -/
structure BufferView (α : Type) where
  lo : Nat
  start : Nat
  hi : Nat
  content : List α

/-- Positions less than one round apart are in different slots. -/
theorem eq_of_slot_eq {start i j size : Nat} (hi : i < size) (hj : j < size)
    (h : (start + i) % size = (start + j) % size) : i = j :=
  (Nat.ModEq.add_left_cancel' start h).eq_of_lt_of_lt hi hj

/-- One position further is the next index. -/
theorem succ_slot_ne {lo hi size : Nat} (hlo : lo ≤ hi) (hlt : hi + 1 < lo + size) :
    (hi + 1) % size ≠ lo % size := by
  intro h
  have hslot : (lo + (hi + 1 - lo)) % size = (lo + 0) % size := by
    rwa [Nat.add_sub_cancel' (Nat.le_succ_of_le hlo)]
  have := eq_of_slot_eq (by omega) (by omega) hslot
  omega

/-- Indices tell positions less than one round apart. -/
theorem slot_eq_iff {lo hi size : Nat} (hlo : lo ≤ hi) (hlt : hi < lo + size) :
    lo % size = hi % size ↔ lo = hi := by
  refine ⟨fun h ↦ ?_, fun h ↦ by rw [h]⟩
  have hslot : (lo + 0) % size = (lo + (hi - lo)) % size := by
    rwa [Nat.add_zero, Nat.add_sub_cancel' hlo]
  have := eq_of_slot_eq (by omega) (by omega) hslot
  omega

namespace CircularBuffer

/-- A buffer without elements. -/
def empty (size : Nat) : CircularBuffer α := ⟨0, 0, fun _ ↦ none, size⟩

/-- Construct an element in a slot. -/
def construct (slot : Nat) (x : α) (b : CircularBuffer α) : CircularBuffer α :=
  { b with data := Function.update b.data slot (some x) }

/-- Destroy the element of a slot. -/
def destroy (slot : Nat) (b : CircularBuffer α) : CircularBuffer α :=
  { b with data := Function.update b.data slot none }

/-- The indices and the slots of a buffer are as the positions say. -/
structure Shows (b : CircularBuffer α) (v : BufferView α) : Prop where
  front_eq : b.front = v.lo % b.size
  tail_eq : b.tail = v.hi % b.size
  lo_le : v.lo ≤ v.start
  start_le : v.start ≤ v.hi
  hi_le : v.hi ≤ v.start + v.content.length
  lt : v.start + v.content.length < v.lo + b.size
  data_eq : ∀ i < b.size, b.data ((v.start + i) % b.size) = v.content[i]?

variable {b : CircularBuffer α} {v : BufferView α}

/-- A buffer without elements, from any position on. -/
theorem shows_empty {size : Nat} (hsize : 0 < size) :
    (empty size : CircularBuffer α).Shows ⟨0, 0, 0, []⟩ :=
  ⟨(Nat.zero_mod _).symm, (Nat.zero_mod _).symm, le_rfl, le_rfl, le_rfl, by simpa [empty] using hsize,
    fun _ _ ↦ rfl⟩

namespace Shows

theorem length_lt (h : b.Shows v) : v.content.length < b.size := by
  have := h.lo_le
  have := h.lt
  omega

/-- The slot behind the content is not in use. -/
theorem data_end (h : b.Shows v) : b.data ((v.start + v.content.length) % b.size) = none := by
  rw [h.data_eq _ h.length_lt]
  exact List.getElem?_eq_none le_rfl

/-- The slot at `start` holds the first element. -/
theorem data_start {x : α} {xs : List α} (h : b.Shows v) (hv : v.content = x :: xs) :
    b.data (v.start % b.size) = some x := by
  have := h.data_eq 0 (Nat.zero_lt_of_lt h.length_lt)
  rwa [hv] at this

/-- The indices are equal if and only if no element may be read. -/
theorem front_eq_tail_iff (h : b.Shows v) : b.front = b.tail ↔ v.lo = v.hi := by
  rw [h.front_eq, h.tail_eq]
  exact slot_eq_iff (h.lo_le.trans h.start_le) (h.hi_le.trans_lt h.lt)

/-- An element is constructed behind the others. -/
theorem construct {x : α} (h : b.Shows v)
    (hroom : v.start + v.content.length + 1 < v.lo + b.size) :
    (b.construct ((v.start + v.content.length) % b.size) x).Shows
      { v with content := v.content ++ [x] } := by
  have hlen := h.length_lt
  refine ⟨h.front_eq, h.tail_eq, h.lo_le, h.start_le, ?_, ?_, fun i hi ↦ ?_⟩
  · exact h.hi_le.trans (by simp)
  · simpa [CircularBuffer.construct, ← Nat.add_assoc] using hroom
  dsimp only [CircularBuffer.construct] at hi ⊢
  by_cases hlast : i = v.content.length
  · rw [hlast, Function.update_self, List.getElem?_concat_length]
  have hslot : (v.start + i) % b.size ≠ (v.start + v.content.length) % b.size :=
    fun he ↦ hlast (eq_of_slot_eq hi hlen he)
  rw [Function.update_of_ne hslot, h.data_eq i hi]
  rcases Nat.lt_or_gt_of_ne hlast with hlt | hgt
  · rw [List.getElem?_append_left hlt]
  · rw [List.getElem?_eq_none hgt.le, List.getElem?_eq_none (by rw [List.length_append]; exact hgt)]

/-- What has been constructed may be read. -/
theorem setTail (h : b.Shows v) (hlt : v.hi < v.start + v.content.length) :
    { b with tail := (v.hi + 1) % b.size }.Shows { v with hi := v.hi + 1 } :=
  ⟨h.front_eq, rfl, h.lo_le, h.start_le.trans (Nat.le_succ _), hlt, h.lt, h.data_eq⟩

/-- The first element is destroyed. -/
theorem destroy {x : α} {xs : List α} (h : b.Shows v) (hv : v.content = x :: xs)
    (hlt : v.start < v.hi) :
    (b.destroy (v.start % b.size)).Shows { v with start := v.start + 1, content := xs } := by
  have hlen : xs.length + 1 < b.size := by simpa [hv] using h.length_lt
  have hlo := h.lo_le
  have hhi := h.hi_le
  have hroom := h.lt
  simp only [hv, List.length_cons] at hhi hroom
  refine ⟨h.front_eq, h.tail_eq, ?_, hlt, ?_, ?_, fun i hi ↦ ?_⟩
  · exact hlo.trans (Nat.le_succ _)
  · dsimp only
    omega
  · dsimp only [CircularBuffer.destroy]
    omega
  dsimp only [CircularBuffer.destroy] at hi ⊢
  by_cases hlast : i + 1 = b.size
  · have hslot : (v.start + 1 + i) % b.size = v.start % b.size := by
      rw [Nat.add_assoc, Nat.add_comm 1 i, hlast, Nat.add_mod_right]
    rw [hslot, Function.update_self]
    exact (List.getElem?_eq_none (by omega)).symm
  · have hslot : (v.start + (i + 1)) % b.size ≠ (v.start + 0) % b.size := fun he ↦ by
      have := eq_of_slot_eq (by omega) (by omega) he
      omega
    rw [Nat.add_assoc, Nat.add_comm 1 i, Function.update_of_ne (by simpa using hslot),
      h.data_eq (i + 1) (by omega), hv, List.getElem?_cons_succ]

/-- The slot of what has been destroyed may be written. -/
theorem setFront (h : b.Shows v) (hlt : v.lo < v.start) :
    { b with front := (v.lo + 1) % b.size }.Shows { v with lo := v.lo + 1 } :=
  ⟨rfl, h.tail_eq, hlt, h.start_le, h.hi_le, h.lt.trans (by dsimp only; omega), h.data_eq⟩

end Shows

end CircularBuffer

end Library
