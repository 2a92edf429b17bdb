import Mathlib.Data.List.Basic

/-!
# Values written round a ring

Values are written into the slots of a ring one after the other. Each slot keeps its value for one
round, so the ring remembers as many of the last values as it has slots.
-/

namespace Library

variable {α : Type}

/-- A value that was written some writes ago; `zero` when there was none. `history` has the last
value first. -/
def ago (history : List α) (zero : α) (back : Nat) : α := history[back]?.getD zero

/-- The slots hold the last values, the first of all written having gone to the slot `first`. The
others are as they were. -/
def Remembers (ring : List α) (first : Nat) (history : List α) (zero : α) : Prop :=
  ∀ back < ring.length,
    ring[(first + history.length + ring.length - 1 - back) % ring.length]? =
      some (ago history zero back)

/-- A ring that has not been written. -/
theorem remembers_replicate (length first : Nat) (zero : α) :
    Remembers (List.replicate length zero) first [] zero := by
  intro back hback
  rw [List.length_replicate] at hback ⊢
  exact List.getElem?_replicate_of_lt (Nat.mod_lt _ (Nat.zero_lt_of_lt hback))

/-- A slot behind the one that is written next is another one. -/
private theorem slot_ne {n length back : Nat} (hback : back + 1 < length) :
    (n + length - 1 - back) % length ≠ n % length := by
  intro h
  have hsplit : n + length - 1 - back = n + (length - 1 - back) := by omega
  rw [hsplit] at h
  have hzero := Nat.sub_mod_eq_zero_of_mod_eq h
  rw [Nat.add_sub_cancel_left, Nat.mod_eq_of_lt (by omega)] at hzero
  omega

/-- A write takes the place of the oldest value. -/
theorem Remembers.write {ring : List α} {first : Nat} {history : List α} {zero : α}
    (h : Remembers ring first history zero) (value : α) :
    Remembers (ring.set ((first + history.length) % ring.length) value) first (value :: history)
      zero := by
  intro back hback
  rw [List.length_set] at hback ⊢
  have hpos : 0 < ring.length := Nat.zero_lt_of_lt hback
  cases back with
  | zero =>
    have hslot : (first + (value :: history).length + ring.length - 1 - 0) % ring.length =
        (first + history.length) % ring.length := by
      rw [List.length_cons, ← Nat.add_mod_right (first + history.length) ring.length]
      congr 1
      omega
    rw [hslot, List.getElem?_set_self (Nat.mod_lt _ hpos)]
    rfl
  | succ back =>
    have hslot : first + (value :: history).length + ring.length - 1 - (back + 1) =
        first + history.length + ring.length - 1 - back := by
      rw [List.length_cons]
      omega
    rw [hslot, List.getElem?_set_ne (slot_ne hback).symm, h back (Nat.lt_of_succ_lt hback)]
    rfl

end Library
