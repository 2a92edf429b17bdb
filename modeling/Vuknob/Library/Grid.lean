import Vuknob.Library.Loops

/-!
# Tables in one array

The rows of a table one behind the other in an array, and the reads and writes of its entries.
-/

namespace Library

variable {α : Type} {rows columns i j : Nat} {f g : Nat → Nat → α}

/-- The entries of a table, row by row. -/
def grid (rows columns : Nat) (f : Nat → Nat → α) : List α :=
  (List.range (rows * columns)).map fun x ↦ f (x / columns) (x % columns)

@[simp] theorem length_grid : (grid rows columns f).length = rows * columns := by
  rw [grid, List.length_map, List.length_range]

/-- An entry is in the array. -/
theorem entry_lt (hi : i < rows) (hj : j < columns) : i * columns + j < rows * columns :=
  calc i * columns + j < (i + 1) * columns := by rw [Nat.succ_mul]; omega
    _ ≤ rows * columns := Nat.mul_le_mul_right _ hi

theorem entry_div (hj : j < columns) : (i * columns + j) / columns = i := by
  rw [Nat.add_comm, Nat.add_mul_div_right _ _ (Nat.zero_lt_of_lt hj), Nat.div_eq_of_lt hj,
    Nat.zero_add]

theorem entry_mod (hj : j < columns) : (i * columns + j) % columns = j := by
  rw [Nat.add_comm, Nat.add_mul_mod_self_right, Nat.mod_eq_of_lt hj]

theorem getElem?_grid (hi : i < rows) (hj : j < columns) :
    (grid rows columns f)[i * columns + j]? = some (f i j) := by
  rw [grid, List.getElem?_map, List.getElem?_range (entry_lt hi hj), Option.map_some, entry_div hj,
    entry_mod hj]

/-- Tables with the same entries are the same array. -/
theorem grid_congr (h : ∀ i < rows, ∀ j < columns, f i j = g i j) :
    grid rows columns f = grid rows columns g := by
  refine List.map_congr_left fun x hx ↦ ?_
  have hx := List.mem_range.mp hx
  have hcolumns : 0 < columns := Nat.pos_of_mul_pos_left (Nat.zero_lt_of_lt hx)
  exact h _ (Nat.div_lt_of_lt_mul (Nat.mul_comm .. ▸ hx)) _ (Nat.mod_lt _ hcolumns)

/-- A write of an entry. -/
theorem set_grid (hj : j < columns) (a : α) :
    (grid rows columns f).set (i * columns + j) a =
      grid rows columns fun i' j' ↦ if i' = i ∧ j' = j then a else f i' j' := by
  refine List.ext_getElem (by rw [List.length_set, length_grid, length_grid]) fun x h₁ h₂ ↦ ?_
  have hentry : (x / columns = i ∧ x % columns = j) ↔ i * columns + j = x := by
    constructor
    · rintro ⟨rfl, rfl⟩
      rw [Nat.div_add_mod']
    · rintro rfl
      exact ⟨entry_div hj, entry_mod hj⟩
  simp only [List.getElem_set, grid, List.getElem_map, List.getElem_range, hentry]

theorem fetch_grid (hi : i < rows) (hj : j < columns) :
    fetch (grid rows columns f) (i * columns + j : Nat) = some (f i j) := by
  rw [fetch_natCast, getElem?_grid hi hj]

theorem store_grid (hi : i < rows) (hj : j < columns) (a : α) :
    store (grid rows columns f) (i * columns + j : Nat) a =
      some (grid rows columns fun i' j' ↦ if i' = i ∧ j' = j then a else f i' j') := by
  rw [store_natCast (by rw [length_grid]; exact entry_lt hi hj), set_grid hj]

/-- An array of the right length is a table. -/
theorem exists_grid [Inhabited α] {mem : List α} (h : mem.length = rows * columns) :
    ∃ f, mem = grid rows columns f := by
  refine ⟨fun i j ↦ (mem[i * columns + j]?).getD default, ?_⟩
  refine List.ext_getElem (h.trans length_grid.symm) fun x h₁ h₂ ↦ ?_
  simp only [grid, List.getElem_map, List.getElem_range, Nat.div_add_mod',
    List.getElem?_eq_getElem h₁, Option.getD_some]

end Library
