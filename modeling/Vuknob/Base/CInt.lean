import Mathlib.Algebra.Order.Ring.Int

/-!
# Arithmetic on `int`

`int` has 32 bits. A result that does not fit is undefined in the source, and `none` here.
Division and remainder round towards zero, `Int.tdiv` and `Int.tmod`.
-/

namespace Vuknob

/-- A result of arithmetic on `int`, where it fits. -/
def int (value : Int) : Option Int :=
  if -2 ^ 31 ≤ value ∧ value < 2 ^ 31 then some value else none

/-- A result that is defined is the exact one. -/
theorem int_eq_some_iff {value result : Int} :
    int value = some result ↔ (-2 ^ 31 ≤ value ∧ value < 2 ^ 31) ∧ result = value := by
  rw [int]
  split
  · next h =>
    rw [Option.some.injEq]
    exact ⟨fun he ↦ ⟨h, he.symm⟩, fun he ↦ he.2.symm⟩
  · next h => exact ⟨nofun, fun he ↦ absurd he.1 h⟩

/-- A result that fits is defined. -/
theorem int_of_fits {value : Int} (h : -2 ^ 31 ≤ value ∧ value < 2 ^ 31) : int value = some value :=
  if_pos h

/-- A quotient is between the dividend and zero. -/
theorem tdiv_between (a : Int) {b : Int} (hb : 0 < b) :
    (0 ≤ a → 0 ≤ a.tdiv b ∧ a.tdiv b ≤ a) ∧ (a ≤ 0 → a ≤ a.tdiv b ∧ a.tdiv b ≤ 0) := by
  constructor
  · intro ha
    exact ⟨Int.tdiv_nonneg ha (Int.le_of_lt hb), Int.tdiv_le_self b ha⟩
  · intro ha
    have hnonneg := Int.tdiv_nonneg (Int.neg_nonneg_of_nonpos ha) (Int.le_of_lt hb)
    have hle := Int.tdiv_le_self b (Int.neg_nonneg_of_nonpos ha)
    rw [Int.neg_tdiv] at hnonneg hle
    omega

/-- A quotient fits if the dividend does. -/
theorem int_tdiv {a b : Int} (h : -2 ^ 31 ≤ a ∧ a < 2 ^ 31) (hb : 0 < b) :
    int (a.tdiv b) = some (a.tdiv b) := by
  obtain ⟨hpos, hneg⟩ := tdiv_between a hb
  apply int_of_fits
  by_cases ha : 0 ≤ a
  · have := hpos ha
    omega
  · have := hneg (by omega)
    omega

/-- When a quotient is below a positive bound. -/
theorem tdiv_lt_iff {a b c : Int} (hb : 0 < b) (hc : 0 < c) : a.tdiv b < c ↔ a < b * c := by
  by_cases ha : 0 ≤ a
  · rw [Int.tdiv_eq_ediv_of_nonneg ha, Int.mul_comm]
    exact Int.ediv_lt_iff_lt_mul hb
  · have hquotient := (tdiv_between a hb).2 (by omega)
    have hproduct := Int.mul_pos hb hc
    omega

/-- When a quotient is not negative. -/
theorem tdiv_nonneg_iff {a b : Int} (hb : 0 < b) : 0 ≤ a.tdiv b ↔ -b < a := by
  have hneg := tdiv_lt_iff (a := -a) hb Int.one_pos
  rw [Int.neg_tdiv, Int.mul_one] at hneg
  omega

end Vuknob
