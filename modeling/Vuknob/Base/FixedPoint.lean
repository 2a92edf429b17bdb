import Vuknob.Base.CInt

/-!
# Fixed-point numbers

`fp8p24_t`, `src_jni/fixedpointmathcode.h`, a number of 32 bits with 24 of them behind the point,
which is `FTYPE` in the fixed-point build, `src_jni/dynlib/dynlib.h:82–92`. A value is the `int32_t`
that represents it.
-/

namespace Vuknob

/-- What is kept of a wider value in an `int32_t`. -/
def toInt32 (value : Int) : Int := value.bmod (2 ^ 32)

theorem toInt32_of_fits {value : Int} (h : -2 ^ 31 ≤ value ∧ value < 2 ^ 31) :
    toInt32 value = value := by
  rw [toInt32]
  apply Int.bmod_eq_of_le <;> omega

theorem toInt32_fits (value : Int) : -2 ^ 31 ≤ toInt32 value ∧ toInt32 value < 2 ^ 31 := by
  have hle := Int.le_bmod (x := value) (m := 2 ^ 32) (by decide)
  have hlt := Int.bmod_lt (x := value) (m := 2 ^ 32) (by decide)
  rw [toInt32]
  omega

/-- `itoFTYPE`. -/
def itoFTYPE (x : Int) : Int := x * 2 ^ 24

/-- `mulFTYPE`: the product has 64 bits and is rounded down. -/
def mulFTYPE (x y : Int) : Int := toInt32 ((x * y) >>> (24 : Nat))

/-- `divFTYPE`: the dividend has 64 bits, and the quotient is rounded towards zero. -/
def divFTYPE (x y : Int) : Int := toInt32 ((x * 2 ^ 24).tdiv y)

/-- A product with a negative factor is rounded away from zero. -/
theorem mulFTYPE_neg {r a : Int} (hr : 0 ≤ r ∧ r < 2 ^ 31) (ha : 0 ≤ a ∧ a ≤ itoFTYPE 1) :
    ∃ q, mulFTYPE (-r) a = -q ∧ 0 ≤ q ∧ q ≤ r ∧ r * a ≤ q * itoFTYPE 1 ∧
      q * itoFTYPE 1 < r * a + itoFTYPE 1 := by
  have hone : itoFTYPE 1 = 2 ^ 24 := rfl
  rw [hone] at ha ⊢
  have hnonneg : 0 ≤ r * a := Int.mul_nonneg hr.1 ha.1
  have hle : r * a ≤ r * 2 ^ 24 := Int.mul_le_mul_of_nonneg_left ha.2 hr.1
  have hfloor : (-r * a) >>> (24 : Nat) = -(r * a) / 2 ^ 24 := by
    rw [Int.shiftRight_eq_div_pow, Int.neg_mul]
    rfl
  refine ⟨-(-(r * a) / 2 ^ 24), ?_, ?_, ?_, ?_, ?_⟩
  · rw [mulFTYPE, hfloor, toInt32_of_fits, Int.neg_neg]
    omega
  all_goals omega

end Vuknob
