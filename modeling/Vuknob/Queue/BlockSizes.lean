import Mathlib.Algebra.Order.Ring.Int
import Mathlib.Data.Nat.Log
import Vuknob.Queue.ReaderWriterQueue

/-!
# The sizes of blocks

`ceilToPow2` copies the highest bit of a number into all the bits below it, twice as many of them at
a time. Block sizes are powers of two, so that the mask takes an index round the block.
-/

namespace Vuknob

variable {bytes : Nat}

/-- Each bit is set for itself or for one of the `width - 1` bits above it. -/
private def Smeared {n : Nat} (width : Nat) (x y : BitVec n) : Prop :=
  ∀ k, y.getLsbD k = true ↔ ∃ j < width, x.getLsbD (k + j) = true

private theorem smeared_self {n : Nat} (x : BitVec n) : Smeared 1 x x := by
  intro k
  simp

/-- One shift doubles the bits that are filled. -/
private theorem Smeared.double {n width : Nat} {x y : BitVec n} (h : Smeared width x y) :
    Smeared (width + width) x (y ||| y >>> width) := by
  intro k
  rw [BitVec.getLsbD_or, BitVec.getLsbD_ushiftRight, Bool.or_eq_true, h, h]
  constructor
  · rintro (⟨j, hj, hbit⟩ | ⟨j, hj, hbit⟩)
    · exact ⟨j, Nat.lt_add_right width hj, hbit⟩
    · refine ⟨width + j, Nat.add_lt_add_left hj width, ?_⟩
      rwa [← Nat.add_assoc, Nat.add_comm k width]
  · rintro ⟨j, hj, hbit⟩
    by_cases hlt : j < width
    · exact .inl ⟨j, hlt, hbit⟩
    · refine .inr ⟨j - width, by omega, ?_⟩
      rwa [show width + k + (j - width) = k + j by omega]

/-- The loop goes on until all the bits are filled. -/
private theorem smeared_smear (fuel i : Nat) {x y : BitVec (8 * bytes)}
    (h : Smeared (8 * i) x y) (hfuel : bytes ≤ i * 2 ^ fuel) :
    ∃ width ≥ 8 * bytes, Smeared width x (ceilToPow2.smear fuel i y) := by
  induction fuel generalizing i y with
  | zero => exact ⟨8 * i, by omega, h⟩
  | succ fuel ih =>
    rw [ceilToPow2.smear]
    split
    · have hdouble : Smeared (8 * (i <<< 1)) x (y ||| y >>> (i <<< 3)) := by
        have h3 : i <<< 3 = 8 * i := by
          rw [Nat.shiftLeft_eq]
          omega
        have h1 : 8 * (i <<< 1) = 8 * i + 8 * i := by
          rw [Nat.shiftLeft_eq]
          omega
        rw [h1, h3]
        exact h.double
      refine ih _ hdouble ?_
      rwa [Nat.shiftLeft_eq, Nat.pow_one, Nat.mul_assoc, ← Nat.pow_succ']
    · exact ⟨8 * i, by omega, h⟩

/-- When all the bits are filled, the number is one less than a power of two. -/
private theorem Smeared.toNat_eq {n width : Nat} {x y : BitVec n} (h : Smeared width x y)
    (hwidth : n ≤ width) : y.toNat = 2 ^ Nat.clog 2 (x.toNat + 1) - 1 := by
  apply Nat.eq_of_testBit_eq
  intro k
  rw [Nat.testBit_two_pow_sub_one, BitVec.testBit_toNat, Bool.eq_iff_iff, h, decide_eq_true_iff,
    Nat.lt_clog_iff_pow_lt Nat.one_lt_two, Nat.lt_succ_iff]
  constructor
  · rintro ⟨j, _, hbit⟩
    rw [← BitVec.testBit_toNat] at hbit
    exact (Nat.pow_le_pow_right Nat.two_pos (Nat.le_add_right k j)).trans
      (Nat.ge_two_pow_of_testBit hbit)
  · intro hle
    obtain ⟨i, hi, hbit⟩ := Nat.exists_ge_and_testBit_of_ge_two_pow hle
    have hlt : i < n := by
      by_contra hge
      rw [BitVec.testBit_toNat, BitVec.getLsbD_of_ge x i (Nat.not_lt.mp hge)] at hbit
      exact Bool.false_ne_true hbit
    exact ⟨i - k, by omega, by rwa [Nat.add_sub_cancel' hi, ← BitVec.testBit_toNat]⟩

/-- `ceilToPow2` is the least power of two that is not less. -/
theorem toNat_ceilToPow2 {x : BitVec (8 * bytes)} (hpos : 0 < x.toNat)
    (hle : x.toNat ≤ 2 ^ (8 * bytes - 1)) :
    (ceilToPow2 x).toNat = 2 ^ Nat.clog 2 x.toNat := by
  have hbytes : 0 < bytes := by
    have := x.isLt
    by_contra h
    simp_all
  have hone : (1 : BitVec (8 * bytes)).toNat = 1 := by
    rw [BitVec.ofNat_eq_ofNat, BitVec.toNat_ofNat]
    exact Nat.mod_eq_of_lt (Nat.one_lt_two_pow (by omega))
  have hsub : (x - 1).toNat + 1 = x.toNat := by
    rw [BitVec.toNat_sub_of_le (by rw [BitVec.le_def, hone]; exact hpos), hone,
      Nat.sub_add_cancel hpos]
  obtain ⟨width, hwidth, h⟩ := smeared_smear bytes 1
    (smeared_self (x - 1)).double.double.double (by simpa using Nat.lt_two_pow_self.le)
  have hclog : Nat.clog 2 x.toNat ≤ 8 * bytes - 1 := Nat.clog_le_of_le_pow hle
  have hlt : 2 ^ Nat.clog 2 x.toNat < 2 ^ (8 * bytes) :=
    Nat.pow_lt_pow_right Nat.one_lt_two (by omega)
  have hval := h.toNat_eq hwidth
  rw [hsub] at hval
  have hone_le : 1 ≤ 2 ^ Nat.clog 2 x.toNat := Nat.two_pow_pos _
  have hadd : (ceilToPow2.smear bytes 1 _ + 1).toNat = _ :=
    BitVec.toNat_add_of_lt (by rw [hval, hone, Nat.sub_add_cancel hone_le]; exact hlt)
  rw [hval, hone, Nat.sub_add_cancel hone_le] at hadd
  exact hadd

/-- The mask takes an index round the block. -/
theorem Block.after_mod {α : Type} {b : Block α} {k : Nat} (hsize : b.size = 2 ^ k) (position : Nat) :
    b.after (position % b.size) = (position + 1) % b.size := by
  rw [Block.after, Block.sizeMask, hsize, Nat.and_two_pow_sub_one_eq_mod, Nat.mod_add_mod]

end Vuknob
