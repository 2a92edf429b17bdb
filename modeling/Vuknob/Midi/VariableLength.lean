import Vuknob.Midi.FileChunk

/-!
# Variable-length quantities

A number in a MIDI file is written in groups of seven bits, the highest first; all bytes but the
last one have their high bit set. `push_u32b_word_var_len`, `src_jni/midi_export.cc:130–172`, writes
the groups with one accumulator. Its second mask is off by four bits, and its first condition by
one.
-/

namespace Vuknob

/-- Read a quantity, of which `n` has been read already; what is left of the bytes comes with it. -/
def readVarLen (n : Nat) : List UInt8 → Option (Nat × List UInt8)
  | [] => none
  | byte :: bytes =>
    let n := 128 * n + byte.toNat % 128
    if byte.toNat < 128 then some (n, bytes) else readVarLen n bytes

/-- A group with the high bit set is followed by another one. -/
theorem readVarLen_more {n group : Nat} {byte : UInt8} (hbyte : byte.toNat = 128 + group)
    (bytes : List UInt8) : readVarLen n (byte :: bytes) = readVarLen (128 * n + group) bytes := by
  have hlt := byte.toNat_lt
  have hgroup : byte.toNat % 128 = group := by omega
  rw [readVarLen, hgroup, if_neg (by omega)]

/-- The last group. -/
theorem readVarLen_last {n : Nat} {byte : UInt8} (hbyte : byte.toNat < 128) (bytes : List UInt8) :
    readVarLen n (byte :: bytes) = some (128 * n + byte.toNat, bytes) := by
  rw [readVarLen, Nat.mod_eq_of_lt hbyte, if_pos hbyte]

/-- Bytes that are groups with the high bit set, and one without, are read as the groups. -/
theorem readVarLen_of_map (groups : List Nat) {written bytes : List UInt8} {n last : Nat}
    (hlast : last < 128) (h : written.map UInt8.toNat = groups.map (128 + ·) ++ [last]) :
    readVarLen n (written ++ bytes) =
      some ((groups ++ [last]).foldl (fun n group ↦ 128 * n + group) n, bytes) := by
  induction groups generalizing written n with
  | nil =>
    obtain ⟨byte, rest, rfl, hbyte, hrest⟩ := List.map_eq_cons_iff.mp h
    obtain rfl := List.map_eq_nil_iff.mp hrest
    rw [List.singleton_append, readVarLen_last (by omega), hbyte]
    rfl
  | cons group groups ih =>
    obtain ⟨byte, rest, rfl, hbyte, hrest⟩ := List.map_eq_cons_iff.mp h
    rw [List.cons_append, readVarLen_more hbyte]
    exact ih hrest

namespace Chunk

/-! ## What is written -/

/-- Some bits that are masked out. -/
theorem and_mask (n k m : Nat) : (2 ^ m - 1) <<< k &&& n = n / 2 ^ k % 2 ^ m * 2 ^ k := by
  apply Nat.eq_of_testBit_eq
  intro i
  rw [← Nat.shiftLeft_eq, Nat.testBit_and, Nat.testBit_shiftLeft, Nat.testBit_shiftLeft,
    Nat.testBit_two_pow_sub_one, Nat.testBit_mod_two_pow, Nat.testBit_div_two_pow]
  by_cases hi : k ≤ i
  · rw [Nat.sub_add_cancel hi, Bool.and_assoc]
  · simp [hi]

/-- A mark above some bits. -/
theorem mark_or {group : Nat} (h : group < 128) : 128 ||| group = 128 + group :=
  (Nat.two_pow_add_eq_or_of_lt (i := 7) h 1).symm

/-- The accumulator after the first group: the mark and the highest seven bits. -/
theorem toNat_result {word : UInt32} (h : word.toNat < 2 ^ 28) :
    (((0x80000000 : UInt32) ||| ((0x0fe00000 &&& word) <<< 3)) >>> 24).toNat =
      128 + word.toNat / 2 ^ 21 := by
  have hmask : 0x0fe00000 &&& word.toNat = word.toNat / 2 ^ 21 % 2 ^ 7 * 2 ^ 21 :=
    and_mask word.toNat 21 7
  have hgroup : word.toNat / 2 ^ 21 % 2 ^ 7 * 2 ^ 21 * 2 ^ 3 % 2 ^ 32 / 2 ^ 24 =
      word.toNat / 2 ^ 21 := by omega
  simp only [UInt32.toNat_shiftRight, UInt32.toNat_or, UInt32.toNat_shiftLeft, UInt32.toNat_and,
    UInt32.reduceToNat, Nat.reduceMod, hmask, Nat.shiftLeft_eq, Nat.shiftRight_eq_div_pow,
    Nat.or_div_two_pow, hgroup]
  exact mark_or (by omega)

/-- The accumulator after the second group: what was there is gone, and the seven bits are those
from bit 18 on, four places too high. -/
theorem toNat_result' {result word : UInt32} (hresult : result.toNat < 2 ^ 8) :
    ((result ||| ((0x00800000 : UInt32) ||| ((0x001fc0000 &&& word) <<< 2))) >>> 16).toNat =
      128 ||| 16 * (word.toNat / 2 ^ 18 % 128) := by
  have hmask : 0x1fc0000 &&& word.toNat = word.toNat / 2 ^ 18 % 2 ^ 7 * 2 ^ 18 :=
    and_mask word.toNat 18 7
  have hgroup : word.toNat / 2 ^ 18 % 2 ^ 7 * 2 ^ 18 * 2 ^ 2 % 2 ^ 32 / 2 ^ 16 =
      16 * (word.toNat / 2 ^ 18 % 128) := by omega
  have hgone : result.toNat / 2 ^ 16 = 0 := by omega
  simp only [UInt32.toNat_shiftRight, UInt32.toNat_or, UInt32.toNat_shiftLeft, UInt32.toNat_and,
    UInt32.reduceToNat, Nat.reduceMod, hmask, Nat.shiftLeft_eq, Nat.shiftRight_eq_div_pow,
    Nat.or_div_two_pow, hgroup, hgone, Nat.zero_or]

/-- The third group, with what is left in the accumulator above its low byte. -/
theorem toNat_result'' (result' word : UInt32) :
    ((result' ||| ((0x00008000 : UInt32) ||| ((0x3f80 &&& word) <<< 1))) >>> 8).toNat =
      result'.toNat / 2 ^ 8 ||| (128 + word.toNat / 2 ^ 7 % 128) := by
  have hmask : 0x3f80 &&& word.toNat = word.toNat / 2 ^ 7 % 2 ^ 7 * 2 ^ 7 :=
    and_mask word.toNat 7 7
  have hgroup : word.toNat / 2 ^ 7 % 2 ^ 7 * 2 ^ 7 * 2 ^ 1 % 2 ^ 32 / 2 ^ 8 =
      word.toNat / 2 ^ 7 % 128 := by omega
  simp only [UInt32.toNat_shiftRight, UInt32.toNat_or, UInt32.toNat_shiftLeft, UInt32.toNat_and,
    UInt32.reduceToNat, Nat.reduceMod, hmask, Nat.shiftLeft_eq, Nat.shiftRight_eq_div_pow,
    Nat.or_div_two_pow, hgroup]
  rw [← mark_or (by omega : word.toNat / 2 ^ 7 % 128 < 128)]

/-- The bits that are looked at are not all zero. -/
theorem and_ne_zero_iff {word mask : UInt32} {k m : Nat} (h : mask.toNat = (2 ^ m - 1) <<< k) :
    word &&& mask ≠ 0 ↔ word.toNat / 2 ^ k % 2 ^ m ≠ 0 := by
  have hpos : 0 < 2 ^ k := Nat.two_pow_pos k
  rw [ne_eq, ← UInt32.toNat_inj, UInt32.toNat_and, h, Nat.and_comm, and_mask, UInt32.toNat_zero,
    Nat.mul_eq_zero, or_iff_left (by omega)]

/-- What the second group leaves above its low byte. -/
theorem result'_div (word : UInt32) {result : UInt32} (hresult : result.toNat < 2 ^ 8) :
    ((result ||| ((0x00800000 : UInt32) ||| ((0x001fc0000 &&& word) <<< 2))) >>> 16).toNat / 2 ^ 8 =
      word.toNat / 2 ^ 22 % 8 := by
  rw [toNat_result' hresult, Nat.or_div_two_pow, Nat.div_eq_of_lt (by decide : 128 < 2 ^ 8),
    Nat.zero_or]
  omega

theorem mark_or_sixteenth : ∀ k < 16, 128 ||| 16 * k = 128 + 16 * (k % 8) := by decide

theorem toNat_second (word : UInt32) {result : UInt32} (hresult : result.toNat < 2 ^ 8) :
    ((result ||| ((0x00800000 : UInt32) ||| ((0x001fc0000 &&& word) <<< 2))) >>> 16).toUInt8.toNat =
      128 + 16 * (word.toNat / 2 ^ 18 % 8) := by
  have hcut : 16 * (word.toNat / 2 ^ 18 % 128) % 2 ^ 8 = 16 * (word.toNat / 2 ^ 18 % 16) := by omega
  have hmark : word.toNat / 2 ^ 18 % 16 % 8 = word.toNat / 2 ^ 18 % 8 := by omega
  rw [UInt32.toNat_toUInt8, toNat_result' hresult, Nat.or_mod_two_pow, hcut]
  exact (mark_or_sixteenth _ (Nat.mod_lt _ (by decide))).trans (by rw [hmark])

theorem toNat_third (word : UInt32) {result' : UInt32} {left : Nat}
    (h : result'.toNat / 2 ^ 8 = left) (hleft : left < 128) :
    ((result' ||| ((0x00008000 : UInt32) ||| ((0x3f80 &&& word) <<< 1))) >>> 8).toUInt8.toNat =
      128 + (left ||| word.toNat / 2 ^ 7 % 128) := by
  have hgroup : word.toNat / 2 ^ 7 % 128 < 2 ^ 7 := by omega
  have hboth : (left ||| word.toNat / 2 ^ 7 % 128) < 128 := Nat.or_lt_two_pow (n := 7) hleft hgroup
  rw [UInt32.toNat_toUInt8, toNat_result'', h, ← mark_or hgroup, ← Nat.or_assoc,
    Nat.or_comm left, Nat.or_assoc, mark_or hboth, Nat.mod_eq_of_lt (by omega)]

theorem toNat_last (word : UInt32) : (word &&& 0x0000007f).toUInt8.toNat = word.toNat % 128 := by
  have hmask : word.toNat &&& 0x7f = word.toNat % 128 := Nat.and_two_pow_sub_one_eq_mod word.toNat 7
  rw [UInt32.toNat_toUInt8, UInt32.toNat_and]
  show (word.toNat &&& 0x7f) % 2 ^ 8 = _
  rw [hmask]
  omega

/-- The bytes for a number of 28 bits. -/
theorem map_varLen (word : UInt32) {n : Nat} (hn : word.toNat % 2 ^ 28 = n) :
    (varLen word).map UInt8.toNat =
      if 2 ^ 22 ≤ n then
        [128 + n / 2 ^ 21, 128 + 16 * (n / 2 ^ 18 % 8),
          128 + (n / 2 ^ 22 % 8 ||| n / 2 ^ 7 % 128), n % 128]
      else if n / 2 ^ 14 % 128 ≠ 0 then
        [128 + 16 * (n / 2 ^ 18 % 8), 128 + n / 2 ^ 7 % 128, n % 128]
      else if n / 2 ^ 7 % 128 ≠ 0 then [128 + n / 2 ^ 7 % 128, n % 128]
      else [n % 128] := by
  have hword : (word &&& 0x0fffffff).toNat = n := by
    rw [UInt32.toNat_and, ← hn]
    exact Nat.and_two_pow_sub_one_eq_mod word.toNat 28
  simp only [varLen]
  generalize word &&& 0x0fffffff = word at hword ⊢
  have hlt : word.toNat < 2 ^ 28 := by omega
  have hfirst : word &&& 0x0fc00000 ≠ 0 ↔ 2 ^ 22 ≤ n := by
    rw [and_ne_zero_iff (k := 22) (m := 6) rfl, hword]
    omega
  have hsecond : word &&& 0x001fc000 ≠ 0 ↔ n / 2 ^ 14 % 128 ≠ 0 :=
    hword ▸ and_ne_zero_iff (k := 14) (m := 7) rfl
  have hthird : word &&& 0x00003f80 ≠ 0 ↔ n / 2 ^ 7 % 128 ≠ 0 :=
    hword ▸ and_ne_zero_iff (k := 7) (m := 7) rfl
  simp only [hfirst, hsecond, hthird]
  have hlast : (word &&& 0x0000007f).toUInt8.toNat = n % 128 := by rw [toNat_last, hword]
  by_cases h₁ : 2 ^ 22 ≤ n
  · have hresult := toNat_result hlt
    generalize ((0x80000000 : UInt32) ||| ((0x0fe00000 &&& word) <<< 3)) >>> 24 = result
      at hresult ⊢
    have hbyte : result.toNat < 2 ^ 8 := by omega
    have hthird := toNat_third word (result'_div word hbyte) (by omega)
    simp only [h₁, if_true, true_or, List.map_cons, List.map_nil, hlast,
      List.cons_append, List.nil_append, toNat_second word hbyte, hthird, hword,
      UInt32.toNat_toUInt8, hresult]
    rw [Nat.mod_eq_of_lt (by omega)]
  · have hzero : (0 : UInt32).toNat < 2 ^ 8 := by decide
    have hnone : n / 2 ^ 22 % 8 = 0 := by omega
    simp only [h₁, if_false, false_or]
    by_cases h₂ : n / 2 ^ 14 % 128 = 0
    · have hempty : (0 : UInt32).toNat / 2 ^ 8 = 0 := rfl
      have hthird := toNat_third word hempty (by decide)
      rw [Nat.zero_or, hword] at hthird
      simp only [h₂, ne_eq, not_true_eq_false, if_false, false_or, List.nil_append]
      split
      · simp only [List.cons_append, List.nil_append, List.map_cons, List.map_nil, hlast, hthird]
      · simp only [List.nil_append, List.map_cons, List.map_nil, hlast]
    · have hthird := toNat_third word (result'_div word hzero) (by omega)
      rw [hword, hnone, Nat.zero_or] at hthird
      simp only [h₂, ne_eq, not_false_eq_true, if_true, true_or, List.nil_append, List.cons_append,
        List.map_cons, List.map_nil, hlast, toNat_second word hzero, hthird, hword]

/-- The quantity that is read is the one that has been written: bits 14 to 17 are not there, bit 21
is not the highest one, and bits 22 to 24 are also among bits 7 to 9. -/
def VarLenKept (n : Nat) : Prop :=
  (n < 2 ^ 21 ∨ 2 ^ 22 ≤ n) ∧ n / 2 ^ 14 % 16 = 0 ∧
    n / 2 ^ 22 % 8 ||| n / 2 ^ 7 % 128 = n / 2 ^ 7 % 128

instance (n : Nat) : Decidable (VarLenKept n) := inferInstanceAs (Decidable (_ ∧ _ ∧ _))

/-- Whatever follows, the bytes are read and no others. -/
theorem readVarLen_varLen (word : UInt32) (bytes : List UInt8) :
    ∃ m, readVarLen 0 (varLen word ++ bytes) = some (m, bytes) ∧
      (m = word.toNat % 2 ^ 28 ↔ VarLenKept (word.toNat % 2 ^ 28)) := by
  have hmap := map_varLen word rfl
  generalize hn : word.toNat % 2 ^ 28 = n at hmap ⊢
  have hlast : n % 128 < 128 := Nat.mod_lt n (by decide)
  have hgroup : n / 2 ^ 7 % 128 < 2 ^ 7 := Nat.mod_lt _ (by decide)
  have hleft : n / 2 ^ 22 % 8 < 2 ^ 7 := by omega
  have hlow : n / 2 ^ 7 % 128 ≤ n / 2 ^ 22 % 8 ||| n / 2 ^ 7 % 128 := Nat.right_le_or
  have hhigh : (n / 2 ^ 22 % 8 ||| n / 2 ^ 7 % 128) < 2 ^ 7 := Nat.or_lt_two_pow hleft hgroup
  have hnone : n < 2 ^ 22 → n / 2 ^ 22 % 8 ||| n / 2 ^ 7 % 128 = n / 2 ^ 7 % 128 := by
    intro hlt
    rw [Nat.div_eq_of_lt hlt, Nat.zero_mod, Nat.zero_or]
  unfold VarLenKept
  generalize n / 2 ^ 22 % 8 ||| n / 2 ^ 7 % 128 = third at hmap hlow hhigh hnone ⊢
  split at hmap
  · refine ⟨_, readVarLen_of_map [n / 2 ^ 21, 16 * (n / 2 ^ 18 % 8), third] hlast hmap, ?_⟩
    simp only [List.cons_append, List.nil_append, List.foldl_cons, List.foldl_nil]
    omega
  split at hmap
  · refine ⟨_, readVarLen_of_map [16 * (n / 2 ^ 18 % 8), n / 2 ^ 7 % 128] hlast hmap, ?_⟩
    simp only [List.cons_append, List.nil_append, List.foldl_cons, List.foldl_nil]
    omega
  split at hmap
  · refine ⟨_, readVarLen_of_map [n / 2 ^ 7 % 128] hlast hmap, ?_⟩
    simp only [List.cons_append, List.nil_append, List.foldl_cons, List.foldl_nil]
    omega
  · refine ⟨_, readVarLen_of_map [] hlast hmap, ?_⟩
    simp only [List.nil_append, List.foldl_cons, List.foldl_nil]
    omega

/-- What is read of a quantity that has been written is its low 28 bits, exactly if these are
kept. -/
theorem varLen_roundTrips_iff (word : UInt32) (bytes : List UInt8) :
    readVarLen 0 (varLen word ++ bytes) = some ((word &&& 0x0fffffff).toNat, bytes) ↔
      VarLenKept (word &&& 0x0fffffff).toNat := by
  have hword : (word &&& 0x0fffffff).toNat = word.toNat % 2 ^ 28 := by
    rw [UInt32.toNat_and]
    exact Nat.and_two_pow_sub_one_eq_mod word.toNat 28
  obtain ⟨m, hread, hkept⟩ := readVarLen_varLen word bytes
  rw [hword, hread, ← hkept, Option.some.injEq, Prod.mk.injEq, and_iff_left rfl]

/-- The quantity 2^14 is read as zero. -/
theorem not_varLen_roundTrips :
    ¬ ∀ word bytes, readVarLen 0 (varLen word ++ bytes) =
      some ((word &&& 0x0fffffff).toNat, bytes) := by
  intro hall
  have hread : readVarLen 0 (varLen 0x4000 ++ []) = some (0, []) := by decide
  exact absurd (hread.symm.trans (hall 0x4000 [])) (by decide)

end Chunk

end Vuknob
