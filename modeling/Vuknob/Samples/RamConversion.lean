import Vuknob.Samples.WavLoader

/-!
# What is read and converted

Reads of bytes that are in the file are defined, and `load_to_ram` writes every value of the buffer
once where all bytes of the values can be read.
-/

namespace Vuknob

open Library (loop loop_rule)

namespace WavLoader

/-! ## Reading bytes -/

variable {byteAt : Int → Option UInt8} {bytes : List UInt8} {n : Nat}

theorem readBytes_eq (hbyte : ∀ k < bytes.length, byteAt k = bytes[k]?)
    (hfits : bytes.length < 2 ^ 31) {i : Nat} (h : i + n ≤ bytes.length) :
    readBytes byteAt i n = some ((bytes.drop i).take n) := by
  induction n generalizing i with
  | zero => rw [readBytes, List.take_zero]
  | succ n ih =>
    have hi : i < bytes.length := by omega
    have hnext := ih (i := i + 1) (by omega)
    rw [Int.natCast_succ] at hnext
    rw [readBytes, int_of_fits (by omega)]
    simp only [Option.bind_eq_bind, Option.bind_some, hbyte i hi,
      List.getElem?_eq_getElem hi, hnext]
    rw [List.drop_eq_getElem_cons hi, List.take_succ_cons]
    rfl

/-- The bytes of a part of an array. -/
theorem readBytes_fetch (hfits : bytes.length < 2 ^ 31) {i : Nat} (h : i + n ≤ bytes.length) :
    readBytes (Library.fetch bytes) i n = some ((bytes.drop i).take n) :=
  readBytes_eq (fun _ _ ↦ Library.fetch_natCast ..) hfits h

/-- Every byte of a read that is defined can be read. -/
theorem byteAt_of_readBytes {place : Int} (h : readBytes byteAt place n = some bytes) {k : Nat}
    (hk : k < n) : ∃ byte, byteAt (place + k) = some byte := by
  induction n generalizing place bytes k with
  | zero => omega
  | succ n ih =>
    obtain ⟨ofs, hofs, h⟩ := Option.bind_eq_some_iff.mp h
    obtain ⟨byte, hbyte, h⟩ := Option.bind_eq_some_iff.mp h
    obtain ⟨bytes', hbytes', -⟩ := Option.bind_eq_some_iff.mp h
    cases k with
    | zero =>
      rw [Int.natCast_zero, Int.add_zero, ← (int_eq_some_iff.mp hofs).2]
      exact ⟨byte, hbyte⟩
    | succ k =>
      rw [Int.natCast_succ, Int.add_comm (k : Int), ← Int.add_assoc]
      exact ih hbytes' (by omega)

theorem le_of_readBytes {mapped : List UInt8} {place : Int}
    (h : readBytes (Library.fetch mapped) place (n + 1) = some bytes) :
    0 ≤ place ∧ place + (n + 1) ≤ mapped.length := by
  obtain ⟨_, hfirst⟩ := byteAt_of_readBytes h (Nat.zero_lt_succ n)
  obtain ⟨_, hlast⟩ := byteAt_of_readBytes h (Nat.lt_succ_self n)
  have := Library.lt_of_fetch hfirst
  have := Library.lt_of_fetch hlast
  omega

/-! ## The loops of `load_to_ram` -/

variable {channels samples size : Nat} {values : Nat → List UInt8} {ram : List Int}

/-- The resolutions that are understood, by the bytes of a value. -/
def Understood (size : Nat) : Prop := size = 1 ∨ size = 2 ∨ size = 3 ∨ size = 4

theorem Understood.pos (h : Understood size) : 0 < size := by
  rcases h with rfl | rfl | rfl | rfl <;> decide

theorem bind_readBytes {i : Nat} (hfits : size * i < 2 ^ 31)
    (hbytes : readBytes byteAt (size * i : Nat) size = some bytes) :
    ((int ((size : Nat) * i)).bind fun place ↦
      (readBytes byteAt place size).bind fun bytes ↦ some (some bytes)) = some (some bytes) := by
  rw [← Int.natCast_mul, int_of_fits (by omega), Option.bind_some, hbytes, Option.bind_some]

theorem of_bind_readBytes {i : Int} {o : Option (List UInt8)}
    (h : ((int ((size : Nat) * i)).bind fun place ↦
      (readBytes byteAt place size).bind fun bytes ↦ some (some bytes)) = some o) :
    ∃ bytes, o = some bytes ∧ readBytes byteAt (size * i) size = some bytes := by
  obtain ⟨place, hplace, h⟩ := Option.bind_eq_some_iff.mp h
  obtain ⟨bytes, hbytes, h⟩ := Option.bind_eq_some_iff.mp h
  exact ⟨bytes, (Option.some.inj h).symm, (int_eq_some_iff.mp hplace).2 ▸ hbytes⟩

theorem valueBytes_eq (hsize : Understood size) {i : Nat} (hfits : size * i < 2 ^ 31)
    (hbytes : readBytes byteAt (size * i : Nat) size = some bytes) :
    valueBytes byteAt (8 * size : Nat) i = some (some bytes) := by
  rcases hsize with rfl | rfl | rfl | rfl
  · rw [Nat.one_mul] at hbytes
    rw [show ((8 * 1 : Nat) : Int) = 8 from rfl, valueBytes, hbytes]
    rfl
  · rw [show ((8 * 2 : Nat) : Int) = 16 from rfl, valueBytes]
    exact bind_readBytes hfits hbytes
  · rw [show ((8 * 3 : Nat) : Int) = 24 from rfl, valueBytes]
    exact bind_readBytes hfits hbytes
  · rw [show ((8 * 4 : Nat) : Int) = 32 from rfl, valueBytes]
    exact bind_readBytes hfits hbytes

/-- The buffer when the first values have been written. -/
def filled (values : Nat → List UInt8) (ram : List Int) (i : Nat) : RamState :=
  ⟨true, (List.range i).map (fun i ↦ ramValue (values i)) ++ ram.drop i⟩

theorem loadValue_filled (hsize : Understood size) {k c : Nat}
    (hi : k * channels + c < ram.length) (hfits : size * ram.length < 2 ^ 31)
    (hbytes : readBytes byteAt (size * (k * channels + c) : Nat) size =
      some (values (k * channels + c))) :
    loadValue byteAt channels (8 * size : Nat) k c (filled values ram (k * channels + c)) =
      some (filled values ram (k * channels + c + 1)) := by
  have hscaled : size * (k * channels + c) < 2 ^ 31 :=
    Nat.lt_of_le_of_lt (Nat.mul_le_mul_left _ hi.le) hfits
  have hindexFits : k * channels + c < 2 ^ 31 :=
    Nat.lt_of_le_of_lt (Nat.le_mul_of_pos_left _ hsize.pos) hscaled
  have hrow : int ((k : Int) * channels) = some ((k * channels : Nat) : Int) := by
    rw [← Int.natCast_mul]
    exact int_of_fits (by omega)
  have hindex : int ((k * channels : Nat) + c : Int) = some ((k * channels + c : Nat) : Int) := by
    rw [← Int.natCast_add]
    exact int_of_fits (by omega)
  have hstore := Library.store_fill
    ((List.range (k * channels + c)).map fun i ↦ ramValue (values i)) ram
    (by rw [List.length_map, List.length_range]; exact hi) (ramValue (values (k * channels + c)))
  rw [List.length_map, List.length_range] at hstore
  rw [loadValue, filled, if_pos rfl, hrow, Option.bind_eq_bind, Option.bind_some, hindex,
    Option.bind_eq_bind, Option.bind_some, valueBytes_eq hsize hscaled hbytes,
    Option.bind_eq_bind, Option.bind_some]
  show (Library.store _ _ _).bind _ = _
  rw [hstore, Option.bind_some, filled, List.range_succ, List.map_append]
  rfl

/-- With all bytes of the values in reach the loops write each value once. -/
theorem loadToRam_eq (values : Nat → List UInt8) (hsize : Understood size)
    (hram : ram.length = samples * channels) (hfits : size * ram.length < 2 ^ 31)
    (hbytes : ∀ i < samples * channels, readBytes byteAt (size * i : Nat) size = some (values i)) :
    loadToRam byteAt channels samples (8 * size : Nat) ram =
      some ⟨true, (List.range (samples * channels)).map fun i ↦ ramValue (values i)⟩ := by
  obtain ⟨ρ, hloop, rfl⟩ := loop_rule (s := ⟨true, ram⟩) (n := samples)
    (f := fun k ↦ loop (loadValue byteAt channels (8 * size : Nat) k) channels)
    (fun k ρ ↦ ρ = filled values ram (k * channels)) (by rw [Nat.zero_mul]; rfl)
    fun k hk ρ hρ ↦ by
      obtain ⟨ρ', hloop, hρ'⟩ := loop_rule (s := ρ) (n := channels)
        (f := loadValue byteAt channels (8 * size : Nat) k)
        (fun c ρ ↦ ρ = filled values ram (k * channels + c)) hρ fun c hc ρ hρ ↦ by
          have hi : k * channels + c < samples * channels :=
            calc k * channels + c < (k + 1) * channels := by rw [Nat.succ_mul]; omega
              _ ≤ samples * channels := Nat.mul_le_mul_right _ hk
          exact ⟨_, hρ ▸ loadValue_filled hsize (hram ▸ hi) hfits (hbytes _ hi), rfl⟩
      exact ⟨ρ', hloop, by rw [hρ', Nat.succ_mul]⟩
  rw [loadToRam, Int.toNat_natCast, Int.toNat_natCast, hloop, filled, ← hram, List.drop_length,
    List.append_nil]

/-! ## What is not in reach -/

theorem valueBytes_of_not_understood {bits : Nat}
    (hbits : ∀ size, Understood size → bits ≠ 8 * size) (i : Int) :
    valueBytes byteAt bits i = some none := by
  have h₁ := hbits 1 (.inl rfl)
  have h₂ := hbits 2 (.inr (.inl rfl))
  have h₃ := hbits 3 (.inr (.inr (.inl rfl)))
  have h₄ := hbits 4 (.inr (.inr (.inr rfl)))
  rw [valueBytes]
  · rfl
  all_goals omega

/-- A resolution that is not understood ends the loops at the first value. -/
theorem exists_loadToRam {bits : Nat} (hbits : ∀ size, Understood size → bits ≠ 8 * size)
    (hchannels : 0 < channels) (ram : List Int) :
    ∃ ρ, loadToRam byteAt channels samples bits ram = some ρ ∧
      (ρ.understood = true → samples = 0) := by
  obtain ⟨ρ, hρ, hstop⟩ := loop_rule (s := ⟨true, ram⟩) (n := samples)
    (f := fun k ↦ loop (loadValue byteAt channels bits k) channels)
    (fun k ρ ↦ ρ.understood = true → k = 0) (fun _ ↦ rfl) fun k hk ρ hρ ↦ by
      obtain ⟨ρ', hloop, hρ'⟩ := loop_rule (s := ρ) (n := channels)
        (f := loadValue byteAt channels bits k)
        (fun c ρ ↦ ρ.understood = true → k = 0 ∧ c = 0) (fun h ↦ ⟨hρ h, rfl⟩) fun c hc ρ hρ ↦ by
          by_cases hu : ρ.understood
          · obtain ⟨rfl, rfl⟩ := hρ hu
            refine ⟨{ ρ with understood := false }, ?_, nofun⟩
            rw [loadValue, if_pos hu]
            have hzero : ((0 : Nat) : Int) * channels = 0 := Int.zero_mul _
            rw [hzero, show int 0 = some 0 from rfl, Option.bind_eq_bind, Option.bind_some]
            show (int 0).bind _ = _
            rw [show int 0 = some 0 from rfl, Option.bind_some,
              valueBytes_of_not_understood hbits]
            rfl
          · exact ⟨ρ, if_neg hu, fun h ↦ absurd h hu⟩
      exact ⟨ρ', hloop, fun h ↦ absurd (hρ' h).2 hchannels.ne'⟩
  rw [loadToRam, Int.toNat_natCast, Int.toNat_natCast]
  exact ⟨ρ, hρ, hstop⟩

theorem readBytes_of_valueBytes (hsize : Understood size) {i : Int} {o : Option (List UInt8)}
    (h : valueBytes byteAt (8 * size : Nat) i = some o) :
    ∃ bytes, o = some bytes ∧ readBytes byteAt (size * i) size = some bytes := by
  rcases hsize with rfl | rfl | rfl | rfl
  · rw [show ((8 * 1 : Nat) : Int) = 8 from rfl, valueBytes] at h
    have hone : ((1 : Nat) : Int) * i = i := Int.one_mul i
    rw [hone]
    obtain ⟨bytes, hbytes, h⟩ := Option.bind_eq_some_iff.mp h
    exact ⟨bytes, (Option.some.inj h).symm, hbytes⟩
  · rw [show ((8 * 2 : Nat) : Int) = 16 from rfl, valueBytes] at h
    exact of_bind_readBytes h
  · rw [show ((8 * 3 : Nat) : Int) = 24 from rfl, valueBytes] at h
    exact of_bind_readBytes h
  · rw [show ((8 * 4 : Nat) : Int) = 32 from rfl, valueBytes] at h
    exact of_bind_readBytes h

/-- A round that is defined reads a value. -/
theorem readBytes_of_loadValue (hsize : Understood size) {k c : Nat} {ρ ρ' : RamState}
    (hρ : ρ.understood = true) (h : loadValue byteAt channels (8 * size : Nat) k c ρ = some ρ') :
    ρ'.understood = true ∧
      ∃ bytes, readBytes byteAt (size * (k * channels + c) : Nat) size = some bytes := by
  rw [loadValue, if_pos hρ] at h
  obtain ⟨row, hrow, h⟩ := Option.bind_eq_some_iff.mp h
  obtain ⟨i, hi, h⟩ := Option.bind_eq_some_iff.mp h
  obtain ⟨o, ho, h⟩ := Option.bind_eq_some_iff.mp h
  obtain ⟨bytes, rfl, hbytes⟩ := readBytes_of_valueBytes hsize ho
  obtain ⟨ram', _, h⟩ := Option.bind_eq_some_iff.mp h
  refine ⟨Option.some.inj h ▸ hρ, bytes, ?_⟩
  rw [(int_eq_some_iff.mp hi).2, (int_eq_some_iff.mp hrow).2] at hbytes
  exact_mod_cast hbytes

/-- Where the loops are defined, the last byte of the values can be read. -/
theorem byteAt_of_loadToRam (hsize : Understood size) (hvalues : 0 < samples * channels)
    {ρ : RamState}
    (h : loadToRam byteAt channels samples (8 * size : Nat) ram = some ρ) :
    ∃ byte, byteAt (size * (samples * channels) - 1 : Nat) = some byte := by
  have hsamples := Nat.pos_of_mul_pos_right hvalues
  have hchannels := Nat.pos_of_mul_pos_left hvalues
  have hround (k c : Nat) (ρ ρ' : RamState) (hρ : ρ.understood = true)
      (h : loadValue byteAt channels (8 * size : Nat) k c ρ = some ρ') : ρ'.understood = true :=
    (readBytes_of_loadValue hsize hρ h).1
  rw [loadToRam, Int.toNat_natCast, Int.toNat_natCast] at h
  obtain ⟨τ, τ', hτ, hrow⟩ := Library.exists_of_loop h (i := samples - 1) (by omega)
  have hτu := Library.loop_keeps (fun ρ ↦ ρ.understood = true) rfl
    (fun k ρ ρ' hρ h ↦ Library.loop_keeps (fun ρ ↦ ρ.understood = true) hρ (hround k) h) hτ
  obtain ⟨σ, σ', hσ, hvalue⟩ := Library.exists_of_loop hrow (i := channels - 1) (by omega)
  have hσu := Library.loop_keeps (fun ρ ↦ ρ.understood = true) hτu (hround (samples - 1)) hσ
  obtain ⟨bytes, hbytes⟩ := (readBytes_of_loadValue hsize hσu hvalue).2
  obtain ⟨byte, hbyte⟩ := byteAt_of_readBytes hbytes (k := size - 1) (by have := hsize.pos; omega)
  refine ⟨byte, ?_⟩
  have hlast : size * (samples * channels) - 1 =
      size * ((samples - 1) * channels + (channels - 1)) + (size - 1) := by
    have hcount : (samples - 1) * channels + (channels - 1) + 1 = samples * channels := by
      rw [Nat.sub_mul, Nat.one_mul]
      have := Nat.le_mul_of_pos_left channels hsamples
      omega
    have := hsize.pos
    rw [← hcount, Nat.mul_succ]
    omega
  rw [hlast, Int.natCast_add]
  exact hbyte

end WavLoader

end Vuknob
