import Vuknob.Samples.RamConversion
import Vuknob.Samples.SignalStorage

/-!
# The levels of samples

A sample of integers is converted to `fp8p24_t` when it is loaded with a project, and when it is
loaded from a WAV file. Both tables have a row for each resolution.
-/

namespace Vuknob

namespace WavLoader

variable {size : Nat}

/-! ## The value of a sample -/

theorem littleEndian_reverse (v : Int) :
    (littleEndian (bigEndian size v).reverse : Int) = v % 256 ^ size := by
  have hcast (bytes : List UInt8) (n : Nat) :
      ((bytes.foldl (fun n b ↦ b.toNat + 256 * n) n : Nat) : Int) =
        bytes.foldl (fun n b ↦ 256 * n + (b.toNat : Int)) (n : Int) := by
    induction bytes generalizing n with
    | nil => rfl
    | cons b bytes ih =>
      rw [List.foldl_cons, List.foldl_cons, ih]
      congr 1
      push_cast
      omega
  rw [littleEndian, List.foldr_reverse, hcast, foldl_bigEndian, Nat.cast_zero, Int.zero_mul,
    Int.zero_add]

/-- A sample of any resolution is moved to the upper bits, and then shifted down. -/
theorem ramValue_eq (hsize : Understood size) {v : Int}
    (hfits : -256 ^ size ≤ 2 * v ∧ 2 * v < 256 ^ size) :
    ramValue (bigEndian size v).reverse = v * 256 ^ (4 - size) / 256 := by
  have hupper : (v % 256 ^ size * 256 ^ (4 - size)).bmod (2 ^ 32) = v * 256 ^ (4 - size) := by
    rw [Int.bmod_eq_iff (by decide)]
    rcases hsize with rfl | rfl | rfl | rfl <;> omega
  rw [ramValue, List.length_reverse, length_bigEndian, Int.natCast_mul, littleEndian_reverse,
    Nat.cast_pow, Nat.cast_ofNat, toInt32, hupper, Int.shiftRight_eq_div_pow]
  rfl

end WavLoader

/-! ## Both tables -/

namespace StaticSignal

open WavLoader (Understood loadToRam ramValue)

variable {s : StaticSignal}

/-- The samples in the order of a WAV file. -/
def wavData (s : StaticSignal) : List UInt8 :=
  s.buffer.flatMap fun x ↦ (bigEndian s.resolution.size x).reverse

theorem drop_flatMap {f : Int → List UInt8} {size : Nat} (hf : ∀ x, (f x).length = size)
    (xs : List Int) (i : Nat) : (xs.flatMap f).drop (size * i) = (xs.drop i).flatMap f := by
  induction xs generalizing i with
  | nil => rw [List.drop_nil, List.flatMap_nil, List.drop_nil]
  | cons x xs ih =>
    cases i with
    | zero => rfl
    | succ i =>
      rw [List.flatMap_cons, List.drop_succ_cons, ← ih, Nat.mul_succ, Nat.add_comm, ← hf x,
        ← List.drop_drop, List.drop_left]

theorem length_wavData (s : StaticSignal) :
    s.wavData.length = s.resolution.size * s.buffer.length := by
  rw [wavData, List.length_flatMap]
  simp only [List.length_reverse, length_bigEndian]
  rw [List.map_const', List.sum_replicate_nat, Nat.mul_comm]

theorem size_le (r : Resolution) : r.size ≤ 4 := by
  cases r <;> decide

/-- The bytes of a sample in the data of a WAV file. -/
theorem WellFormed.readBytes_wavData (hs : s.WellFormed) {i : Nat} (hi : i < s.buffer.length) :
    WavLoader.readBytes (Library.fetch s.wavData) (s.resolution.size * i : Nat) s.resolution.size =
      some (bigEndian s.resolution.size s.buffer[i]).reverse := by
  have hlen := length_wavData s
  have hmem := hs.inMemory
  have hbytes : s.resolution.size * s.buffer.length ≤ 4 * s.buffer.length :=
    Nat.mul_le_mul_right _ (size_le _)
  have hnext : s.resolution.size * (i + 1) ≤ s.resolution.size * s.buffer.length :=
    Nat.mul_le_mul_left _ hi
  rw [Nat.mul_succ] at hnext
  rw [WavLoader.readBytes_fetch (by omega) (by omega), wavData,
    drop_flatMap fun x ↦ by rw [List.length_reverse, length_bigEndian]]
  rw [List.drop_eq_getElem_cons hi, List.flatMap_cons]
  exact congrArg some (List.take_left' (by rw [List.length_reverse, length_bigEndian]))

/-- What is loaded with a project, and what is loaded from a WAV file. -/
theorem WellFormed.levels_eq (hs : s.WellFormed) (hsize : Understood s.resolution.size)
    (uninitialised : Vector UInt8 saveBufferSize) (index : Int) (files : Files)
    {malloc : Int → Bool} (hmalloc : malloc (s.buffer.length * 4) = true) {ram : List Int}
    (hram : ram.length = s.buffer.length) :
    ∃ files', s.save0DSignalXml true uninitialised index files = some (.ok files') ∧
      load0DSignalXml malloc index s.dimension s.resolution s.channels s.samples s.frequency
          s.filePath s.name files' =
        some (.ok (some { s with
          resolution := targetResolution s.resolution
          buffer := s.loaded })) ∧
      loadToRam (Library.fetch s.wavData) s.channels s.samples (8 * s.resolution.size : Nat) ram =
        some ⟨true, s.buffer.map fun x ↦ x * 256 ^ (4 - s.resolution.size) / 256⟩ := by
  refine ⟨_, hs.save_eq uninitialised index files, ?_, ?_⟩
  · rw [hs.load_eq malloc index _ (Function.update_self ..), if_pos hmalloc]
  · obtain ⟨channels, hchannels⟩ := Int.eq_ofNat_of_zero_le hs.channels
    obtain ⟨samples, hsamples⟩ := Int.eq_ofNat_of_zero_le hs.samples
    have hlen : s.buffer.length = samples * channels := by
      have := hs.length
      rw [hchannels, hsamples, ← Int.natCast_mul] at this
      rw [Int.ofNat_inj.mp this, Nat.mul_comm]
    have hbytes : s.resolution.size * ram.length < 2 ^ 31 :=
      Nat.lt_of_le_of_lt (Nat.mul_le_mul_right _ (size_le _))
        (by rw [hram, Nat.mul_comm]; exact hs.inMemory)
    rw [hchannels, hsamples, WavLoader.loadToRam_eq
      (fun i ↦ (bigEndian s.resolution.size (s.buffer.getD i 0)).reverse)
      hsize (hram.trans hlen) hbytes fun i hi ↦ by
        have hi : i < s.buffer.length := hlen ▸ hi
        rw [hs.readBytes_wavData hi, List.getD_eq_getElem?_getD, List.getElem?_eq_getElem hi]
        rfl]
    refine congrArg (some ∘ WavLoader.RamState.mk true) (List.ext_getElem ?_ fun i h₁ h₂ ↦ ?_)
    · rw [List.length_map, List.length_map, List.length_range, hlen]
    · have hi : i < s.buffer.length := by rw [List.length_map] at h₂; exact h₂
      rw [List.getElem_map, List.getElem_map, List.getElem_range, List.getD_eq_getElem?_getD,
        List.getElem?_eq_getElem hi, Option.getD_some,
        WavLoader.ramValue_eq hsize (hs.fits _ (List.getElem_mem hi))]

/-- Both tables make the same value of a sample that has not 16 bits, or is silent. -/
theorem level_eq_iff {r : Resolution} (hr : r = .bits8 ∨ r = .bits16 ∨ r = .bits32) {x : Int}
    (hx : -256 ^ r.size ≤ 2 * x ∧ 2 * x < 256 ^ r.size) :
    convert r (bigEndian r.size x) = x * 256 ^ (4 - r.size) / 256 ↔ r ≠ .bits16 ∨ x = 0 := by
  have hsigned := signedBigEndian_bigEndian hx
  rcases hr with rfl | rfl | rfl
  · refine iff_of_true ?_ (.inl (by decide))
    rw [convert, hsigned, Resolution.size]
    omega
  · rw [convert, hsigned, Resolution.size, or_iff_right (not_not.mpr rfl)]
    omega
  · refine iff_of_true ?_ (.inl (by decide))
    rw [convert, hsigned, Resolution.size, Int.shiftRight_eq_div_pow]
    omega

/-- A signal of integers has the same values in both ways exactly where its samples do not have
16 bits, or are silent: a sample of 16 bits in a project is loaded at half the level. -/
theorem levels_agree_iff (hs : s.WellFormed)
    (hr : s.resolution = .bits8 ∨ s.resolution = .bits16 ∨ s.resolution = .bits32)
    (uninitialised : Vector UInt8 saveBufferSize) (index : Int) (files : Files)
    {malloc : Int → Bool} (hmalloc : malloc (s.buffer.length * 4) = true) {ram : List Int}
    (hram : ram.length = s.buffer.length) :
    ∃ files' loaded ρ, s.save0DSignalXml true uninitialised index files = some (.ok files') ∧
      load0DSignalXml malloc index s.dimension s.resolution s.channels s.samples s.frequency
          s.filePath s.name files' = some (.ok (some loaded)) ∧
      loadToRam (Library.fetch s.wavData) s.channels s.samples (8 * s.resolution.size : Nat) ram =
        some ρ ∧ ρ.understood = true ∧
      (loaded.buffer = ρ.ramBuffer ↔ s.resolution ≠ .bits16 ∨ ∀ x ∈ s.buffer, x = 0) := by
  have hsize : Understood s.resolution.size := by
    rcases hr with hr | hr | hr <;> rw [hr]
    exacts [.inl rfl, .inr (.inl rfl), .inr (.inr (.inr rfl))]
  obtain ⟨files', hsave, hload, hram⟩ := hs.levels_eq hsize uninitialised index files hmalloc hram
  refine ⟨files', _, _, hsave, hload, hram, rfl, ?_⟩
  rw [loaded, List.map_inj_left, ← forall_or_left]
  exact forall_congr' fun x ↦ (forall_congr' fun hx ↦ level_eq_iff hr (hs.fits x hx)).trans
    forall_or_left

/-- A stereo signal of 8 bits. -/
theorem levels_agree_stereo :
    let s : StaticSignal :=
      ⟨.zeroD, .bits8, 2, 2, 44100, str "a.wav", str "a", [1, -1, 127, -128]⟩
    ∃ files' loaded ρ, s.save0DSignalXml true (.replicate _ 0) 3 (fun _ ↦ none) =
        some (.ok files') ∧
      load0DSignalXml (fun _ ↦ true) 3 s.dimension s.resolution s.channels s.samples s.frequency
          s.filePath s.name files' = some (.ok (some loaded)) ∧
      loadToRam (Library.fetch s.wavData) s.channels s.samples (8 * s.resolution.size : Nat)
          [0, 0, 0, 0] = some ρ ∧ ρ.understood = true ∧
      (loaded.buffer = ρ.ramBuffer ↔ s.resolution ≠ .bits16 ∨ ∀ x ∈ s.buffer, x = 0) :=
  levels_agree_iff ⟨by decide, by decide, by decide, by decide, by decide, by decide⟩ (.inl rfl)
    _ 3 _ rfl rfl

/-- A loud sample of 16 bits. -/
theorem levels_disagree :
    let s : StaticSignal := ⟨.zeroD, .bits16, 1, 1, 44100, str "a.wav", str "a", [16384]⟩
    ∃ files' loaded ρ, s.save0DSignalXml true (.replicate _ 0) 3 (fun _ ↦ none) =
        some (.ok files') ∧
      load0DSignalXml (fun _ ↦ true) 3 s.dimension s.resolution s.channels s.samples s.frequency
          s.filePath s.name files' = some (.ok (some loaded)) ∧
      loadToRam (Library.fetch s.wavData) s.channels s.samples 16 [0] = some ρ ∧
      loaded.buffer = [2097152] ∧ ρ.ramBuffer = [4194304] := by
  intro s
  have hs : s.WellFormed :=
    ⟨by decide, by decide, by decide, by decide, by decide, by decide⟩
  let malloc (_ : Int) : Bool := true
  have hmalloc : malloc (s.buffer.length * 4) = true := rfl
  have hlength : [(0 : Int)].length = s.buffer.length := rfl
  obtain ⟨files', hsave, hload, hram⟩ :=
    hs.levels_eq (.inr (.inl rfl)) (.replicate _ 0) 3 (fun _ ↦ none) hmalloc hlength
  exact ⟨files', _, _, hsave, hload, hram, by decide, by decide⟩

end StaticSignal

end Vuknob
