import Mathlib.Tactic.Ring
import Vuknob.Library.BlockWriter
import Vuknob.Samples.StaticSignal

/-!
# Saving and loading static signals

What `save_0D_signal_xml` writes through its block buffer are the values of the signal in order, and
`load_0D_signal_xml` makes one value of each of them.
-/

namespace Vuknob

open Library (BlockWriter loop loop_rule)

/-! ## Byte order -/

theorem toNat_ofInt (v : Int) : ((UInt8.ofInt v).toNat : Int) = v % 256 := by
  rw [UInt8.ofInt]
  simp only [UInt8.toNat_ofNat']
  omega

theorem shiftRight_eight_mul (v : Int) (k : Nat) : v >>> (8 * k) = v / 256 ^ k := by
  rw [Int.shiftRight_eq_div_pow, Nat.pow_mul]
  norm_num

/-- The remainder of a longer number begins with the digit in front of it. -/
theorem emod_pow_succ (v : Int) (k : Nat) :
    v % 256 ^ (k + 1) = v / 256 ^ k % 256 * 256 ^ k + v % 256 ^ k := by
  have hpos : (0 : Int) < 256 ^ k := Int.pow_pos (by decide)
  have hlow := Int.emod_nonneg v hpos.ne'
  have hhigh := Int.emod_lt_of_pos v hpos
  refine (Int.ediv_emod_unique (q := v / 256 ^ k / 256) (Int.pow_pos (by decide))).mpr ?_ |>.2
  refine ⟨?_, ?_, ?_⟩
  · have h₁ := Int.mul_ediv_add_emod v (256 ^ k)
    have h₂ := Int.mul_ediv_add_emod (v / 256 ^ k) 256
    calc v / 256 ^ k % 256 * 256 ^ k + v % 256 ^ k + 256 ^ (k + 1) * (v / 256 ^ k / 256)
        = 256 ^ k * (256 * (v / 256 ^ k / 256) + v / 256 ^ k % 256) + v % 256 ^ k := by ring
      _ = v := by rw [h₂, h₁]
  · have := Int.mul_nonneg (Int.emod_nonneg (v / 256 ^ k) (by decide : (256 : Int) ≠ 0)) hpos.le
    omega
  · have hdigit := Int.emod_lt_of_pos (v / 256 ^ k) (by decide : (0 : Int) < 256)
    have : v / 256 ^ k % 256 * 256 ^ k ≤ 255 * 256 ^ k :=
      Int.mul_le_mul_of_nonneg_right (by omega) hpos.le
    rw [Int.pow_succ]
    omega

theorem foldl_bigEndian (size : Nat) (v n : Int) :
    (bigEndian size v).foldl (fun n b ↦ 256 * n + (b.toNat : Int)) n =
      n * 256 ^ size + v % 256 ^ size := by
  induction size generalizing n with
  | zero => simp [bigEndian]
  | succ size ih =>
    rw [bigEndian, List.foldl_cons, ih, toNat_ofInt, shiftRight_eight_mul, emod_pow_succ]
    ring

theorem signedBigEndian_bigEndian {size : Nat} {v : Int}
    (h : -256 ^ size ≤ 2 * v ∧ 2 * v < 256 ^ size) : signedBigEndian (bigEndian size v) = v := by
  rw [signedBigEndian, ofBigEndian, foldl_bigEndian, length_bigEndian, Int.zero_mul, Int.zero_add]
  have hcast : (256 : Int) ^ size = ((256 ^ size : Nat) : Int) := by push_cast; rfl
  rw [hcast] at h ⊢
  rw [Int.emod_bmod]
  apply Int.bmod_eq_of_le_mul_two <;> omega

/-! ## Signals in memory -/

namespace StaticSignal

variable {s : StaticSignal} {k : Nat}

/-- A signal of values: the buffer holds as many as the channels and samples say, and each one fits
its type. As four bytes each, which they have when they are loaded, the values fit in memory: no
object is larger than `PTRDIFF_MAX`, which is `2 ^ 31 - 1` on the targets. -/
structure WellFormed (s : StaticSignal) : Prop where
  values : s.resolution ≠ .ptr ∧ s.resolution ≠ .maxR
  channels : 0 ≤ s.channels
  samples : 0 ≤ s.samples
  length : (s.buffer.length : Int) = s.channels * s.samples
  inMemory : s.buffer.length * 4 < 2 ^ 31
  fits : ∀ x ∈ s.buffer, -256 ^ s.resolution.size ≤ 2 * x ∧ 2 * x < 256 ^ s.resolution.size

theorem size_lt (r : Resolution) : r.size < saveBufferSize := by
  cases r <;> decide

/-- The values as they are in the file. -/
def items (s : StaticSignal) : List (List UInt8) := s.buffer.map (bigEndian s.resolution.size)

theorem WellFormed.output_eq (h : s.WellFormed) {x : Int} (hx : s.buffer[k]? = some x) :
    s.output k = some (bigEndian s.resolution.size x) := by
  obtain ⟨hptr, hmax⟩ := h.values
  rw [output]
  split
  · next he => exact absurd he hptr
  · next he => exact absurd he hmax
  · rw [Library.fetch_natCast, hx, Option.map_some]

/-! ## The block buffer -/

theorem memcpy_eq (dst src : List UInt8) {i : Nat} (h : i + src.length ≤ dst.length) :
    ∃ dst', memcpy dst i src = some dst' ∧ dst'.length = dst.length ∧
      dst'.take (i + src.length) = dst.take i ++ src := by
  refine ⟨_, if_pos h, ?_, ?_⟩
  · simp only [List.length_append, List.length_take, List.length_drop]
    omega
  · have hlen : (dst.take i ++ src).length = i + src.length := by
      rw [List.length_append, List.length_take]
      omega
    rw [← hlen, List.take_left]

/-- The state of `save_0D_signal_xml` is that of a writer of blocks. -/
structure Writes (w : BlockWriter UInt8) (σ : SaveState) : Prop where
  file : σ.file = w.written
  length : σ.outputBuffer.length = saveBufferSize
  index : σ.outputBufferIndex = w.pending.length
  pending : σ.outputBuffer.take σ.outputBufferIndex = w.pending
  room : w.pending.length < saveBufferSize

theorem Writes.write {w : BlockWriter UInt8} {σ : SaveState} (h : Writes w σ) :
    σ.write = some { σ with file := w.flush } := by
  have hroom := h.room
  rw [SaveState.write, if_pos (by rw [h.index, h.length]; omega), h.file, h.pending]
  rfl

/-- A round of the loop puts a value. -/
theorem Writes.saveValue (hs : s.WellFormed) {w : BlockWriter UInt8} {σ : SaveState}
    (h : Writes w σ) {x : Int} (hx : s.buffer[k]? = some x) :
    ∃ σ', s.saveValue k σ = some σ' ∧
      Writes (w.put saveBufferSize (bigEndian s.resolution.size x)) σ' := by
  have hsize := size_lt s.resolution
  have hroom := h.room
  have hitem : (bigEndian s.resolution.size x).length < saveBufferSize := by
    rw [length_bigEndian]
    exact hsize
  have hpending := BlockWriter.pending_lt w hitem
  have hlen : (bigEndian s.resolution.size x).length = s.resolution.size := length_bigEndian ..
  rw [StaticSignal.saveValue, hs.output_eq hx]
  simp only [Option.bind_eq_bind, Option.bind_some]
  by_cases hfull : saveBufferSize ≤ σ.outputBufferIndex + (bigEndian s.resolution.size x).length
  · -- the block is written out first
    rw [if_pos hfull, h.write, Option.map_some, Option.bind_some]
    obtain ⟨dst, hdst, hdstLength, htake⟩ := memcpy_eq (i := 0) σ.outputBuffer
      (bigEndian s.resolution.size x) (by rw [h.length, hlen]; omega)
    rw [hdst]
    refine ⟨_, rfl, ?_⟩
    rw [h.index] at hfull
    rw [BlockWriter.put, if_pos hfull] at hpending ⊢
    refine ⟨rfl, hdstLength.trans h.length, Nat.zero_add _, ?_, hpending⟩
    rw [List.take_zero, List.nil_append] at htake
    exact htake
  · rw [if_neg hfull]
    obtain ⟨dst, hdst, hdstLength, htake⟩ := memcpy_eq (i := σ.outputBufferIndex) σ.outputBuffer
      (bigEndian s.resolution.size x) (by rw [h.length]; omega)
    rw [hdst]
    refine ⟨_, rfl, ?_⟩
    rw [h.index] at hfull
    rw [BlockWriter.put, if_neg hfull] at hpending ⊢
    refine ⟨h.file, hdstLength.trans h.length, ?_, ?_, hpending⟩
    · show σ.outputBufferIndex + _ = _
      rw [h.index, List.length_append]
    · show dst.take (σ.outputBufferIndex + _) = _
      rw [htake, h.pending]

theorem WellFormed.int_values (hs : s.WellFormed) :
    int (s.channels * s.samples) = some (s.buffer.length : Int) := by
  have hlen := hs.length
  have hmem := hs.inMemory
  rw [← hlen]
  exact int_of_fits (by omega)

theorem items_take_succ {x : Int} (hx : s.buffer[k]? = some x) :
    s.items.take (k + 1) = s.items.take k ++ [bigEndian s.resolution.size x] := by
  rw [items, List.take_add_one, List.getElem?_map, hx]
  rfl

/-- The file holds every value once, in order. -/
theorem WellFormed.save_eq (hs : s.WellFormed) (uninitialised : Vector UInt8 saveBufferSize)
    (index : Int) (files : Files) :
    s.save0DSignalXml true uninitialised index files =
      some (.ok (Function.update files (storageFile index) (some s.items.flatten))) := by
  obtain ⟨σ, hσ, hwrites⟩ := loop_rule (f := s.saveValue) (n := s.buffer.length)
    (s := ⟨[], uninitialised.toList, 0⟩)
    (fun k σ ↦ Writes ((s.items.take k).foldl (BlockWriter.put saveBufferSize) .empty) σ)
    ⟨rfl, Vector.length_toList, rfl, rfl, (by decide : 0 < saveBufferSize)⟩ fun k hk σ hσ ↦ by
      have hx := List.getElem?_eq_getElem hk
      rw [items_take_succ hx, List.foldl_append]
      exact hσ.saveValue hs hx
  have hall : s.items.take s.buffer.length = s.items :=
    List.take_of_length_le (by rw [items, List.length_map])
  rw [hall] at hwrites
  have hflush : (s.items.foldl (BlockWriter.put saveBufferSize) .empty).flush = _ :=
    BlockWriter.flush_foldl s.items .empty
  rw [save0DSignalXml, hs.int_values]
  simp only [Bool.not_true, Bool.false_eq_true, if_false, Option.bind_eq_bind, Option.bind_some,
    Int.toNat_natCast, hσ]
  by_cases hzero : σ.outputBufferIndex = 0
  · -- nothing is left in the block
    have hpending := hwrites.pending
    rw [hzero, List.take_zero] at hpending
    rw [if_neg (not_not.mpr hzero), hwrites.file]
    rw [BlockWriter.flush, ← hpending, List.append_nil] at hflush
    rw [hflush]
    rfl
  · rw [if_pos hzero, hwrites.write, Option.bind_some, hflush]
    rfl

/-! ## Loading -/

/-- What the values of a signal are when they have been saved and loaded. -/
def loaded (s : StaticSignal) : List Int :=
  s.buffer.map fun x ↦ convert s.resolution (bigEndian s.resolution.size x)

/-- A round of the loop reads the next value of the file. -/
theorem loadValue_eq (s : StaticSignal) (message : StdString) {data : List Int}
    (hdata : data.length = s.buffer.length) (hk : k < s.buffer.length) :
    loadValue s.resolution message k (.ok ((s.items.drop k).flatten,
        s.loaded.take k ++ data.drop k)) =
      some (.ok ((s.items.drop (k + 1)).flatten,
        s.loaded.take (k + 1) ++ data.drop (k + 1))) := by
  have hitems : k < s.items.length := by rw [items, List.length_map]; exact hk
  have hloaded : k < s.loaded.length := by rw [loaded, List.length_map]; exact hk
  have hitem : s.items[k] = bigEndian s.resolution.size s.buffer[k] := List.getElem_map ..
  have hvalue : s.loaded[k] = convert s.resolution s.items[k] := by
    rw [hitem]
    exact List.getElem_map ..
  have hsize : s.items[k].length = s.resolution.size := by rw [hitem, length_bigEndian]
  have hfile : (s.items.drop k).flatten = s.items[k] ++ (s.items.drop (k + 1)).flatten := by
    rw [List.drop_eq_getElem_cons hitems, List.flatten_cons]
  have htake : (s.loaded.take k).length = k := by
    rw [List.length_take]
    omega
  have hstore := Library.store_fill (s.loaded.take k) data (by omega) s.loaded[k]
  rw [htake, hvalue] at hstore
  rw [loadValue, hfile, if_neg (by rw [List.length_append]; omega), ← hsize, List.take_left,
    List.drop_left, hstore, Option.map_some, List.take_succ_eq_append_getElem hloaded, hvalue]

theorem WellFormed.load_eq (hs : s.WellFormed) (malloc : Int → Bool) (index : Int) (files : Files)
    (hfile : files (storageFile index) = some s.items.flatten) :
    load0DSignalXml malloc index s.dimension s.resolution s.channels s.samples s.frequency
        s.filePath s.name files =
      some (if malloc (s.buffer.length * 4) then
        .ok (some { s with
          resolution := targetResolution s.resolution
          buffer := s.loaded })
      else .error ⟨str "Could not allocate enough memory for static signal"⟩) := by
  have hlen := hs.length
  have hmem := hs.inMemory
  obtain ⟨hptr, hmax⟩ := hs.values
  have hread : ¬ (s.resolution = .ptr ∨ s.resolution = .maxR) := not_or.mpr ⟨hptr, hmax⟩
  have hvalues : int (s.samples * s.channels) = some (s.buffer.length : Int) := by
    rw [Int.mul_comm, hs.int_values]
  have hbytes : int ((s.buffer.length : Int) * 4) = some ((s.buffer.length : Int) * 4) :=
    int_of_fits (by omega)
  rw [load0DSignalXml, if_neg hread, hvalues, Option.bind_eq_bind, Option.bind_some, hbytes,
    Option.bind_eq_bind, Option.bind_some]
  cases hmalloc : malloc (s.buffer.length * 4) with
  | false => rfl
  | true =>
    obtain ⟨st, hloop, rfl⟩ := loop_rule (n := s.buffer.length)
      (f := loadValue s.resolution (str "[" ++ s.name ++ str "] : Failed to " ++
        str "read data from " ++ storageFile index ++ str " , aborting load."))
      (s := .ok (s.items.flatten, List.replicate s.buffer.length 0))
      (fun k st ↦ st = .ok ((s.items.drop k).flatten,
        s.loaded.take k ++ (List.replicate s.buffer.length 0).drop k)) rfl
      fun k hk st hst ↦ ⟨_, hst ▸ loadValue_eq s _ List.length_replicate hk, rfl⟩
    have hsize : ((s.buffer.length * 4 : Int) / 4).toNat = s.buffer.length := by omega
    have hall : s.loaded.take s.buffer.length = s.loaded :=
      List.take_of_length_le (by rw [loaded, List.length_map])
    rw [List.drop_replicate, Nat.sub_self, List.replicate_zero, List.append_nil, hall] at hloop
    rw [if_neg (by decide), if_pos rfl, hfile]
    show (loop _ _ _).bind _ = _
    rw [Int.toNat_natCast, hsize, hloop]
    rfl

/-! ## The round trip -/

/-- The file of a signal of `fp8p24_t` values holds each of them once, in order, and what is loaded
from it is the signal. -/
theorem load_save (hs : s.WellFormed) (hr : s.resolution = .fx8p24bit)
    (uninitialised : Vector UInt8 saveBufferSize) (index : Int) (files : Files)
    (malloc : Int → Bool) :
    ∃ files', s.save0DSignalXml true uninitialised index files = some (.ok files') ∧
      files' (storageFile index) = some (s.buffer.flatMap (bigEndian 4)) ∧
      load0DSignalXml malloc index s.dimension s.resolution s.channels s.samples s.frequency
          s.filePath s.name files' =
        some (if malloc (s.buffer.length * 4) then .ok (some s)
        else .error ⟨str "Could not allocate enough memory for static signal"⟩) := by
  have hfile := Function.update_self (storageFile index) (some s.items.flatten) files
  refine ⟨_, hs.save_eq uninitialised index files, ?_, ?_⟩
  · rw [hfile, items, hr, List.flatMap_def]
    rfl
  · have hfits := hs.fits
    rw [hr] at hfits
    have hloaded : s.loaded = s.buffer := by
      rw [loaded, hr]
      refine (List.map_congr_left fun x hx ↦ ?_).trans (List.map_id' _)
      exact signedBigEndian_bigEndian (hfits x hx)
    have hsame :
        { s with resolution := targetResolution s.resolution, buffer := s.loaded } = s := by
      rw [hloaded, hr]
      cases s
      cases hr
      rfl
    rw [hs.load_eq malloc index _ hfile, hsame]

/-- A stereo signal of two samples. -/
theorem load_save_stereo :
    let s : StaticSignal :=
      ⟨.zeroD, .fx8p24bit, 2, 2, 44100, str "a.wav", str "a", [1, -1, 8388607, -8388608]⟩
    ∃ files', s.save0DSignalXml true (.replicate _ 0) 3 (fun _ ↦ none) = some (.ok files') ∧
      files' (storageFile 3) = some (s.buffer.flatMap (bigEndian 4)) ∧
      load0DSignalXml (fun _ ↦ true) 3 s.dimension s.resolution s.channels s.samples s.frequency
          s.filePath s.name files' = some (.ok (some s)) :=
  load_save ⟨by decide, by decide, by decide, by decide, by decide, by decide⟩ rfl _ 3 _
    fun _ ↦ true

end StaticSignal

end Vuknob
