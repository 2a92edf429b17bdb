import Vuknob.Samples.RamConversion

/-!
# The files that are safe to load

Which files `load_static_signal` refuses or loads inside of its bounds. The descriptors of the
chunks that are passed are described by their places in the file.
-/

namespace Vuknob

open Library (loop loop_rule)

namespace WavLoader

variable {mapped : List UInt8}

/-! ## Descriptors -/

/-- A number in the file. -/
def number (mapped : List UInt8) (place size : Nat) : Nat :=
  littleEndian ((mapped.drop place).take size)

theorem number_lt (mapped : List UInt8) (place size : Nat) :
    number mapped place size < 256 ^ size := by
  have hlt (bytes : List UInt8) : littleEndian bytes < 256 ^ bytes.length := by
    induction bytes with
    | nil => decide
    | cons b bytes ih =>
      have := b.toNat_lt
      rw [littleEndian, List.foldr_cons, ← littleEndian, List.length_cons, Nat.pow_succ]
      omega
  exact (hlt _).trans_le (Nat.pow_le_pow_right (by decide) (List.length_take_le ..))

/-- The length in the descriptor at a place. -/
def lengthAt (mapped : List UInt8) (place : Nat) : Nat := number mapped (place + 4) 4

/-- The chunk with its descriptor at a place. -/
def chunkAt (mapped : List UInt8) (place : Nat) : Chunk :=
  ⟨(mapped.drop place).take 4, lengthAt mapped place, place + 8⟩

/-- The places of the format and of the data, of those that have been passed, and the next place. -/
structure Passed where
  format : Option Nat
  data : Option Nat
  next : Int
  deriving DecidableEq

/-- A chunk that is needed has not been passed. -/
def Passed.Wanting (p : Passed) : Prop := p.format = none ∨ p.data = none

/-- The places behind the descriptor at a place. The offset has 32 bits. -/
def Passed.pass (mapped : List UInt8) (p : Passed) (place : Nat) : Passed :=
  let c := chunkAt mapped place
  ⟨if c.headerStr = str "fmt " then some place else p.format,
    if c.headerStr ≠ str "fmt " ∧ c.headerStr = str "data" then some place else p.data,
    toInt32 (place + c.length + 8)⟩

theorem Passed.next_pass (p : Passed) (place : Nat) :
    (p.pass mapped place).next = toInt32 (place + lengthAt mapped place + 8) := by
  simp only [pass, chunkAt]

/-- What has been passed after a number of descriptors that are not refused, with the top bit of a
length not looked at. -/
inductive Passes (mapped : List UInt8) : Nat → Passed → Prop
  | start : Passes mapped 0 ⟨none, none, 12⟩
  | pass {n place : Nat} {p : Passed} (h : Passes mapped n p) (hwanting : p.Wanting)
      (hplace : p.next = place) (hdescriptor : place + 8 < mapped.length)
      (hlength : place + lengthAt mapped place % 2 ^ 31 < mapped.length) :
      Passes mapped (n + 1) (p.pass mapped place)

/-! ## The constructor of a chunk -/

theorem Chunk.new_eq (hsize : mapped.length < 2 ^ 31) {place : Nat} (hplace : place + 8 < 2 ^ 31) :
    Chunk.new mapped place mapped.length =
      if mapped.length ≤ place + 8 then
        some (.error ⟨str "WAV file is incomplete - chunk descriptor broken."⟩)
      else if 2 ^ 31 ≤ place + lengthAt mapped place % 2 ^ 31 then none
      else if mapped.length ≤ place + lengthAt mapped place % 2 ^ 31 then
        some (.error ⟨str "WAV file is incomplete on disk!"⟩)
      else
        some (.ok (chunkAt mapped place, toInt32 (place + lengthAt mapped place + 8))) := by
  have hofs : int ((place : Int) + 8) = some ((place + 8 : Nat) : Int) := int_of_fits (by omega)
  rw [Chunk.new, hofs, Option.bind_eq_bind, Option.bind_some]
  by_cases hend : mapped.length ≤ place + 8
  · rw [if_pos (Int.ofNat_le.mpr hend), if_pos hend]
    rfl
  rw [if_neg (mt Int.ofNat_le.mp hend), if_neg hend]
  have hid := readBytes_fetch (n := 4) (i := place) hsize (by omega)
  have hbts := readBytes_fetch (n := 4) (i := place + 4) hsize (by omega)
  rw [Int.natCast_add] at hbts
  show (readBytes _ _ 4).bind _ = _
  rw [hid, Option.bind_some]
  show (readBytes _ _ 4).bind _ = _
  rw [show ((place : Int) + 4) = place + ((4 : Nat) : Int) from rfl, hbts, Option.bind_some]
  show (int (place + (lengthAt mapped place % 2 ^ 31 : Nat))).bind _ = _
  by_cases hwrap : 2 ^ 31 ≤ place + lengthAt mapped place % 2 ^ 31
  · have hnone : int ((place : Int) + (lengthAt mapped place % 2 ^ 31 : Nat)) = none :=
      if_neg (by omega)
    rw [if_pos hwrap, hnone]
    rfl
  have hsome : int ((place : Int) + (lengthAt mapped place % 2 ^ 31 : Nat)) =
      some ((place + lengthAt mapped place % 2 ^ 31 : Nat) : Int) := int_of_fits (by omega)
  rw [if_neg hwrap, hsome, Option.bind_some]
  by_cases hincomplete : mapped.length ≤ place + lengthAt mapped place % 2 ^ 31
  · rw [if_pos (Int.ofNat_le.mpr hincomplete), if_pos hincomplete]
    rfl
  · rw [if_neg (mt Int.ofNat_le.mp hincomplete), if_neg hincomplete]
    rfl

theorem Chunk.place_of_new {place : Int} {r : Except JException (Chunk × Int)}
    (hsize : 12 ≤ mapped.length) (h : Chunk.new mapped place mapped.length = some r) :
    ∃ k : Nat, place = k ∧ k + 8 < 2 ^ 31 := by
  obtain ⟨ofs, hofs, h⟩ := Option.bind_eq_some_iff.mp h
  obtain ⟨hfits, rfl⟩ := int_eq_some_iff.mp hofs
  have hplace : 0 ≤ place := by
    by_cases hend : (mapped.length : Int) ≤ place + 8
    · omega
    rw [if_neg hend] at h
    obtain ⟨id, hid, h⟩ := Option.bind_eq_some_iff.mp h
    exact (le_of_readBytes hid).1
  exact ⟨place.toNat, by omega, by omega⟩

/-! ## The loop -/

/-- A place where a descriptor can be looked for: the sums of the checks fit an `off_t`. -/
def InRange (mapped : List UInt8) (next : Int) : Prop :=
  ∃ place : Nat, next = place ∧ place + 8 < 2 ^ 31 ∧
    (place + 8 < mapped.length → place + lengthAt mapped place % 2 ^ 31 < 2 ^ 31)

/-- The loop from what has been passed on. -/
def readFrom (mapped : List UInt8) (fuel : Nat) (p : Passed) :
    Option (Except JException (Chunk × Chunk)) :=
  readChunks mapped fuel (p.format.map (chunkAt mapped)) (p.data.map (chunkAt mapped)) p.next

variable {p : Passed} {fuel n : Nat}

theorem readFrom_zero (hwanting : p.Wanting) : readFrom mapped 0 p = none := by
  obtain ⟨format, data, next⟩ := p
  rcases hwanting with rfl | rfl
  · rfl
  · cases format <;> rfl

theorem readFrom_succ (hwanting : p.Wanting) :
    readFrom mapped (fuel + 1) p =
      (Chunk.new mapped p.next mapped.length).bind fun
        | .error e => some (.error e)
        | .ok (tc, mmapOffset) =>
          if tc.headerStr = str "fmt " then
            readChunks mapped fuel (some tc) (p.data.map (chunkAt mapped)) mmapOffset
          else if tc.headerStr = str "data" then
            readChunks mapped fuel (p.format.map (chunkAt mapped)) (some tc) mmapOffset
          else readChunks mapped fuel (p.format.map (chunkAt mapped))
            (p.data.map (chunkAt mapped)) mmapOffset := by
  obtain ⟨format, data, next⟩ := p
  rcases hwanting with rfl | rfl
  · rfl
  · cases format <;> rfl

/-- A descriptor that is not refused is passed. -/
theorem readFrom_pass (hsize : mapped.length < 2 ^ 31) (hwanting : p.Wanting) {place : Nat}
    (hplace : p.next = place) (hdescriptor : place + 8 < mapped.length)
    (hlength : place + lengthAt mapped place % 2 ^ 31 < mapped.length) :
    readFrom mapped (fuel + 1) p = readFrom mapped fuel (p.pass mapped place) := by
  rw [readFrom_succ hwanting, hplace, Chunk.new_eq hsize (by omega), if_neg (by omega),
    if_neg (by omega), if_neg (by omega), Option.bind_some]
  show (if (chunkAt mapped place).headerStr = _ then _ else _) = _
  rw [readFrom, Passed.pass]
  by_cases hformat : (chunkAt mapped place).headerStr = str "fmt "
  · rw [if_pos hformat]
    simp only [if_pos hformat, if_neg (not_and_of_not_left _ (not_not.mpr hformat))]
    rfl
  · rw [if_neg hformat]
    by_cases hdata : (chunkAt mapped place).headerStr = str "data"
    · rw [if_pos hdata]
      simp only [if_neg hformat, if_pos (And.intro hformat hdata)]
      rfl
    · rw [if_neg hdata]
      simp only [if_neg hformat, if_neg (not_and_of_not_right _ hdata)]
      rfl

/-- The descriptor at a place in range is refused, or passed. -/
theorem InRange.readFrom (hsize : mapped.length < 2 ^ 31) (hwanting : p.Wanting)
    (h : InRange mapped p.next) (fuel : Nat) :
    (∃ e, readFrom mapped (fuel + 1) p = some (.error e)) ∨
      ∃ place : Nat, p.next = place ∧ place + 8 < mapped.length ∧
        place + lengthAt mapped place % 2 ^ 31 < mapped.length := by
  obtain ⟨place, hplace, hrange, hwrap⟩ := h
  by_cases hend : mapped.length ≤ place + 8
  · rw [readFrom_succ hwanting, hplace, Chunk.new_eq hsize hrange, if_pos hend]
    exact .inl ⟨_, rfl⟩
  by_cases hincomplete : mapped.length ≤ place + lengthAt mapped place % 2 ^ 31
  · have := hwrap (by omega)
    rw [readFrom_succ hwanting, hplace, Chunk.new_eq hsize hrange, if_neg hend, if_neg (by omega),
      if_pos hincomplete]
    exact .inl ⟨_, rfl⟩
  · exact .inr ⟨place, hplace, by omega, by omega⟩

/-- Where the loop is defined, it has looked at a place in range. -/
theorem inRange_of_readFrom (hshort : 12 ≤ mapped.length) (hsize : mapped.length < 2 ^ 31)
    (hwanting : p.Wanting) {r : Except JException (Chunk × Chunk)}
    (h : readFrom mapped fuel p = some r) : InRange mapped p.next := by
  cases fuel with
  | zero => rw [readFrom_zero hwanting] at h; cases h
  | succ fuel =>
    rw [readFrom_succ hwanting] at h
    obtain ⟨c, hc, -⟩ := Option.bind_eq_some_iff.mp h
    obtain ⟨place, hplace, hrange⟩ := Chunk.place_of_new hshort hc
    refine ⟨place, hplace, hrange, fun hend ↦ ?_⟩
    rw [hplace, Chunk.new_eq hsize hrange, if_neg (by omega)] at hc
    split at hc
    · cases hc
    · omega

/-- What is passed is what the loop goes on from. -/
theorem Passes.readFrom (hsize : mapped.length < 2 ^ 31) (h : Passes mapped n p)
    {r : Except JException (Chunk × Chunk)}
    (hread : readChunks mapped fuel none none 12 = some r) :
    ∃ fuel', fuel' + n = fuel ∧ WavLoader.readFrom mapped fuel' p = some r := by
  induction h with
  | start => exact ⟨fuel, rfl, hread⟩
  | @pass n place p h hwanting hplace hdescriptor hlength ih =>
    obtain ⟨fuel', hfuel, hread'⟩ := ih
    cases fuel' with
    | zero => rw [readFrom_zero hwanting] at hread'; cases hread'
    | succ fuel' =>
      rw [readFrom_pass hsize hwanting hplace hdescriptor hlength] at hread'
      exact ⟨fuel', by omega, hread'⟩

/-- A loop whose descriptors come to an end and are in range is defined, and ends with chunks that
have been passed. -/
theorem exists_readFrom (hsize : mapped.length < 2 ^ 31) {last : Nat}
    (hlast : ∀ n p, Passes mapped n p → n < last)
    (hrange : ∀ n p, Passes mapped n p → p.Wanting → InRange mapped p.next)
    (h : Passes mapped n p) :
    ∃ fuel r, readFrom mapped fuel p = some r ∧
      ∀ format data, r = .ok (format, data) → ∃ n f d next, Passes mapped n ⟨some f, some d, next⟩ ∧
        format = chunkAt mapped f ∧ data = chunkAt mapped d := by
  -- by induction on the descriptors that can still be passed
  obtain ⟨left, hleft⟩ : ∃ left, last ≤ n + left := ⟨last, Nat.le_add_left ..⟩
  induction left generalizing n p with
  | zero => exact absurd (hlast n p h) (by omega)
  | succ left ih =>
    by_cases hwanting : p.Wanting
    · rcases (hrange n p h hwanting).readFrom hsize hwanting 0 with ⟨e, he⟩ |
        ⟨place, hplace, hdescriptor, hlength⟩
      · exact ⟨1, _, he, fun _ _ he ↦ by cases he⟩
      · obtain ⟨fuel, r, hread, hr⟩ :=
          ih (h.pass hwanting hplace hdescriptor hlength) (by omega)
        exact ⟨fuel + 1, r, readFrom_pass hsize hwanting hplace hdescriptor hlength ▸ hread, hr⟩
    · obtain ⟨format, data, next⟩ := p
      obtain ⟨hformat, hdata⟩ := not_or.mp hwanting
      obtain ⟨f, rfl⟩ := Option.ne_none_iff_exists'.mp hformat
      obtain ⟨d, rfl⟩ := Option.ne_none_iff_exists'.mp hdata
      refine ⟨0, .ok (chunkAt mapped f, chunkAt mapped d), rfl, fun format data he ↦ ?_⟩
      cases he
      exact ⟨n, f, d, next, h, rfl, rfl⟩

/-- Both chunks that are needed end the loop. -/
theorem readFrom_found {f d : Nat} {next : Int} (fuel : Nat) :
    readFrom mapped fuel ⟨some f, some d, next⟩ =
      some (.ok (chunkAt mapped f, chunkAt mapped d)) := by
  cases fuel <;> rfl

/-! ## The fields of the format -/

/-- A field of the format can be read where it is in the file. -/
theorem field_eq (hsize : mapped.length < 2 ^ 31) {f place size : Nat}
    (h : f + 8 + place + size ≤ mapped.length) :
    (chunkAt mapped f).field mapped place size = some (number mapped (f + 8 + place) size) := by
  have := readBytes_fetch (n := size) (i := f + 8 + place) hsize h
  rw [Int.natCast_add, Int.natCast_add] at this
  exact congrArg (Option.map littleEndian) this

theorem le_of_field {f place size value : Nat}
    (h : (chunkAt mapped f).field mapped place (size + 1) = some value) :
    f + 8 + place + (size + 1) ≤ mapped.length := by
  obtain ⟨bytes, hbytes, -⟩ := Option.map_eq_some_iff.mp h
  have := (le_of_readBytes hbytes).2
  rw [chunkAt] at this
  push_cast at this
  omega

/-- The wave with its chunks at these places. -/
def waveAt (mapped : List UInt8) (f d : Nat) : MemoryMappedWave :=
  ⟨chunkAt mapped f, chunkAt mapped d, number mapped (f + 10) 2, number mapped (f + 12) 4,
    number mapped (f + 22) 2⟩

/-- The header of a file whose chunks are looked for. -/
def HasHeader (mapped : List UInt8) : Prop :=
  12 ≤ mapped.length ∧ mapped.length < 2 ^ 31 ∧ mapped.take 4 = str "RIFF" ∧
    (mapped.drop 8).take 4 = str "WAVE"

theorem new_of_not_hasHeader (h : ¬ HasHeader mapped) (fuel : Nat) :
    ∃ e, MemoryMappedWave.new fuel (some mapped) = some (.error e) := by
  rw [MemoryMappedWave.new]
  by_cases hlength : mapped.length < 12 ∨ 2 ^ 31 ≤ mapped.length
  · rw [if_pos hlength]
    exact ⟨_, rfl⟩
  by_cases hriff : mapped.take 4 = str "RIFF"
  · by_cases hwave : (mapped.drop 8).take 4 = str "WAVE"
    · exact absurd ⟨by omega, by omega, hriff, hwave⟩ h
    · rw [if_neg hlength, if_neg (not_not.mpr hriff), if_pos hwave]
      exact ⟨_, rfl⟩
  · rw [if_neg hlength, if_pos hriff]
    exact ⟨_, rfl⟩

theorem new_eq (h : HasHeader mapped) (fuel : Nat) :
    MemoryMappedWave.new fuel (some mapped) =
      (readChunks mapped fuel none none 12).bind fun
        | .error e => some (.error e)
        | .ok (format, data) =>
          (format.field mapped 2 2).bind fun channels ↦
            (format.field mapped 4 4).bind fun sampleRate ↦
              (format.field mapped 14 2).bind fun bitsPerSample ↦
                some (.ok { format, data, channels, sampleRate, bitsPerSample }) := by
  obtain ⟨hshort, hsize, hriff, hwave⟩ := h
  have hlength : ¬ (mapped.length < 12 ∨ 2 ^ 31 ≤ mapped.length) := by omega
  rw [MemoryMappedWave.new, if_neg hlength, if_neg (not_not.mpr hriff), if_neg (not_not.mpr hwave)]
  rfl

/-- The wave of two chunks, where the fields of the format are in the file. -/
theorem new_found (h : HasHeader mapped) {f d : Nat}
    (hread : readChunks mapped fuel none none 12 =
      some (.ok (chunkAt mapped f, chunkAt mapped d))) :
    (f + 24 ≤ mapped.length →
      MemoryMappedWave.new fuel (some mapped) = some (.ok (waveAt mapped f d))) ∧
    ∀ r, MemoryMappedWave.new fuel (some mapped) = some r → f + 24 ≤ mapped.length := by
  rw [new_eq h, hread, Option.bind_some]
  refine ⟨fun hf ↦ ?_, fun r hr ↦ ?_⟩
  · show ((chunkAt mapped f).field mapped (2 : Nat) 2).bind _ = _
    rw [field_eq h.2.1 (by omega), Option.bind_some]
    show ((chunkAt mapped f).field mapped (4 : Nat) 4).bind _ = _
    rw [field_eq h.2.1 (by omega), Option.bind_some]
    show ((chunkAt mapped f).field mapped (14 : Nat) 2).bind _ = _
    rw [field_eq h.2.1 (by omega), Option.bind_some]
    rfl
  · obtain ⟨_, _, hr⟩ := Option.bind_eq_some_iff.mp hr
    obtain ⟨_, _, hr⟩ := Option.bind_eq_some_iff.mp hr
    obtain ⟨_, hbits, _⟩ := Option.bind_eq_some_iff.mp hr
    have hend : f + 8 + 14 + (1 + 1) ≤ mapped.length := le_of_field hbits
    exact hend

/-! ## The sizes -/

theorem getLengthInSamples_eq (wave : MemoryMappedWave) :
    wave.getLengthInSamples =
      if 8 ≤ wave.channels * wave.bitsPerSample ∧ wave.channels * wave.bitsPerSample < 2 ^ 31 then
        some (wave.data.length / (wave.channels * wave.bitsPerSample / 8))
      else none := by
  rw [MemoryMappedWave.getLengthInSamples, ← Int.natCast_mul]
  generalize wave.channels * wave.bitsPerSample = frame
  by_cases hfits : frame < 2 ^ 31
  · rw [int_of_fits (by omega), Option.bind_eq_bind, Option.bind_some]
    have hdiv : (frame : Int).tdiv 8 = (frame / 8 : Nat) := rfl
    rw [hdiv]
    by_cases hframe : 8 ≤ frame
    · rw [if_neg (by omega), if_pos ⟨hframe, hfits⟩, Int.toNat_natCast]
    · rw [if_pos (by omega), if_neg fun h ↦ hframe h.1]
  · rw [if_neg (fun h ↦ hfits h.2)]
    have hnone : int frame = none := if_neg (by omega)
    rw [hnone]
    rfl

/-- What a load that comes to its end keeps to: the fields of the format are in its chunk, the size
that is compared with the limit and the size of the buffer are the exact ones, and the values are
in the chunk of the data. -/
structure WithinBounds (wave : MemoryMappedWave) (samples : Nat) : Prop where
  fields : 16 ≤ wave.format.length
  ramSize : wave.bitsPerSample * samples / 8 ≤ staticSignalRamSizeLimit
  ramBuffer : samples * wave.channels * 4 < 2 ^ 32
  values : samples * wave.channels * (wave.bitsPerSample / 8) ≤ wave.data.length

/-- A load is an exception, or comes to its end inside of its bounds. -/
def Safe (mapped : List UInt8) : Prop :=
  ∀ malloc fname onlyPreview staticIndex, ∃ fuel r,
    loadStaticSignal fuel malloc (some mapped) fname onlyPreview staticIndex = some r ∧
      ∀ wave handed, r = .ok (wave, handed) →
        ∃ samples, wave.getLengthInSamples = some samples ∧ WithinBounds wave samples

/-- The channels of a format. -/
def channelsAt (mapped : List UInt8) (f : Nat) : Nat := number mapped (f + 10) 2

/-- The bits of a value of a format. -/
def bitsAt (mapped : List UInt8) (f : Nat) : Nat := number mapped (f + 22) 2

/-- The whole frames in the data, with the bytes of a frame rounded down. -/
def framesAt (mapped : List UInt8) (f d : Nat) : Nat :=
  lengthAt mapped d / (channelsAt mapped f * bitsAt mapped f / 8)

/-- Data that is not too large: its format is long enough, no size takes more than 32 bits, and
where values are read from it they are in the file. -/
structure Fits (mapped : List UInt8) (f d : Nat) : Prop where
  format : 16 ≤ lengthAt mapped f
  bits : bitsAt mapped f * framesAt mapped f d < 2 ^ 32
  bytes : framesAt mapped f d * channelsAt mapped f * 4 < 2 ^ 32
  file : ∀ size, Understood size → bitsAt mapped f = 8 * size →
    d + 8 + size * (framesAt mapped f d * channelsAt mapped f) ≤ mapped.length

/-- A format and data that are safe: the fields are in the file, a frame has a byte, and the data is
refused by its size, or not too large. -/
structure Loadable (mapped : List UInt8) (f d : Nat) : Prop where
  fields : f + 24 ≤ mapped.length
  frame : 8 ≤ channelsAt mapped f * bitsAt mapped f ∧
    channelsAt mapped f * bitsAt mapped f < 2 ^ 31
  size : staticSignalRamSizeLimit < bitsAt mapped f * framesAt mapped f d % 2 ^ 32 / 8 ∨
    Fits mapped f d

/-! ## The load -/

theorem loadStaticSignal_eq (malloc : Nat → Option (Nat → Int)) {wave : MemoryMappedWave}
    (hnew : MemoryMappedWave.new fuel (some mapped) = some (.ok wave)) {samples : Nat}
    (hsamples : wave.getLengthInSamples = some samples) (fname : StdString) (onlyPreview : Bool)
    (staticIndex : Int) :
    ∃ (e e' : JException) (handed : RamState → Handed),
      loadStaticSignal fuel malloc (some mapped) fname onlyPreview staticIndex =
        if staticSignalRamSizeLimit < wave.bitsPerSample * samples % 2 ^ 32 / 8 then
          some (.error e)
        else match malloc (samples * wave.channels % 2 ^ 32 * 4 % 2 ^ 32) with
          | none => some (.ok (wave, none))
          | some garbage =>
            (loadToRam (fun i ↦ Library.fetch mapped (wave.data.data + i)) wave.channels
              (toInt32 samples) wave.bitsPerSample
              ((List.range (samples * wave.channels % 2 ^ 32 * 4 % 2 ^ 32 / 4)).map garbage)).bind
              fun ρ ↦ if ρ.understood then some (.ok (wave, some (handed ρ)))
                else some (.error e') := by
  refine ⟨⟨str "Static signal is larger than built-in threshold - refusing to load."⟩,
    ⟨str "File is not in expected format."⟩, fun ρ ↦ if onlyPreview then
      .previewSignal .zeroD .fx8p24bit wave.channels (toInt32 samples) (toInt32 wave.sampleRate)
        ρ.ramBuffer
    else .replaceSignal staticIndex ⟨.zeroD, .fx8p24bit, wave.channels, toInt32 samples,
      toInt32 wave.sampleRate, fname, basename fname, ρ.ramBuffer⟩, ?_⟩
  rw [loadStaticSignal, hnew, Option.bind_eq_bind, Option.bind_some]
  show (wave.getLengthInSamples).bind _ = _
  rw [hsamples, Option.bind_some]
  by_cases hlimit : staticSignalRamSizeLimit < wave.bitsPerSample * samples % 2 ^ 32 / 8
  · rw [if_pos hlimit, if_pos hlimit]
    rfl
  rw [if_neg hlimit, if_neg hlimit]
  cases hmalloc : malloc (samples * wave.channels % 2 ^ 32 * 4 % 2 ^ 32) with
  | none =>
    simp only [hmalloc]
    rfl
  | some garbage =>
    simp only [hmalloc]
    congr 1

/-- The loop over the values of data that is not too large is defined, and stops at once where the
resolution is not understood. -/
theorem Fits.exists_loadToRam {f d : Nat} (h : Fits mapped f d) (hsize : mapped.length < 2 ^ 31)
    (hframe : 8 ≤ channelsAt mapped f * bitsAt mapped f) {ram : List Int}
    (hram : ram.length = framesAt mapped f d * channelsAt mapped f) :
    ∃ ρ, loadToRam (fun i ↦ Library.fetch mapped ((d + 8 : Nat) + i)) (channelsAt mapped f)
      (framesAt mapped f d) (bitsAt mapped f) ram = some ρ := by
  have hchannels : 0 < channelsAt mapped f :=
    Nat.pos_of_ne_zero fun h ↦ by rw [h, Nat.zero_mul] at hframe; omega
  by_cases hbits : ∃ size, Understood size ∧ bitsAt mapped f = 8 * size
  · obtain ⟨size, hunderstood, hbits⟩ := hbits
    have hfile := h.file size hunderstood hbits
    have hfits : size * ram.length < 2 ^ 31 := by
      rw [hram]
      omega
    rw [hbits]
    refine ⟨_, loadToRam_eq (fun i ↦ ((mapped.drop (d + 8)).drop (size * i)).take size)
      hunderstood hram hfits fun i hi ↦ ?_⟩
    have hnext := Nat.mul_le_mul_left size hi
    rw [Nat.mul_succ] at hnext
    have hlength : (mapped.drop (d + 8)).length = mapped.length - (d + 8) := List.length_drop
    refine readBytes_eq (fun k _ ↦ ?_) (by omega) (by omega)
    rw [← Int.natCast_add, Library.fetch_natCast, List.getElem?_drop]
  · have hnot : ∀ size, Understood size → bitsAt mapped f ≠ 8 * size :=
      fun size hunderstood he ↦ hbits ⟨size, hunderstood, he⟩
    obtain ⟨ρ, hρ, -⟩ : ∃ ρ, loadToRam (fun i ↦ Library.fetch mapped ((d + 8 : Nat) + i))
        (channelsAt mapped f) (framesAt mapped f d) (bitsAt mapped f) ram = some ρ ∧ _ :=
      WavLoader.exists_loadToRam hnot hchannels ram
    exact ⟨ρ, hρ⟩

theorem Fits.withinBounds {f d : Nat} (h : Fits mapped f d)
    (hlimit : ¬ staticSignalRamSizeLimit < bitsAt mapped f * framesAt mapped f d % 2 ^ 32 / 8) :
    WithinBounds (waveAt mapped f d) (framesAt mapped f d) := by
  refine ⟨h.format, ?_, h.bytes, ?_⟩
  · rw [Nat.mod_eq_of_lt h.bits] at hlimit
    exact Nat.le_of_not_lt hlimit
  · calc framesAt mapped f d * channelsAt mapped f * (bitsAt mapped f / 8)
        ≤ framesAt mapped f d * (channelsAt mapped f * bitsAt mapped f / 8) := by
          rw [Nat.mul_assoc]
          exact Nat.mul_le_mul_left _ (Nat.mul_div_le_mul_div_assoc ..)
      _ ≤ lengthAt mapped d := Nat.div_mul_le_self ..

/-- A load of data that is refused or not too large is safe. -/
theorem Loadable.load {f d : Nat} (h : Loadable mapped f d) (hsize : mapped.length < 2 ^ 31)
    (hnew : MemoryMappedWave.new fuel (some mapped) = some (.ok (waveAt mapped f d)))
    (malloc : Nat → Option (Nat → Int)) (fname : StdString) (onlyPreview : Bool)
    (staticIndex : Int) :
    ∃ r, loadStaticSignal fuel malloc (some mapped) fname onlyPreview staticIndex = some r ∧
      ∀ wave handed, r = .ok (wave, handed) →
        ∃ samples, wave.getLengthInSamples = some samples ∧ WithinBounds wave samples := by
  have hsamples : (waveAt mapped f d).getLengthInSamples = some (framesAt mapped f d) := by
    rw [getLengthInSamples_eq]
    exact if_pos h.frame
  obtain ⟨e, e', handed, hload⟩ := loadStaticSignal_eq malloc hnew hsamples fname
    onlyPreview staticIndex
  rw [hload]
  by_cases hlimit : staticSignalRamSizeLimit <
      (waveAt mapped f d).bitsPerSample * framesAt mapped f d % 2 ^ 32 / 8
  · rw [if_pos hlimit]
    exact ⟨_, rfl, fun _ _ he ↦ by cases he⟩
  have hfits : Fits mapped f d := h.size.resolve_left hlimit
  have hbounds := hfits.withinBounds hlimit
  have hbytes := hfits.bytes
  have hram : framesAt mapped f d * (waveAt mapped f d).channels % 2 ^ 32 * 4 % 2 ^ 32 =
      framesAt mapped f d * channelsAt mapped f * 4 := by
    show framesAt mapped f d * channelsAt mapped f % 2 ^ 32 * 4 % 2 ^ 32 = _
    omega
  rw [if_neg hlimit, hram]
  cases malloc (framesAt mapped f d * channelsAt mapped f * 4) with
  | none =>
    refine ⟨_, rfl, fun wave handed he ↦ ?_⟩
    cases he
    exact ⟨_, hsamples, hbounds⟩
  | some garbage =>
    have hchannels : 0 < channelsAt mapped f :=
      Nat.pos_of_ne_zero fun hzero ↦ by have := h.frame.1; rw [hzero, Nat.zero_mul] at this; omega
    have hframes : framesAt mapped f d ≤ framesAt mapped f d * channelsAt mapped f :=
      Nat.le_mul_of_pos_right _ hchannels
    have hlength : ((List.range (framesAt mapped f d * channelsAt mapped f * 4 / 4)).map
        garbage).length = framesAt mapped f d * channelsAt mapped f := by
      rw [List.length_map, List.length_range, Nat.mul_div_cancel _ (by decide)]
    obtain ⟨ρ, hρ⟩ := hfits.exists_loadToRam hsize h.frame.1 hlength
    rw [toInt32_of_fits (by omega)]
    show ∃ r, (loadToRam (fun i ↦ Library.fetch mapped ((d + 8 : Nat) + i)) (channelsAt mapped f)
      (framesAt mapped f d) (bitsAt mapped f) _).bind _ = some r ∧ _
    rw [hρ, Option.bind_some]
    split
    · refine ⟨_, rfl, fun wave handed he ↦ ?_⟩
      cases he
      exact ⟨_, hsamples, hbounds⟩
    · exact ⟨_, rfl, fun _ _ he ↦ by cases he⟩

/-- The descriptor of a data chunk that has been passed is in the file. -/
theorem Passes.descriptor (h : Passes mapped n p) {d : Nat} (hd : p.data = some d) :
    d + 8 < mapped.length := by
  induction h with
  | start => cases hd
  | @pass n place p h hwanting hplace hdescriptor hlength ih =>
    change (if _ then some place else p.data) = some d at hd
    split at hd
    · cases hd
      exact hdescriptor
    · exact ih hd

/-- A load that is defined has found the chunks that have been passed. -/
theorem Passes.wave_of_load (hheader : HasHeader mapped) {f d : Nat} {next : Int}
    (h : Passes mapped n ⟨some f, some d, next⟩) {malloc : Nat → Option (Nat → Int)}
    {fname : StdString} {onlyPreview : Bool} {staticIndex : Int}
    {r : Except JException (MemoryMappedWave × Option Handed)}
    (hload : loadStaticSignal fuel malloc (some mapped) fname onlyPreview staticIndex = some r) :
    f + 24 ≤ mapped.length ∧
      (8 ≤ channelsAt mapped f * bitsAt mapped f ∧ channelsAt mapped f * bitsAt mapped f < 2 ^ 31) ∧
      MemoryMappedWave.new fuel (some mapped) = some (.ok (waveAt mapped f d)) ∧
      (waveAt mapped f d).getLengthInSamples = some (framesAt mapped f d) := by
  obtain ⟨x, hx, hrest⟩ := Option.bind_eq_some_iff.mp hload
  have hread : ∃ y, readChunks mapped fuel none none 12 = some y := by
    rw [new_eq hheader] at hx
    exact ⟨_, (Option.bind_eq_some_iff.mp hx).choose_spec.1⟩
  obtain ⟨y, hy⟩ := hread
  obtain ⟨fuel', -, hfound⟩ := h.readFrom hheader.2.1 hy
  rw [readFrom_found] at hfound
  rw [← Option.some.inj hfound] at hy
  obtain ⟨hwave, hfields⟩ := new_found hheader hy
  have hfields := hfields x hx
  have hwave := hwave hfields
  rw [hwave] at hx
  cases hx
  obtain ⟨samples, hsamples, -⟩ := Option.bind_eq_some_iff.mp hrest
  have hlength := getLengthInSamples_eq (waveAt mapped f d)
  split at hlength
  · next hframe => exact ⟨hfields, hframe, hwave, hlength⟩
  · rw [hsamples] at hlength
    cases hlength

/-- Chunks that have been passed in a safe file are safe. -/
theorem Safe.loadable (h : Safe mapped) (hheader : HasHeader mapped) {f d : Nat} {next : Int}
    (hpasses : Passes mapped n ⟨some f, some d, next⟩) : Loadable mapped f d := by
  obtain ⟨fuel, r, hload, hbounds⟩ := h (fun _ ↦ none) [] true 0
  obtain ⟨hfields, hframe, hnew, hsamples⟩ := hpasses.wave_of_load hheader hload
  refine ⟨hfields, hframe, or_iff_not_imp_left.mpr fun hlimit ↦ ?_⟩
  change ¬ staticSignalRamSizeLimit <
    (waveAt mapped f d).bitsPerSample * framesAt mapped f d % 2 ^ 32 / 8 at hlimit
  obtain ⟨e, e', handed, heq⟩ := loadStaticSignal_eq (fun _ ↦ none) hnew hsamples [] true 0
  rw [heq, if_neg hlimit] at hload
  obtain ⟨samples, hsamples', hwithin⟩ := hbounds _ _ (Option.some.inj hload).symm
  rw [hsamples] at hsamples'
  cases hsamples'
  have hram : bitsAt mapped f * framesAt mapped f d / 8 ≤ staticSignalRamSizeLimit :=
    hwithin.ramSize
  have hbits : bitsAt mapped f * framesAt mapped f d < 2 ^ 32 := by
    have : staticSignalRamSizeLimit = 5292000 := rfl
    omega
  have hbytes : framesAt mapped f d * channelsAt mapped f * 4 < 2 ^ 32 := hwithin.ramBuffer
  refine ⟨hwithin.fields, hbits, hbytes, fun size hunderstood he ↦ ?_⟩
  have hdescriptor := hpasses.descriptor rfl
  by_cases hvalues : 0 < framesAt mapped f d * channelsAt mapped f
  · -- with a buffer the last value is read
    obtain ⟨fuel, r, hload, -⟩ := h (fun _ ↦ some fun _ ↦ 0) [] true 0
    obtain ⟨-, -, hnew, -⟩ := hpasses.wave_of_load hheader hload
    obtain ⟨e, e', handed, heq⟩ :=
      loadStaticSignal_eq (fun _ ↦ some fun _ ↦ 0) hnew hsamples [] true 0
    rw [heq, if_neg hlimit] at hload
    obtain ⟨ρ, hρ, -⟩ := Option.bind_eq_some_iff.mp hload
    have hframes : framesAt mapped f d ≤ framesAt mapped f d * channelsAt mapped f :=
      Nat.le_mul_of_pos_right _ (Nat.pos_of_mul_pos_left hvalues)
    have hbitsEq : ((waveAt mapped f d).bitsPerSample : Int) = (8 * size : Nat) := by
      rw [← he]
      rfl
    rw [toInt32_of_fits (by omega), hbitsEq] at hρ
    obtain ⟨byte, hbyte⟩ := byteAt_of_loadToRam hunderstood hvalues hρ
    have hlast := (Library.lt_of_fetch hbyte).2
    have hplace : (waveAt mapped f d).data.data = (d : Int) + 8 := rfl
    have := Nat.mul_pos hunderstood.pos hvalues
    rw [hplace] at hlast
    omega
  · rw [Nat.eq_zero_of_not_pos hvalues, Nat.mul_zero]
    omega

/-! ## The files that are safe -/

/-- A file whose chunks are in order: each descriptor is looked for at a place where the checks do
not leave an `off_t`, and a format and data that are found are safe. Where the place behind a chunk
can be back in the file again, the descriptors have to come to an end. -/
structure InOrder (mapped : List UInt8) : Prop where
  ends : 2 ^ 31 < mapped.length + 8 → ∃ last, ∀ n p, Passes mapped n p → n < last
  inRange : ∀ n p, Passes mapped n p → p.Wanting → InRange mapped p.next
  loadable : ∀ n f d next, Passes mapped n ⟨some f, some d, next⟩ → Loadable mapped f d

/-- The places of descriptors that are in range go up, and so they come to an end. -/
theorem exists_last (hsize : mapped.length + 8 ≤ 2 ^ 31)
    (hrange : ∀ n p, Passes mapped n p → p.Wanting → InRange mapped p.next) :
    ∃ last, ∀ n p, Passes mapped n p → n < last := by
  have hup (n : Nat) (p : Passed) (h : Passes mapped n p) (hwanting : p.Wanting) :
      (n : Int) ≤ p.next := by
    induction h with
    | start => decide
    | @pass n place p h hwanting' hplace hdescriptor hlength ih =>
      have hle := ih hwanting'
      obtain ⟨place', hplace', hfits, -⟩ := hrange _ _ (h.pass hwanting' hplace hdescriptor hlength)
        hwanting
      -- a length with its top bit set would lead to a place below zero
      have hmod : (place + lengthAt mapped place + 8 : Int) % (2 ^ 32 : Nat) = place' := by
        rw [← Int.bmod_emod, ← toInt32, ← Passed.next_pass p, hplace']
        omega
      have hlt : lengthAt mapped place < 2 ^ 32 := number_lt ..
      rw [hplace']
      omega
  refine ⟨mapped.length + 1, fun n p h ↦ ?_⟩
  cases h with
  | start => omega
  | pass h hwanting hplace hdescriptor hlength =>
    have := hup _ _ h hwanting
    omega

/-- A file with the header of a WAV file is safe to load exactly if its chunks are in order, and any
other file is refused. -/
theorem load_safe_iff (mapped : List UInt8) : Safe mapped ↔ (HasHeader mapped → InOrder mapped) := by
  constructor
  · intro h hheader
    obtain ⟨fuel, r, hload, -⟩ := h (fun _ ↦ none) [] true 0
    obtain ⟨x, hx, -⟩ := Option.bind_eq_some_iff.mp hload
    rw [new_eq hheader] at hx
    obtain ⟨y, hy, -⟩ := Option.bind_eq_some_iff.mp hx
    refine ⟨fun _ ↦ ⟨fuel + 1, fun n p hpasses ↦ ?_⟩, fun n p hpasses hwanting ↦ ?_,
      fun n f d next ↦ h.loadable hheader⟩
    · obtain ⟨fuel', hfuel, -⟩ := hpasses.readFrom hheader.2.1 hy
      omega
    · obtain ⟨fuel', -, hread⟩ := hpasses.readFrom hheader.2.1 hy
      exact inRange_of_readFrom hheader.1 hheader.2.1 hwanting hread
  · intro h malloc fname onlyPreview staticIndex
    by_cases hheader : HasHeader mapped
    · obtain ⟨hends, hrange, hloadable⟩ := h hheader
      obtain ⟨last, hlast⟩ : ∃ last, ∀ n p, Passes mapped n p → n < last := by
        by_cases hsize : mapped.length + 8 ≤ 2 ^ 31
        · exact exists_last hsize hrange
        · exact hends (by omega)
      obtain ⟨fuel, y, hy, hfound⟩ := exists_readFrom hheader.2.1 hlast hrange .start
      refine ⟨fuel, ?_⟩
      have hread : readChunks mapped fuel none none 12 = some y := hy
      match y with
      | .error e =>
        have hnew := new_eq hheader fuel
        rw [hread, Option.bind_some] at hnew
        refine ⟨.error e, ?_, fun _ _ he ↦ by cases he⟩
        rw [loadStaticSignal, hnew]
        rfl
      | .ok (format, data) =>
        obtain ⟨n, f, d, next, hpasses, rfl, rfl⟩ := hfound _ _ rfl
        have hsafe := hloadable n f d next hpasses
        exact hsafe.load hheader.2.1 ((new_found hheader hread).1 hsafe.fields) malloc fname
          onlyPreview staticIndex
    · obtain ⟨e, he⟩ := new_of_not_hasHeader hheader 0
      refine ⟨0, .error e, ?_, fun _ _ he ↦ by cases he⟩
      rw [loadStaticSignal, he]
      rfl

/-- A format without channels: the frames of its data have no bytes. -/
def noChannels : List UInt8 :=
  str "RIFF" ++ [40, 0, 0, 0] ++ str "WAVE" ++
    str "fmt " ++ [16, 0, 0, 0] ++ [1, 0, 0, 0, 0x44, 0xAC, 0, 0, 0, 0, 0, 0, 0, 0, 16, 0] ++
    str "data" ++ [4, 0, 0, 0] ++ [1, 2, 3, 4]

theorem not_safe_noChannels : ¬ Safe noChannels := by
  intro h
  have hformat : Passes noChannels 1 (Passed.pass noChannels ⟨none, none, 12⟩ 12) :=
    Passes.start.pass (.inl rfl) rfl (by decide) (by decide)
  rw [show Passed.pass noChannels ⟨none, none, 12⟩ 12 = ⟨some 12, none, 36⟩ by decide] at hformat
  have hdata : Passes noChannels 2 (Passed.pass noChannels ⟨some 12, none, 36⟩ 36) :=
    hformat.pass (.inr rfl) rfl (by decide) (by decide)
  rw [show Passed.pass noChannels ⟨some 12, none, 36⟩ 36 = ⟨some 12, some 36, 48⟩ by decide]
    at hdata
  have hframe := (h.loadable ⟨by decide, by decide, by decide, by decide⟩ hdata).frame.1
  exact absurd hframe (by decide)

end WavLoader

end Vuknob
