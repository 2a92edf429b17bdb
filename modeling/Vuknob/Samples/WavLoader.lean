import Vuknob.Base.FixedPoint
import Vuknob.Samples.StaticSignal

/-!
# Loading WAV files

`WavLoader`, `src_jni/wavloader.cc`. A file is mapped into memory, its chunks are walked through
until the format and the data are found, and the data is converted to `fp8p24_t`. `off_t`, `size_t`
and `int` have 32 bits, as on the `armeabi` targets of `src_jni/Application.mk`. The mapping of the
file is taken to succeed. A read outside of the file and a write outside of the allocated buffer
are undefined.
-/

namespace Vuknob

namespace WavLoader

/-- The value of bytes in the order of a WAV file. -/
def littleEndian (bytes : List UInt8) : Nat := bytes.foldr (fun b n ↦ b.toNat + 256 * n) 0

/-- Reads of `n` bytes from a place on. -/
def readBytes (byteAt : Int → Option UInt8) (place : Int) : Nat → Option (List UInt8)
  | 0 => some []
  | n + 1 => do
    let byte ← byteAt (← int place)
    let bytes ← readBytes byteAt (place + 1) n
    return byte :: bytes

/-! ## Chunks -/

/-- `WavLoader::Chunk` of a mapped file; `data` is an offset in it. -/
structure Chunk where
  headerStr : List UInt8
  length : Nat
  data : Int
  deriving DecidableEq

/-- The constructor of `Chunk` for a mapped file, with the offset of the chunk behind it. The sum
of an `off_t` and the unsigned length is unsigned. -/
def Chunk.new (mmapped : List UInt8) (ofs maxOffset : Int) :
    Option (Except JException (Chunk × Int)) := do
  if maxOffset ≤ (← int (ofs + 8)) then
    return .error ⟨str "WAV file is incomplete - chunk descriptor broken."⟩
  let headerStr ← readBytes (Library.fetch mmapped) ofs 4
  let bts ← readBytes (Library.fetch mmapped) (ofs + 4) 4
  let length := littleEndian bts
  -- `length & 0x7fffffff`
  if maxOffset ≤ (← int (ofs + (length % 2 ^ 31 : Nat))) then
    return .error ⟨str "WAV file is incomplete on disk!"⟩
  return .ok (⟨headerStr, length, ofs + 8⟩, toInt32 (ofs + length + 8))

/-- The loop of the constructor of `MemoryMappedWave`, from one chunk on. -/
def readChunks (mapped : List UInt8) : Nat → Option Chunk → Option Chunk → Int →
    Option (Except JException (Chunk × Chunk))
  | _, some format, some data, _ => some (.ok (format, data))
  | 0, _, _, _ => none
  | fuel + 1, format, data, mmapOffset => do
    match ← Chunk.new mapped mmapOffset mapped.length with
    | .error e => return .error e
    | .ok (tc, mmapOffset) =>
      if tc.headerStr = str "fmt " then readChunks mapped fuel (some tc) data mmapOffset
      else if tc.headerStr = str "data" then readChunks mapped fuel format (some tc) mmapOffset
      else readChunks mapped fuel format data mmapOffset

/-! ## The mapped file -/

/-- `WavLoader::MemoryMappedWave`. -/
structure MemoryMappedWave where
  format : Chunk
  data : Chunk
  channels : Nat
  sampleRate : Nat
  bitsPerSample : Nat
  deriving DecidableEq

/-- A field of the format chunk. -/
def Chunk.field (mapped : List UInt8) (c : Chunk) (place : Int) (size : Nat) : Option Nat :=
  (readBytes (Library.fetch mapped) (c.data + place) size).map littleEndian

/-- The constructor of `MemoryMappedWave`, on the bytes of the file if it can be opened. `lseek`
fails where the size does not fit an `off_t`. -/
def MemoryMappedWave.new (fuel : Nat) (file : Option (List UInt8)) :
    Option (Except JException MemoryMappedWave) := do
  match file with
  | none => return .error ⟨str "Failed to open file."⟩
  | some mapped =>
    if mapped.length < 12 ∨ 2 ^ 31 ≤ mapped.length then
      return .error ⟨str "File to short to be a WAV file."⟩
    if mapped.take 4 ≠ str "RIFF" then
      return .error ⟨str "Not a RIFF file."⟩
    if (mapped.drop 8).take 4 ≠ str "WAVE" then
      return .error ⟨str "Not a RIFF/WAVE file."⟩
    match ← readChunks mapped fuel none none 12 with
    | .error e => return .error e
    | .ok (format, data) =>
      let channels ← format.field mapped 2 2
      let sampleRate ← format.field mapped 4 4
      let bitsPerSample ← format.field mapped 14 2
      return .ok { format, data, channels, sampleRate, bitsPerSample }

/-- `get_length_in_samples`; a division by zero is undefined. -/
def MemoryMappedWave.getLengthInSamples (wave : MemoryMappedWave) : Option Nat := do
  let bits ← int (wave.channels * wave.bitsPerSample)
  let divisor := bits.tdiv 8
  if divisor = 0 then none else some (wave.data.length / divisor.toNat)

/-! ## Conversion -/

/-- `tmp`, shifted down: the bytes of a value are the upper ones of an `int32_t`. -/
def ramValue (bytes : List UInt8) : Int :=
  toInt32 (littleEndian bytes * 256 ^ (4 - bytes.length) : Nat) >>> (8 : Nat)

/-- The bytes of the value at an index, unless the resolution is not understood. -/
def valueBytes (byteAt : Int → Option UInt8) (bitsPerSample i : Int) :
    Option (Option (List UInt8)) := do
  match bitsPerSample with
  | 8 => return some (← readBytes byteAt i 1)
  | 16 => return some (← readBytes byteAt (← int (2 * i)) 2)
  | 24 => return some (← readBytes byteAt (← int (3 * i)) 3)
  | 32 => return some (← readBytes byteAt (← int (4 * i)) 4)
  | _ => return none

/-- Whether the function goes on, and `ram_buffer`. -/
structure RamState where
  understood : Bool
  ramBuffer : List Int

/-- A round of the inner loop of `load_to_ram`. -/
def loadValue (byteAt : Int → Option UInt8) (channels bitsPerSample : Int) (k c : Nat)
    (ρ : RamState) : Option RamState :=
  if ρ.understood then do
    let i ← int ((← int (k * channels)) + c)
    match ← valueBytes byteAt bitsPerSample i with
    | none => return { ρ with understood := false }
    | some bytes =>
      let ramBuffer ← Library.store ρ.ramBuffer i (ramValue bytes)
      return { ρ with ramBuffer }
  else some ρ

/-- `load_to_ram`, with whether it succeeds. `byteAt` reads the bytes behind `data`. -/
def loadToRam (byteAt : Int → Option UInt8) (channels samples bitsPerSample : Int)
    (ramBuffer : List Int) : Option RamState :=
  Library.loop (fun k ↦ Library.loop (loadValue byteAt channels bitsPerSample k) channels.toNat)
    samples.toNat ⟨true, ramBuffer⟩

/-- `__STATIC_SIGNAL_RAM_SIZE_LIMIT`. -/
def staticSignalRamSizeLimit : Nat := 44100 * 2 * 2 * 30

/-- What is done with a signal that has been loaded. -/
inductive Handed
  | previewSignal (d : Dimension) (r : Resolution) (channels samples frequency : Int)
      (data : List Int)
  | replaceSignal (index : Int) (signal : StaticSignal)
  deriving DecidableEq

/-- The part of a path behind the last slash. -/
def basename (fname : StdString) : StdString := (fname.reverse.takeWhile (· ≠ 47)).reverse

/-- `WavLoader::load_static_signal`, with the mapped file and what is handed on. `malloc` gives the
contents of a new buffer of some size, and none where there is no memory; without a buffer nothing
is handed on. -/
def loadStaticSignal (fuel : Nat) (malloc : Nat → Option (Nat → Int)) (file : Option (List UInt8))
    (fname : StdString) (onlyPreview : Bool) (staticIndex : Int) :
    Option (Except JException (MemoryMappedWave × Option Handed)) := do
  match ← MemoryMappedWave.new fuel file with
  | .error e => return .error e
  | .ok wave =>
    let samples ← wave.getLengthInSamples
    let ramSize := wave.bitsPerSample * samples % 2 ^ 32 / 8
    if staticSignalRamSizeLimit < ramSize then
      return .error
        ⟨str "Static signal is larger than built-in threshold - refusing to load."⟩
    let bytes := samples * wave.channels % 2 ^ 32 * 4 % 2 ^ 32
    match malloc bytes with
    | none => return .ok (wave, none)
    | some garbage =>
      let byteAt (i : Int) := Library.fetch (file.getD []) (wave.data.data + i)
      let ρ ← loadToRam byteAt wave.channels (toInt32 samples) wave.bitsPerSample
        ((List.range (bytes / 4)).map garbage)
      if ρ.understood then
        let signal : StaticSignal :=
          ⟨.zeroD, .fx8p24bit, wave.channels, toInt32 samples, toInt32 wave.sampleRate, fname,
            basename fname, ρ.ramBuffer⟩
        return .ok (wave, some (if onlyPreview then
          .previewSignal signal.dimension signal.resolution signal.channels signal.samples
            signal.frequency signal.buffer
        else .replaceSignal staticIndex signal))
      return .error ⟨str "File is not in expected format."⟩

end WavLoader

end Vuknob
