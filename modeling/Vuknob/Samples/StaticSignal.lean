import Vuknob.Base.CInt
import Vuknob.Base.Number
import Vuknob.Library.Loops
import Vuknob.Machine.Space

/-!
# Static signals

`Machine::StaticSignal`, `src_jni/signal.cc:321–797`: the samples of a project, and the files they
are saved to and loaded from, `static_sig_nr_<index>.dat`. A file holds the values of a signal in
network byte order. What is loaded is converted to `fp8p24_t`, unless it is of type `float`.
-/

namespace Vuknob

/-- `sizeof` of a value of a resolution. Pointers are never saved. -/
def Resolution.size : Resolution → Nat
  | .bits8 => 1
  | .bits16 => 2
  | .bits32 | .fl32bit | .fx8p24bit => 4
  | .ptr | .maxR => 0

/-- `Machine::StaticSignal`. The values of the buffer are those of the integer type of the
resolution; that of a `float` is the `int32_t` with the same bits. -/
structure StaticSignal where
  dimension : Dimension
  resolution : Resolution
  channels : Int
  samples : Int
  frequency : Int
  filePath : StdString
  name : StdString
  buffer : List Int
  deriving DecidableEq

/-! ## Byte order -/

/-- The bytes of a value in network byte order: `htons` and `htonl`. -/
def bigEndian : Nat → Int → List UInt8
  | 0, _ => []
  | size + 1, value => UInt8.ofInt (value >>> (8 * size)) :: bigEndian size value

/-- The value with these bytes in network byte order, without its sign: `ntohs` and `ntohl`. -/
def ofBigEndian (bytes : List UInt8) : Int := bytes.foldl (fun n b ↦ 256 * n + b.toNat) 0

/-- The value of a signed type with these bytes. -/
def signedBigEndian (bytes : List UInt8) : Int := (ofBigEndian bytes).bmod (256 ^ bytes.length)

@[simp] theorem length_bigEndian (size : Nat) (value : Int) :
    (bigEndian size value).length = size := by
  induction size with
  | zero => rfl
  | succ size ih => rw [bigEndian, List.length_cons, ih]

/-! ## Saving -/

/-- `_0D_SAVE_BUFFER_SIZE`. -/
def saveBufferSize : Nat := 1024 * 8

/-- The storage files that there are. -/
abbrev Files := StdString → Option (List UInt8)

/-- The name of the storage file of a signal. -/
def storageFile (index : Int) : StdString := str "static_sig_nr_" ++ decimalInt index ++ str ".dat"

/-- `memcpy` into an array. -/
def memcpy (dst : List UInt8) (i : Nat) (src : List UInt8) : Option (List UInt8) :=
  if i + src.length ≤ dst.length then some (dst.take i ++ src ++ dst.drop (i + src.length)) else none

/-- The file, `output_buffer` and `output_buffer_index`. -/
structure SaveState where
  file : List UInt8
  outputBuffer : List UInt8
  outputBufferIndex : Nat

/-- `write(f_out, output_buffer, output_buffer_index)`, which is taken to write all of it. -/
def SaveState.write (σ : SaveState) : Option SaveState :=
  if σ.outputBufferIndex ≤ σ.outputBuffer.length then
    some { σ with file := σ.file ++ σ.outputBuffer.take σ.outputBufferIndex }
  else none

namespace StaticSignal

/-- What a value is saved as. -/
def output (s : StaticSignal) (k : Int) : Option (List UInt8) :=
  match s.resolution with
  | .ptr | .maxR => some []
  | r => (Library.fetch s.buffer k).map (bigEndian r.size)

/-- A round of the loop in `save_0D_signal_xml`. -/
def saveValue (s : StaticSignal) (k : Nat) (σ : SaveState) : Option SaveState := do
  let output ← s.output k
  let σ ← if saveBufferSize ≤ σ.outputBufferIndex + output.length then
      σ.write.map fun σ ↦ { σ with outputBufferIndex := 0 }
    else some σ
  let outputBuffer ← memcpy σ.outputBuffer σ.outputBufferIndex output
  return { σ with outputBuffer, outputBufferIndex := σ.outputBufferIndex + output.length }

/-- `StaticSignal::save_0D_signal_xml`. `opens` says whether the file can be opened, and
`uninitialised` is what `output_buffer` holds before. -/
def save0DSignalXml (opens : Bool) (uninitialised : Vector UInt8 saveBufferSize)
    (s : StaticSignal) (index : Int) (files : Files) : Option (Except JException Files) := do
  if !opens then
    return .error ⟨str "[name] : Failed to open storage file " ++ storageFile index ++
      str " , aborting save."⟩
  let kMax ← int (s.channels * s.samples)
  let σ ← Library.loop s.saveValue kMax.toNat ⟨[], uninitialised.toList, 0⟩
  let σ ← if σ.outputBufferIndex ≠ 0 then σ.write else some σ
  return .ok (Function.update files (storageFile index) (some σ.file))

/-! ## Loading -/

/-- The value that is made of one in the file. -/
def convert (r : Resolution) (input : List UInt8) : Int :=
  match r with
  | .bits8 => signedBigEndian input * 2 ^ 16
  | .bits16 => signedBigEndian input * 2 ^ 7
  | .bits32 => signedBigEndian input >>> (8 : Nat)
  | _ => signedBigEndian input

/-- The resolution of what is made of values with a resolution. -/
def targetResolution : Resolution → Resolution
  | .fl32bit => .fl32bit
  | _ => .fx8p24bit

/-- What is left of the file, and `data`. -/
abbrev LoadState := Except JException (List UInt8 × List Int)

/-- A round of the loop in `load_0D_signal_xml`, unless it has thrown an exception. -/
def loadValue (r : Resolution) (message : StdString) (v : Nat) : LoadState → Option LoadState
  | .error e => some (.error e)
  | .ok (file, data) =>
    if file.length < r.size then some (.error ⟨message⟩)
    else (Library.store data v (convert r (file.take r.size))).map fun data ↦
      .ok (file.drop r.size, data)

/-- `StaticSignal::load_0D_signal_xml`: the signal that is put in the place of the one with the
index, if any. `malloc` says whether there is memory of a size; all that is made of a value has
four bytes. -/
def load0DSignalXml (malloc : Int → Bool) (index : Int) (d : Dimension) (r : Resolution)
    (channels samples frequency : Int) (filePath name : StdString) (files : Files) :
    Option (Except JException (Option StaticSignal)) := do
  if r = .ptr ∨ r = .maxR then
    return .ok none
  let vMax ← int (samples * channels)
  let size ← int (vMax * 4)
  if !malloc size then
    return .error ⟨str "Could not allocate enough memory for static signal"⟩
  let message (what : String) : StdString :=
    str "[" ++ name ++ str "] : Failed to " ++ str what ++ storageFile index ++
      str " , aborting load."
  match files (storageFile index) with
  | none => return .error ⟨message "open storage file "⟩
  | some file =>
    let loaded ← Library.loop (loadValue r (message "read data from ")) vMax.toNat
      (.ok (file, List.replicate (size / 4).toNat 0))
    return loaded.map fun (_, data) ↦
      some ⟨d, targetResolution r, channels, samples, frequency, filePath, name, data⟩

end StaticSignal

end Vuknob
