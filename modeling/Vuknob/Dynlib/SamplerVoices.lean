import Mathlib.Data.List.FinRange
import Vuknob.Base.FixedPoint
import Vuknob.Library.Runs
import Vuknob.Midi.EventBuilder
import Vuknob.Samples.StaticSignal

/-!
# The voices of the samplers

`execute` of the machines `src_jni/dynlib/sampler.c` and `src_jni/dynlib/drumsampler.c`, and the
replacement of the static signals that they play, `src_jni/signal.cc:747–786`. The volume of a
voice is left out; all it does to what is read is to end a note that has been released.
-/

namespace Vuknob

open Library

/-! ## The signals in memory -/

/-- A static signal with a buffer for all of its samples. -/
structure Sample extends StaticSignal where
  nonneg : 0 ≤ channels ∧ 0 ≤ samples
  length : (buffer.length : Int) = samples * channels

/-- `StaticSignal::signals`, and the signals that have not been deleted. An address is never used
again. -/
structure SampleMemory where
  signals : Int → Option Nat
  live : Nat → Option Sample
  next : Nat
  found : ∀ {index a}, signals index = some a → ∃ s, live a = some s
  distinct : ∀ {i j a}, signals i = some a → signals j = some a → i = j
  below : ∀ {index a}, signals index = some a → a < next

namespace SampleMemory

/-- No signals. -/
def empty : SampleMemory where
  signals _ := none
  live _ := none
  next := 0
  found h := by cases h
  distinct h := by cases h
  below h := by cases h

/-- `StaticSignal::get_signal`, with what is at the address. -/
def getSignal (m : SampleMemory) (index : Int) : Option (Nat × Sample) :=
  (m.signals index).bind fun a ↦ (m.live a).map fun s ↦ (a, s)

/-- `StaticSignal::clear_signal`. -/
def clearSignal (index : Int) (m : SampleMemory) : SampleMemory where
  signals := Function.update m.signals index none
  live a := if m.signals index = some a then none else m.live a
  next := m.next
  found {i a} h := by
    by_cases hi : i = index
    · rw [hi, Function.update_self] at h
      cases h
    · rw [Function.update_of_ne hi] at h
      rw [if_neg fun hindex ↦ hi (m.distinct h hindex)]
      exact m.found h
  distinct {i j a} hi hj := by
    have hne : ∀ {k}, Function.update m.signals index none k = some a → k ≠ index := by
      rintro k h rfl
      rw [Function.update_self] at h
      cases h
    have hi' := hi
    rw [Function.update_of_ne (hne hi)] at hi'
    rw [Function.update_of_ne (hne hj)] at hj
    exact m.distinct hi' hj
  below {i a} h := by
    by_cases hi : i = index
    · rw [hi, Function.update_self] at h
      cases h
    · rw [Function.update_of_ne hi] at h
      exact m.below h

/-- `sigs[p->idx] = p->sig` for a signal that has been allocated. -/
def setSignal (index : Int) (s : Sample) (m : SampleMemory) : SampleMemory where
  signals := Function.update m.signals index (some m.next)
  live := Function.update m.live m.next (some s)
  next := m.next + 1
  found {i a} h := by
    by_cases ha : a = m.next
    · exact ⟨s, by rw [ha, Function.update_self]⟩
    · have hi : i ≠ index := by
        rintro rfl
        rw [Function.update_self] at h
        exact ha (Option.some.inj h).symm
      rw [Function.update_of_ne hi] at h
      rw [Function.update_of_ne ha]
      exact m.found h
  distinct {i j a} hi hj := by
    -- an address that is new is that of no other signal
    have hnew : ∀ {k}, m.signals k ≠ some m.next := fun h ↦ Nat.lt_irrefl _ (m.below h)
    by_cases hi' : i = index <;> by_cases hj' : j = index
    · rw [hi', hj']
    · rw [hi', Function.update_self] at hi
      rw [Function.update_of_ne hj', ← hi] at hj
      exact absurd hj hnew
    · rw [hj', Function.update_self] at hj
      rw [Function.update_of_ne hi', ← hj] at hi
      exact absurd hi hnew
    · rw [Function.update_of_ne hi'] at hi
      rw [Function.update_of_ne hj'] at hj
      exact m.distinct hi hj
  below {i a} h := by
    by_cases hi : i = index
    · rw [hi, Function.update_self] at h
      obtain rfl := Option.some.inj h
      exact Nat.lt_succ_self _
    · rw [Function.update_of_ne hi] at h
      exact Nat.lt_succ_of_lt (m.below h)

/-- `StaticSignal::replace_signal`. -/
def replaceSignal (index : Int) (s : Sample) (m : SampleMemory) : SampleMemory :=
  (m.clearSignal index).setSignal index s

end SampleMemory

/-! ## Voices -/

/-- `itoufp24p8`. -/
def itoufp24p8 (x : Int) : UInt32 := UInt32.ofInt x <<< 8

/-- `ufp24p8toi`. -/
def ufp24p8toi (x : UInt32) : UInt32 := x >>> 8

/-- A value that is read: the address of the signal, the resolution it is taken to have, and the
number of the value, `ufp24p8toi(n->t) * (int)channels`. -/
structure SampleRead where
  data : Nat
  resolution : Resolution
  index : UInt32
  deriving DecidableEq

/-- The value is in the buffer of the signal. -/
def SampleRead.Inside (m : SampleMemory) (r : SampleRead) : Prop :=
  ∃ s, m.live r.data = some s ∧ r.resolution = s.resolution ∧ r.index.toNat < s.buffer.length

/-- The resolutions for which `execute` reads a value. -/
def Resolution.played : Resolution → Bool
  | .fl32bit | .fx8p24bit | .bits16 => true
  | _ => false

/-- What `note_t` has in both machines, `src_jni/dynlib/drumsampler.c:52–66`. `ι` is the type of
the numbers that stand for a signal. -/
structure Voice (ι : Type) where
  active : Bool
  note : UInt8
  resolution : Resolution
  channels : Int
  data : Option Nat
  i : ι
  t : UInt32
  tMax : UInt32
  tStep : UInt32

namespace Voice

variable {ι : Type}

/-- `src_jni/dynlib/drumsampler.c:191–199`, where `index` is that of the signal. -/
def refresh (m : SampleMemory) (index : Int) (v : Voice ι) : Voice ι :=
  if v.active then { v with data := m.signals index } else v

/-- A note begins to play the sample, `src_jni/dynlib/drumsampler.c:225–263`. -/
def start (i : ι) (note : UInt8) (sample : Option (Nat × Sample)) (tStep : Sample → UInt32)
    (v : Voice ι) : Voice ι :=
  let v := { v with active := true, i, note }
  match sample with
  | none => { v with active := false }
  | some (a, s) =>
    { v with
      t := itoufp24p8 0
      channels := s.channels
      resolution := s.resolution
      tMax := itoufp24p8 s.samples
      tStep := tStep s
      data := some a }

/-- A voice in the loop over the active notes, `src_jni/dynlib/drumsampler.c:289–348`. `ends` says
whether the note ends here because it has been released. -/
def render (ends : Bool) (v : Voice ι) : List SampleRead × Voice ι :=
  match v.active, v.data with
  | true, some a =>
    let read :=
      if v.resolution.played then
        [⟨a, v.resolution, ufp24p8toi v.t * UInt32.ofInt v.channels⟩]
      else []
    let t := v.t + v.tStep
    (read, { v with t, active := !ends && t < v.tMax })
  | _, _ => ([], v)

end Voice

/-- The first two bytes of a MIDI event. -/
structure VoiceMessage where
  status : UInt8
  data : UInt8
  deriving DecidableEq

/-- `MIDI_PROGRAM_CHANGE`, `src_jni/dynlib/dynlib.h:260`. -/
def midiProgramChange : UInt8 := 0xc0

/-- The message is of a kind and for a channel. -/
def VoiceMessage.is (kind : UInt8) (channel : Int) (e : VoiceMessage) : Bool :=
  e.status &&& 0xf0 = kind ∧ ((e.status &&& 0x0f).toNat : Int) = channel

/-- What changes the static signals. -/
inductive SampleChange
  | replaceSignal (index : Int) (s : Sample)
  | clearSignal (index : Int)

/-- The signals after a change. -/
def SampleMemory.change (m : SampleMemory) : SampleChange → SampleMemory
  | .replaceSignal index s => m.replaceSignal index s
  | .clearSignal index => m.clearSignal index

/-! ## The sampler -/

/-- `mulfp16p16`. -/
def mulfp16p16 (x y : Int) : Int := (x * y) >>> (16 : Nat)

/-- `divfp16p16`. -/
def divfp16p16 (x y : Int) : Int := (x * 2 ^ 16).tdiv y

/-- `note_t` of the sampler. `released` is that `amp_phase` is 4. -/
structure SamplerNote extends Voice Int where
  noteOn : Bool
  released : Bool

/-- `sampler_t`, `src_jni/dynlib/sampler.c:98–111`. -/
structure Sampler where
  midiChannel : Int
  program : Int
  note : Fin 12 → SamplerNote

/-- What the time step is made of: the frequencies of the notes, and `ftofp16p16(sf)` for the
frequency of a signal. -/
structure Tuning where
  frequency : UInt8 → Int
  ratio : Int → Int

/-- What comes in for a sample of the output: an event, and the notes whose release ends, should
they have been released. -/
structure SamplerInput where
  event : Option VoiceMessage
  ended : Fin 12 → Bool

/-- A voice that has not been used. -/
def Voice.unused {ι : Type} (i : ι) : Voice ι := ⟨false, 0, .maxR, 0, none, i, 0, 0, 0⟩

namespace Sampler

/-- `init`. -/
def init : Sampler := ⟨0, 0, fun _ ↦ ⟨.unused 0, false, false⟩⟩

/-- `n->t_step`, `src_jni/dynlib/sampler.c:363–369`. -/
def tStep (tuning : Tuning) (note : UInt8) (s : Sample) : UInt32 :=
  UInt32.ofInt (mulfp16p16 (tuning.ratio s.frequency)
    (divfp16p16 (tuning.frequency note) (tuning.frequency 60))) >>> 8

/-- `src_jni/dynlib/sampler.c:326–418`. -/
def startNote (tuning : Tuning) (m : SampleMemory) (note : UInt8) (x : Sampler) : Sampler :=
  match (List.finRange 12).find? fun k ↦ !(x.note k).active with
  | none => x
  | some k =>
    let sample := m.getSignal x.program
    let n : SamplerNote :=
      { toVoice := (x.note k).start x.program note sample (tStep tuning note)
        noteOn := true
        released := sample.isNone && (x.note k).released }
    { x with note := Function.update x.note k n }

/-- `src_jni/dynlib/sampler.c:426–452`. -/
def stopNote (note : UInt8) (x : Sampler) : Sampler :=
  match (List.finRange 12).find? fun k ↦
      (x.note k).active && (x.note k).note = note && (x.note k).noteOn with
  | none => x
  | some k =>
    let n : SamplerNote := { x.note k with noteOn := false, released := true }
    { x with note := Function.update x.note k n }

/-- The events of a sample of the output, `src_jni/dynlib/sampler.c:309–453`. An event is of one
kind. -/
def receive (tuning : Tuning) (m : SampleMemory) (event : Option VoiceMessage) (x : Sampler) :
    Sampler :=
  match event with
  | none => x
  | some e =>
    if e.is midiProgramChange x.midiChannel then { x with program := e.data.toNat }
    else if e.is midiNoteOn x.midiChannel then x.startNote tuning m e.data
    else if e.is midiNoteOff x.midiChannel then x.stopNote e.data
    else x

/-- A round of the loop over the samples of the output. -/
def outputSample (tuning : Tuning) (m : SampleMemory) (x : Sampler) (input : SamplerInput) :
    List SampleRead × Sampler :=
  let x := x.receive tuning m input.event
  let rendered k := (x.note k).render ((x.note k).released && input.ended k)
  ((List.finRange 12).flatMap fun k ↦ (rendered k).1,
    { x with note := fun k ↦ { x.note k with toVoice := (rendered k).2 } })

/-- `src_jni/dynlib/sampler.c:296–301`. -/
def refresh (m : SampleMemory) (x : Sampler) : Sampler :=
  { x with note := fun k ↦ { x.note k with toVoice := (x.note k).refresh m (x.note k).i } }

/-- `execute`, with what it reads. -/
def execute (tuning : Tuning) (m : SampleMemory) (inputs : List SamplerInput) (x : Sampler) :
    List SampleRead × Sampler :=
  runLogged (outputSample tuning m) (x.refresh m) inputs

/-- `reset`. -/
def reset (x : Sampler) : Sampler :=
  { x with note := fun k ↦ { x.note k with active := false } }

end Sampler

/-- What may happen to a sampler and the signals: it is executed, its controllers are set, it is
reset, or the signals change. -/
inductive SamplerStep
  | execute (inputs : List SamplerInput)
  | setMidiChannel (channel : Int)
  | setProgram (program : Int)
  | reset
  | signals (change : SampleChange)

/-- A step, with what is read. -/
def Sampler.step (tuning : Tuning) (s : SampleMemory × Sampler) :
    SamplerStep → Option (List SampleRead × SampleMemory × Sampler)
  | .execute inputs =>
    let (log, x) := s.2.execute tuning s.1 inputs
    some (log, s.1, x)
  | .setMidiChannel midiChannel => some ([], s.1, { s.2 with midiChannel })
  | .setProgram program => some ([], s.1, { s.2 with program })
  | .reset => some ([], s.1, s.2.reset)
  | .signals change => some ([], s.1.change change, s.2)

/-! ## The drum sampler -/

/-- `itofp24p8`. -/
def itofp24p8 (x : Int) : Int := toInt32 (x * 2 ^ 8)

/-- `divfp24p8`. -/
def divfp24p8 (x y : Int) : Int := (x * 2 ^ 8).tdiv y

/-- `sampler_t`, `src_jni/dynlib/drumsampler.c:68–77`. -/
structure DrumSampler where
  midiChannel : Int
  sampleIndex : Fin 12 → Int
  sampleFrequency : Fin 12 → Int
  note : Fin 12 → Voice (Fin 12)

namespace DrumSampler

/-- `init`. -/
def init : DrumSampler := ⟨0, fun n ↦ n.val, fun _ ↦ 44100, fun _ ↦ .unused 0⟩

/-- `note % 12`. -/
def sampleNumber (note : UInt8) : Fin 12 := ⟨note.toNat % 12, Nat.mod_lt _ (by decide)⟩

/-- `src_jni/dynlib/drumsampler.c:214–265`. `fsQ` is `FS_q`. -/
def startNote (fsQ : Int) (m : SampleMemory) (note : UInt8) (x : DrumSampler) : DrumSampler :=
  match (List.finRange 12).find? fun k ↦ !(x.note k).active with
  | none => x
  | some k =>
    let i := sampleNumber note
    let sample := (m.getSignal (x.sampleIndex i)).filter fun (_, s) ↦ s.dimension = .zeroD
    let tStep _ := UInt32.ofInt (divfp24p8 (itofp24p8 (x.sampleFrequency i)) fsQ)
    { x with note := Function.update x.note k ((x.note k).start i note sample tStep) }

/-- `src_jni/dynlib/drumsampler.c:206–265`. -/
def receive (fsQ : Int) (m : SampleMemory) (event : Option VoiceMessage) (x : DrumSampler) :
    DrumSampler :=
  match event with
  | none => x
  | some e => if e.is midiNoteOn x.midiChannel then x.startNote fsQ m e.data else x

/-- A round of the loop over the samples of the output. -/
def outputSample (fsQ : Int) (m : SampleMemory) (x : DrumSampler) (event : Option VoiceMessage) :
    List SampleRead × DrumSampler :=
  let x := x.receive fsQ m event
  let rendered k := (x.note k).render false
  ((List.finRange 12).flatMap fun k ↦ (rendered k).1, { x with note := fun k ↦ (rendered k).2 })

/-- `src_jni/dynlib/drumsampler.c:191–199`. -/
def refresh (m : SampleMemory) (x : DrumSampler) : DrumSampler :=
  { x with note := fun k ↦ (x.note k).refresh m (x.sampleIndex (x.note k).i) }

/-- `execute`, with what it reads. -/
def execute (fsQ : Int) (m : SampleMemory) (events : List (Option VoiceMessage))
    (x : DrumSampler) : List SampleRead × DrumSampler :=
  runLogged (outputSample fsQ m) (x.refresh m) events

/-- `reset`. -/
def reset (x : DrumSampler) : DrumSampler :=
  { x with note := fun k ↦ { x.note k with active := false } }

end DrumSampler

/-- What may happen to a drum sampler and the signals. -/
inductive DrumSamplerStep
  | execute (events : List (Option VoiceMessage))
  | setMidiChannel (channel : Int)
  | setSampleIndex (n : Fin 12) (index : Int)
  | setSampleFrequency (n : Fin 12) (frequency : Int)
  | reset
  | signals (change : SampleChange)

/-- A step, with what is read. -/
def DrumSampler.step (fsQ : Int) (s : SampleMemory × DrumSampler) :
    DrumSamplerStep → Option (List SampleRead × SampleMemory × DrumSampler)
  | .execute events =>
    let (log, x) := s.2.execute fsQ s.1 events
    some (log, s.1, x)
  | .setMidiChannel midiChannel => some ([], s.1, { s.2 with midiChannel })
  | .setSampleIndex n index =>
    some ([], s.1, { s.2 with sampleIndex := Function.update s.2.sampleIndex n index })
  | .setSampleFrequency n frequency =>
    some ([], s.1, { s.2 with sampleFrequency := Function.update s.2.sampleFrequency n frequency })
  | .reset => some ([], s.1, s.2.reset)
  | .signals change => some ([], s.1.change change, s.2)

end Vuknob
