import Mathlib.Logic.Function.Basic
import Vuknob.Base.CInt
import Vuknob.Machine.Space

/-!
# The clock of the machine space

The static members of `Machine` that say where playback is, `src_jni/machine.cc:1608–1622`,
with the functions that set them, `src_jni/machine.cc:2025–2140,2195–2213`, and the two that
are called for every buffer, `src_jni/machine.cc:1777–1848`. Each operation is taken as it is
carried out; how it gets to the audio thread is modelled elsewhere. Resetting the machines and
the functions that are notified of a new line do not act on the clock.
-/

namespace Vuknob

/-- The dimensions below `_MAX_D`, in the order of the loops over them. -/
def Dimension.all : List Dimension := [.zeroD, .oneD, .twoD, .midi]

/-! ## Signal defaults -/

/-- `def_samples`, `def_frequency` and `initiated`, `src_jni/signal.cc:818–822`. The arrays
have no entry for `_MAX_D`; using one is undefined. -/
structure SignalDefaults where
  initiated : Bool
  samples : Dimension → Int
  frequency : Dimension → Int

namespace SignalDefaults

/-- `internal_set_defaults`, `src_jni/signal.cc:1100–1109`; what follows there allocates
buffers, and leaves the defaults as they are when it throws. -/
def internalSetDefaults (s : SignalDefaults) (d : Dimension) (samples frequency : Int) :
    SignalDefaults :=
  let s := if s.initiated then s else { s with initiated := true, samples := fun _ ↦ 0 }
  { s with
    samples := Function.update s.samples d samples
    frequency := Function.update s.frequency d frequency }

/-- The constructor of a `Signal`, `src_jni/signal.cc:825–859`, and whether it throws
"Unsupported dimension.", in `internal_register_signal` at the latest,
`src_jni/signal.cc:1068–1082`. -/
def createSignal (s : SignalDefaults) (d : Dimension) : Option (Bool × SignalDefaults) :=
  let unset := !(s.initiated && decide (s.samples d > 0))
  match d with
  | .zeroD => some (false, if unset then s.internalSetDefaults d 1024 44100 else s)
  | .oneD => some (true, s)
  | .twoD => some (true, if unset then s.internalSetDefaults d 12 24 else s)
  | .midi => some (false, if unset then s.internalSetDefaults d 1024 44100 else s)
  | .maxD => if s.initiated then none else some (true, s)

end SignalDefaults

/-! ## Playback -/

/-- The static members. -/
structure Transport where
  shuffleFactor : Int
  loopStart : Int
  loopStop : Int
  doLoop : Bool
  currentTick : Int
  nextSequencePosition : Int
  resumeSequencePosition : Int
  nextTickAt : Dimension → Int
  samplesPerTick : Dimension → Int
  samplesPerTickShuffle : Dimension → Int
  bpm : Int
  lpb : Int
  isPlaying : Bool
  defaults : SignalDefaults

/-- `MACHINE_TICKS_PER_LINE`, `src_jni/machine.hh:61–62`. -/
def machineTicksPerLine : Int := 16

/-- `SHUFFLE_FACTOR_DIVISOR`, `src_jni/machine.hh:729`. -/
def shuffleFactorDivisor : Int := 100

/-- The parity of a line, as the loops test it. -/
def evenLine (position : Int) : Bool := position.tmod 2 = 0

/-- `src_jni/machine.cc:1784`. -/
def ticksToSamples (frequency bpm lpb : Int) : Option Int := do
  let dividend ← int (frequency * 60)
  let beats ← int (bpm * lpb)
  let divisor ← int (beats * machineTicksPerLine)
  if divisor = 0 then none else int (dividend.tdiv divisor)

/-- `src_jni/machine.cc:1789–1791`; `>> 3` rounds down. -/
def shuffleSamples (shuffleFactor samplesPerTick : Int) : Option Int := do
  let factor ← int (shuffleFactor * 3)
  let product ← int (factor * (samplesPerTick / 8))
  int (product.tdiv shuffleFactorDivisor)

namespace Transport

variable (t : Transport)

/-- One round of `calculate_samples_per_tick`. -/
def calculateSamplesPerTickOf (t : Transport) (d : Dimension) : Option Transport := do
  let samplesPerTick ← ticksToSamples (t.defaults.frequency d) t.bpm t.lpb
  let samplesPerTickShuffle ← shuffleSamples t.shuffleFactor samplesPerTick
  some { t with
    samplesPerTick := Function.update t.samplesPerTick d samplesPerTick
    samplesPerTickShuffle := Function.update t.samplesPerTickShuffle d samplesPerTickShuffle }

/-- `calculate_samples_per_tick`, `src_jni/machine.cc:1777–1795`. -/
def calculateSamplesPerTick : Option Transport :=
  Dimension.all.foldlM calculateSamplesPerTickOf t

/-- `reset_global_playback_parameters`, `src_jni/machine.cc:1797–1804`. -/
def resetGlobalPlaybackParameters (playbackPosition : Int) : Transport :=
  { t with nextSequencePosition := playbackPosition, currentTick := 0, nextTickAt := fun _ ↦ 0 }

/-- The line behind a position, `src_jni/machine.cc:1832–1835`. -/
def nextLine (position : Int) : Option Int := do
  let position ← int (position + 1)
  some (if t.doLoop ∧ position ≥ t.loopStop then t.loopStart else position)

/-- What the loop over the ticks of a buffer changes, with the ticks that it has stepped over. -/
structure TickState where
  nta : Int
  currentTick : Int
  nextSequencePosition : Int
  evenLine : Bool
  stepped : List (Int × Int)

/-- The part for the `_MIDI` dimension, `src_jni/machine.cc:1825–1838`. -/
def synchronize (x : TickState) : Option TickState := do
  let stepped := x.stepped ++ [(x.nextSequencePosition, x.currentTick)]
  let tick ← int (x.currentTick + 1)
  let tick := tick.tmod machineTicksPerLine
  if tick = 0 then
    let position ← t.nextLine x.nextSequencePosition
    some ⟨x.nta, tick, position, Vuknob.evenLine position, stepped⟩
  else some { x with currentTick := tick, stepped := stepped }

/-- How far a tick is from the next one, `src_jni/machine.cc:1840–1843`. -/
def tickLength (d : Dimension) (evenLine : Bool) : Option Int :=
  if evenLine then int (t.samplesPerTick d - t.samplesPerTickShuffle d)
  else int (t.samplesPerTick d + t.samplesPerTickShuffle d)

/-- The body of the loop, `src_jni/machine.cc:1821–1843`. -/
def tickBody (d : Dimension) (x : TickState) : Option TickState :=
  Option.bind (if d = .midi then t.synchronize x else some x) fun x ↦ do
    let length ← t.tickLength d x.evenLine
    let nta ← int (x.nta + length)
    some { x with nta := nta }

/-- The loop, `src_jni/machine.cc:1820–1844`; it does not return when no amount of fuel is
enough. -/
def tickLoop (d : Dimension) : Nat → TickState → Option TickState
  | fuel, x =>
    if x.nta < t.defaults.samples d then
      match fuel with
      | 0 => none
      | fuel + 1 => Option.bind (t.tickBody d x) (tickLoop d fuel)
    else some x

/-- The state in which the loop is entered, `src_jni/machine.cc:1814–1818`. -/
def tickStart (d : Dimension) : TickState :=
  ⟨t.nextTickAt d, t.currentTick, t.nextSequencePosition, evenLine t.nextSequencePosition, []⟩

/-- One dimension, `src_jni/machine.cc:1811–1846`. -/
def advanceDimension (fuel : Nat) (t : Transport) (d : Dimension) : Option Transport := do
  let x ← t.tickLoop d fuel (t.tickStart d)
  let nextTickAt ← int (x.nta - t.defaults.samples d)
  some { t with
    nextTickAt := Function.update t.nextTickAt d nextTickAt
    currentTick := x.currentTick
    nextSequencePosition := x.nextSequencePosition }

/-- `calculate_next_tick_at_and_sequence_position`, `src_jni/machine.cc:1806–1848`. -/
def calculateNextTickAtAndSequencePosition (fuel : Nat) : Option Transport :=
  Dimension.all.foldlM (advanceDimension fuel) t

/-- `get_loop_length`, `src_jni/machine.cc:2078–2080`. -/
def getLoopLength : Option Int := int (t.loopStop - t.loopStart)

/-- `jump_to`, `src_jni/machine.cc:2025–2042`. -/
def jumpTo (position : Int) : Transport :=
  let position :=
    if t.doLoop then
      if position < t.loopStart then t.loopStart
      else if position > t.loopStop then t.loopStart
      else position
    else position
  { t with currentTick := 0, nextSequencePosition := position }

/-- `rewind`, `src_jni/machine.cc:2044–2052`. -/
def rewind : Transport :=
  let t := t.resetGlobalPlaybackParameters (if t.doLoop then t.loopStart else 0)
  { t with resumeSequencePosition := t.nextSequencePosition }

/-- `play`, `src_jni/machine.cc:2195–2203`. -/
def play : Transport :=
  { t with isPlaying := true }.resetGlobalPlaybackParameters t.resumeSequencePosition

/-- `stop`, `src_jni/machine.cc:2205–2213`. -/
def stop : Transport :=
  { t with resumeSequencePosition := t.nextSequencePosition, isPlaying := false }

end Transport

/-- The calls that act on the clock; `setDefaults` is `Signal::set_defaults`, and `fillSink`
what `internal_fill_sink` does to the clock for one buffer, `src_jni/machine.cc:1891–1897`,
with fuel for the loops. -/
inductive TransportCall
  | setLoopStart (line : Int32)
  | setLoopLength (loopLength : Int32)
  | setLoopState (doLoop : Bool)
  | setShuffleFactor (nf : Int32)
  | setBpm (bpm : Int32)
  | setLpb (lpb : Int32)
  | jumpTo (position : Int32)
  | rewind
  | play
  | stop
  | setDefaults (d : Dimension) (samples frequency : Int32)
  | createSignal (d : Dimension)
  | fillSink (fuel : Nat)

/-- How a call ends. -/
inductive TransportResult
  | returned
  | parameterOutOfSpec
  | unsupportedDimension
  deriving DecidableEq

namespace Transport

variable (t : Transport)

/-- Carry out a call; those that throw leave the playback members as they are. -/
def step : TransportCall → Option (TransportResult × Transport)
  | .setLoopStart line =>
    if line.toInt < 0 then some (.parameterOutOfSpec, t)
    else some (.returned, { t with loopStart := line.toInt })
  | .setLoopLength loopLength =>
    if loopLength.toInt < 4 then some (.parameterOutOfSpec, t)
    else (int (t.loopStart + loopLength.toInt)).map fun loopStop ↦
      (.returned, { t with loopStop := loopStop })
  | .setLoopState doLoop => some (.returned, { t with doLoop := doLoop })
  | .setShuffleFactor nf => some (.returned, { t with shuffleFactor := nf.toInt })
  | .setBpm bpm =>
    if bpm.toInt < 20 ∨ bpm.toInt > 200 then some (.parameterOutOfSpec, t)
    else some (.returned, { t with bpm := bpm.toInt })
  | .setLpb lpb =>
    if lpb.toInt < 2 ∨ lpb.toInt > 24 then some (.parameterOutOfSpec, t)
    else some (.returned, { t with lpb := lpb.toInt })
  | .jumpTo position => some (.returned, t.jumpTo position.toInt)
  | .rewind => some (.returned, t.rewind)
  | .play => some (.returned, t.play)
  | .stop => some (.returned, t.stop)
  | .setDefaults d samples frequency =>
    if d = .maxD then none
    else some (.returned,
      { t with defaults := t.defaults.internalSetDefaults d samples.toInt frequency.toInt })
  | .createSignal d =>
    (t.defaults.createSignal d).map fun (throws, defaults) ↦
      (if throws then .unsupportedDimension else .returned, { t with defaults := defaults })
  | .fillSink fuel => do
    let t ← t.calculateSamplesPerTick
    let t ← t.calculateNextTickAtAndSequencePosition fuel
    some (.returned, t)

/-- The values of the static members at the start of the program, `src_jni/machine.cc:1608–1622`
and `src_jni/signal.cc:818–822`. -/
def initial : Transport where
  shuffleFactor := 0
  loopStart := 0
  loopStop := 64
  doLoop := true
  currentTick := 0
  nextSequencePosition := 0
  resumeSequencePosition := 0
  nextTickAt _ := 0
  samplesPerTick _ := 0
  samplesPerTickShuffle _ := 0
  bpm := 120
  lpb := 4
  isPlaying := false
  defaults := ⟨false, fun _ ↦ 0, fun _ ↦ 0⟩

end Transport

end Vuknob
