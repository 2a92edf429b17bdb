import Mathlib.Algebra.Order.Ring.Int
import Mathlib.Logic.Function.Basic
import Vuknob.Library.PointerList

/-!
# MIDI event builders

`src_jni/midi_generation.hh:33–89` and `src_jni/midi_generation.cc:28–290`. All builders take
the events they queue from one static chain of free events and give them back to it. A
pointer to an event is the address of the chain node that holds it; nodes are allocated
256 at a time and never returned to the system. The memory of an output buffer belongs to
the caller: a builder is modelled with what it has written to the one it was last given,
which stays there after `finish_current_buffer` has cleared the builder's pointer. Writing
through no or an uninitialised pointer and overflowing an `int` are undefined and yield `none`.
`malloc` does not fail.
-/

namespace Vuknob

/-- Address of a `MidiEventChain`, and of the `MidiEvent` that it holds. -/
abbrev EventId := Nat

/-- The contents of a `MidiEvent`, `src_jni/dynlib/dynlib.h:264–267`. -/
structure MidiEvent where
  length : Nat
  data : List UInt8
  deriving DecidableEq

/-- `MidiEventChain`, `src_jni/midi_generation.hh:33–39`. -/
structure MidiEventChain where
  event : MidiEvent
  nextInChain : Option EventId
  lastInChain : Option EventId

/-- The chain nodes, of which those at the addresses below `count` have been allocated, with
the static member `next_free_midi_event`, `src_jni/midi_generation.cc:35`. -/
structure MidiHeap where
  nodes : EventId → MidiEventChain
  count : Nat
  nextFreeMidiEvent : Option EventId

namespace MidiHeap

variable (h : MidiHeap)

/-- Write to the node at an address. -/
def modify (e : EventId) (f : MidiEventChain → MidiEventChain) : MidiHeap :=
  { h with nodes := Function.update h.nodes e (f (h.nodes e)) }

/-- `DEFAULT_MAX_FREE_CHAIN`, `src_jni/midi_generation.cc:34`. -/
def defaultMaxFreeChain : Nat := 256

/-- `init_free_midi_event_chain`, `src_jni/midi_generation.cc:42–62`: zeroed nodes, each
linked to the one behind it. -/
def initFreeMidiEventChain : MidiHeap where
  nodes e :=
    if h.count ≤ e ∧ e < h.count + defaultMaxFreeChain then
      ⟨⟨0, [0, 0, 0, 0]⟩, if e + 1 < h.count + defaultMaxFreeChain then some (e + 1) else none,
        none⟩
    else h.nodes e
  count := h.count + defaultMaxFreeChain
  nextFreeMidiEvent := some h.count

/-- `pop_next_free_midi` on a chain that is not empty, `src_jni/midi_generation.cc:75–86`. -/
def popFrom (retval : EventId) (size : Nat) : EventId × MidiHeap :=
  let h := { h with nextFreeMidiEvent := (h.nodes retval).nextInChain }
  (retval, h.modify retval fun node ↦
    ⟨{ node.event with length := size }, none, some retval⟩)

/-- `pop_next_free_midi`, `src_jni/midi_generation.cc:68–87`; its only caller passes a size
that it does not refuse. -/
def popNextFreeMidi (size : Nat) : EventId × MidiHeap :=
  match h.nextFreeMidiEvent with
  | some retval => h.popFrom retval size
  | none => h.initFreeMidiEventChain.popFrom h.count size

/-- `push_next_free_midi`, `src_jni/midi_generation.cc:93–105`. -/
def pushNextFreeMidi (element : EventId) : MidiHeap :=
  let last :=
    match h.nextFreeMidiEvent with
    | some head => (h.nodes head).lastInChain
    | none => some element
  { h.modify element fun node ↦
      { node with lastInChain := last, nextInChain := h.nextFreeMidiEvent } with
    nextFreeMidiEvent := some element }

/-- `get_chain_head` on a queue that is not empty, `src_jni/midi_generation.cc:107–122`: what
is left of the queue, and the nodes. -/
def getChainHead (chain : EventId) : Option EventId × MidiHeap :=
  let node := h.nodes chain
  let h :=
    match node.nextInChain with
    | some next => h.modify next fun n ↦ { n with lastInChain := node.lastInChain }
    | none => h
  (node.nextInChain, h.modify chain fun n ↦ { n with nextInChain := none, lastInChain := some chain })

/-- `chain_to_tail` with `join_chains`, `src_jni/midi_generation.cc:124–149`: the chain
afterwards, and the nodes. -/
def chainToTail (chain : Option EventId) (source : EventId) : Option (Option EventId × MidiHeap) :=
  match chain with
  | none => some (some source, h)
  | some destination =>
    match (h.nodes destination).lastInChain with
    | none => none
    | some lastEntry =>
      let h := h.modify lastEntry fun n ↦ { n with nextInChain := some source }
      some (chain, h.modify destination fun n ↦
        { n with lastInChain := (h.nodes source).lastInChain })

end MidiHeap

/-- `MidiEventBuilder`, `src_jni/midi_generation.hh:64–76`. `buffer` is what has been written
to the output buffer since `use_buffer`, and `attached` says whether the member points to it. -/
structure MidiEventBuilder where
  buffer : List (Int × EventId)
  attached : Bool
  bufferSize : Int
  bufferPosition : Int
  bufferPLastSkip : Int
  remainingMidiChain : Option EventId
  freeableMidiChain : Option EventId

/-- One builder together with the nodes. -/
structure Building where
  heap : MidiHeap
  builder : MidiEventBuilder

namespace Building

variable (g : Building)

/-- The event goes to the current place of the buffer and to the freeable chain,
`src_jni/midi_generation.cc:162–163,178–179`. -/
def place (mev : EventId) : Option Building :=
  if g.builder.attached then
    (g.heap.chainToTail g.builder.freeableMidiChain mev).map fun (chain, heap) ↦
      { heap := heap
        builder :=
          { g.builder with
            buffer := g.builder.buffer ++ [(g.builder.bufferPosition, mev)]
            bufferPosition := g.builder.bufferPosition + 1
            freeableMidiChain := chain } }
  else none

/-- `chain_event`, `src_jni/midi_generation.cc:158–165`. -/
def chainEvent (mev : EventId) : Option Building :=
  if g.builder.bufferPosition ≥ g.builder.bufferSize then
    (g.heap.chainToTail g.builder.remainingMidiChain mev).map fun (chain, heap) ↦
      { heap := heap, builder := { g.builder with remainingMidiChain := chain } }
  else g.place mev

/-- `process_freeable_chain`, `src_jni/midi_generation.cc:167–172`. -/
def processFreeableChain : Nat → Building → Option Building
  | fuel, g =>
    match g.builder.freeableMidiChain with
    | none => some g
    | some mev =>
      match fuel with
      | 0 => none
      | fuel + 1 =>
        let (chain, heap) := g.heap.getChainHead mev
        processFreeableChain fuel
          { heap := heap.pushNextFreeMidi mev
            builder := { g.builder with freeableMidiChain := chain } }

/-- `process_remaining_chain`, `src_jni/midi_generation.cc:174–181`. -/
def processRemainingChain : Nat → Building → Option Building
  | fuel, g =>
    if g.builder.bufferPosition < g.builder.bufferSize then
      match g.builder.remainingMidiChain with
      | none => some g
      | some mev =>
        match fuel with
        | 0 => none
        | fuel + 1 =>
          let (chain, heap) := g.heap.getChainHead mev
          Option.bind
            (place { heap := heap, builder := { g.builder with remainingMidiChain := chain } } mev)
            (processRemainingChain fuel)
    else some g

/-- `use_buffer`, `src_jni/midi_generation.cc:183–190`. -/
def useBuffer (bufferSize : Int) : Option Building :=
  processRemainingChain bufferSize.toNat
    { g with
      builder :=
        { g.builder with
          buffer := []
          attached := true
          bufferSize := bufferSize
          bufferPosition := 0
          bufferPLastSkip := 0 } }

/-- `finish_current_buffer`, `src_jni/midi_generation.cc:192–197`. -/
def finishCurrentBuffer : Option Building :=
  processFreeableChain g.heap.count
    { g with
      builder := { g.builder with bufferSize := 0, bufferPosition := 1, attached := false } }

/-- `skip`, `src_jni/midi_generation.cc:199–203`, with what it returns. -/
def skip (skipLength : Int) : Option (Bool × Building) :=
  let lastSkip := g.builder.bufferPLastSkip + skipLength
  if lastSkip < -2 ^ 31 ∨ 2 ^ 31 ≤ lastSkip then none
  else
    let position := if lastSkip > g.builder.bufferPosition then lastSkip
      else g.builder.bufferPosition
    some (position < g.builder.bufferSize,
      { g with builder :=
          { g.builder with bufferPLastSkip := lastSkip, bufferPosition := position } })

/-- What the functions that queue an event have in common: the event is taken from the free
chain, its first three bytes are set, `SET_MIDI_DATA_3`, `src_jni/dynlib/dynlib.h:272–275`, and
it is chained. The event is returned as well. -/
def queue (status first second : UInt8) : Option (EventId × Building) :=
  let (mev, heap) := g.heap.popNextFreeMidi 3
  let heap := heap.modify mev fun node ↦
    { node with
      event := { node.event with data := status :: first :: second :: node.event.data.drop 3 } }
  (chainEvent { g with heap := heap } mev).map fun g ↦ (mev, g)

end Building

/-- The low byte of an `int`, which is what assigning it to a `uint8_t` keeps. -/
def lowByte (value : Int32) : UInt8 := value.toUInt32.toUInt8

/-- A status byte: the kind of message and `channel & 0x0f`. -/
def statusByte (kind : UInt8) (channel : Int32) : UInt8 := kind ||| (lowByte channel &&& 0x0f)

/-- `MIDI_NOTE_OFF`, `src_jni/dynlib/dynlib.h:255`. -/
def midiNoteOff : UInt8 := 0x80

/-- `MIDI_NOTE_ON`, `src_jni/dynlib/dynlib.h:256`. -/
def midiNoteOn : UInt8 := 0x90

/-- `MIDI_CONTROL_CHANGE`, `src_jni/dynlib/dynlib.h:258`. -/
def midiControlChange : UInt8 := 0xb0

/-- `MIDI_PITCH_BEND`, `src_jni/dynlib/dynlib.h:262`. -/
def midiPitchBend : UInt8 := 0xe0

namespace Building

variable (g : Building)

/-- `queue_note_on`, `src_jni/midi_generation.cc:233–243`. -/
def queueNoteOn (note velocity channel : Int32) : Option (EventId × Building) :=
  g.queue (statusByte midiNoteOn channel) (lowByte note) (lowByte velocity)

/-- `queue_note_off`, `src_jni/midi_generation.cc:245–255`. -/
def queueNoteOff (note velocity channel : Int32) : Option (EventId × Building) :=
  g.queue (statusByte midiNoteOff channel) (lowByte note) (lowByte velocity)

/-- `queue_controller`, `src_jni/midi_generation.cc:257–269`. -/
def queueController (controller value channel : Int32) : Option (EventId × Building) :=
  g.queue (statusByte midiControlChange channel) (lowByte controller) (lowByte value)

/-- `queue_pitch_bend`, `src_jni/midi_generation.cc:271–281`. -/
def queuePitchBend (valueLsb valueMsb channel : Int32) : Option (EventId × Building) :=
  g.queue (statusByte midiPitchBend channel) (lowByte valueLsb) (lowByte valueMsb)

end Building

/-- The calls that act on a builder. -/
inductive MidiCall
  | useBuffer (bufferSize : Int32)
  | finishCurrentBuffer
  | skip (skipLength : Int32)
  | queueNoteOn (note velocity channel : Int32)
  | queueNoteOff (note velocity channel : Int32)
  | queueController (controller value channel : Int32)
  | queuePitchBend (valueLsb valueMsb channel : Int32)
  deriving DecidableEq

/-- The calls that queue an event. -/
def MidiCall.queues : MidiCall → Bool
  | .queueNoteOn .. | .queueNoteOff .. | .queueController .. | .queuePitchBend .. => true
  | _ => false

/-- A byte of the input, as the `int` that is passed on. -/
def charArgument (byte : UInt8) : Int32 := byte.toUInt32.toInt32

/-- The message that `queue_midi_data` makes of three bytes, or `none` where the status byte is
not implemented, `src_jni/midi_generation.cc:209–229`. -/
def midiMessage (status first second : UInt8) : Option MidiCall :=
  let kind := status &&& 0xf0
  let channel := charArgument (status &&& 0x0f)
  if kind = midiNoteOff then
    some (.queueNoteOff (charArgument first) (charArgument second) channel)
  else if kind = midiNoteOn then
    some (.queueNoteOn (charArgument first) (charArgument second) channel)
  else if kind = midiControlChange then
    some (.queueController (charArgument first) (charArgument second) channel)
  else if kind = midiPitchBend then
    some (.queuePitchBend (charArgument first) (charArgument second) channel)
  else none

/-- `queue_midi_data`, `src_jni/midi_generation.cc:205–231`, acts on the builder through the
calls that are returned here; reading behind the end of `data` is undefined. -/
def queueMidiData : List UInt8 → Option (List MidiCall)
  | [] => some []
  | status :: first :: second :: data =>
    match midiMessage status first second with
    | some call => (queueMidiData data).map (call :: ·)
    | none => some []
  | status :: _ => if (midiMessage status 0 0).isSome then none else some []

/-- All builders, whatever they are numbered by, and the nodes that they share. -/
structure MidiSpace (ι : Type) where
  heap : MidiHeap
  builders : ι → MidiEventBuilder

namespace MidiSpace

variable {ι : Type} [DecidableEq ι] (s : MidiSpace ι)

/-- One builder of the space and the nodes. -/
def building (b : ι) : Building := ⟨s.heap, s.builders b⟩

/-- The space after one builder has been at work. -/
def put (b : ι) (g : Building) : MidiSpace ι :=
  ⟨g.heap, Function.update s.builders b g.builder⟩

/-- Carry out a call on a builder; the result is the event that `pop_next_free_midi` returned
in the course of it, if it was called. -/
def step : ι × MidiCall → Option (Option EventId × MidiSpace ι)
  | (b, .useBuffer bufferSize) =>
    ((s.building b).useBuffer bufferSize.toInt).map fun g ↦ (none, s.put b g)
  | (b, .finishCurrentBuffer) =>
    (s.building b).finishCurrentBuffer.map fun g ↦ (none, s.put b g)
  | (b, .skip skipLength) =>
    ((s.building b).skip skipLength.toInt).map fun (_, g) ↦ (none, s.put b g)
  | (b, .queueNoteOn note velocity channel) =>
    ((s.building b).queueNoteOn note velocity channel).map fun (mev, g) ↦ (some mev, s.put b g)
  | (b, .queueNoteOff note velocity channel) =>
    ((s.building b).queueNoteOff note velocity channel).map fun (mev, g) ↦ (some mev, s.put b g)
  | (b, .queueController controller value channel) =>
    ((s.building b).queueController controller value channel).map
      fun (mev, g) ↦ (some mev, s.put b g)
  | (b, .queuePitchBend valueLsb valueMsb channel) =>
    ((s.building b).queuePitchBend valueLsb valueMsb channel).map
      fun (mev, g) ↦ (some mev, s.put b g)

/-- The start of the program: no free events, `src_jni/midi_generation.cc:35`, and builders as
constructed, `src_jni/midi_generation.cc:156`, whose other members are not initialised. -/
structure Initial : Prop where
  free : s.heap.nextFreeMidiEvent = none
  remaining : ∀ b, (s.builders b).remainingMidiChain = none
  freeable : ∀ b, (s.builders b).freeableMidiChain = none
  buffer : ∀ b, (s.builders b).buffer = []
  attached : ∀ b, (s.builders b).attached = false

end MidiSpace

end Vuknob
