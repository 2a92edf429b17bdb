import Mathlib.Data.List.Nodup
import Mathlib.Logic.Function.Basic
import Vuknob.Base.CInt
import Vuknob.Library.Runs
import Vuknob.Midi.EventBuilder

/-!
# Playing loops

`MachineSequencer::Loop`, `src_jni/machine_sequencer.cc:170–226`, and the part of
`MachineSequencer::fill_buffers` that starts and processes loops,
`src_jni/machine_sequencer.cc:738–749`. A note entry is known by its place in the list of its loop.
The machines are playing, and nothing is edited.
-/

namespace Vuknob

/-- `MachineSequencer::NoteEntry`, `src_jni/machine_sequencer.hh:111–135`, less `program`, the list
pointers and the counter. -/
structure NoteEntry where
  channel : UInt8
  velocity : UInt8
  note : UInt8
  onAt : Int
  length : Int
  deriving DecidableEq

/-- What a loop queues. -/
inductive LoopEvent
  | noteOn (n : NoteEntry)
  | noteOff (n : NoteEntry)
  deriving DecidableEq

/-- The call on the event builder, `src_jni/machine_sequencer.cc:199,215`. -/
def LoopEvent.call : LoopEvent → MidiCall
  | .noteOn n => .queueNoteOn (charArgument n.note) (charArgument n.velocity)
      (charArgument n.channel)
  | .noteOff n => .queueNoteOff (charArgument n.note) 0x80 (charArgument n.channel)

/-- `MAX_ACTIVE_NOTES`, `src_jni/machine_sequencer.hh:64`. -/
def maxActiveNotes : Nat := 16

/-- `MachineSequencer::Loop`, `src_jni/machine_sequencer.hh:148–157`, with the `ticks2off` of its
notes. `nextNoteToPlay` is null behind the last note. -/
structure Loop where
  note : List NoteEntry
  loopPosition : Int
  nextNoteToPlay : Nat
  activeNote : List (Option Nat)
  ticks2off : Nat → Int

namespace Loop

/-- `start_to_play`, `src_jni/machine_sequencer.cc:170–173`. -/
def startToPlay (L : Loop) : Loop := { L with loopPosition := 0, nextNoteToPlay := 0 }

/-- `activate_note`, `src_jni/machine_sequencer.cc:175–183`. -/
def activateNote (k : Nat) (L : Loop) : Bool × Loop :=
  let x := L.activeNote.idxOf none
  if x < L.activeNote.length then
    (true, { L with activeNote := L.activeNote.set x (some k) })
  else (false, L)

/-- `deactivate_note`, `src_jni/machine_sequencer.cc:185–192`. -/
def deactivateNote (k : Nat) (L : Loop) : Loop :=
  { L with activeNote := L.activeNote.set (L.activeNote.idxOf (some k)) none }

/-- One round of `process_note_on`, `src_jni/machine_sequencer.cc:196–203`: the events it queues,
and the loop. -/
def startNote (sound : Bool) (n : NoteEntry) (L : Loop) : Option (List LoopEvent × Loop) :=
  let k := L.nextNoteToPlay
  match sound, L.activateNote k with
  | true, (true, L') =>
    (int (n.length + 1)).map fun ticks ↦
      ([.noteOn n], { L' with
        ticks2off := Function.update L'.ticks2off k ticks, nextNoteToPlay := k + 1 })
  | _, _ => some ([], { L with nextNoteToPlay := k + 1 })

/-- The loop of `process_note_on` over the notes from `next_note_to_play` on. -/
def startNotes (sound : Bool) : List NoteEntry → Loop → Option (List LoopEvent × Loop)
  | [], L => some ([], L)
  | n :: rest, L =>
    if n.onAt = L.loopPosition then do
      let (event, L) ← L.startNote sound n
      let (events, L) ← startNotes sound rest L
      some (event ++ events, L)
    else some ([], L)

/-- `process_note_on`, `src_jni/machine_sequencer.cc:194–205`. -/
def processNoteOn (sound : Bool) (L : Loop) : Option (List LoopEvent × Loop) :=
  startNotes sound (L.note.drop L.nextNoteToPlay) L

/-- One round of `process_note_off`, `src_jni/machine_sequencer.cc:208–217`. -/
def endNote (slot : Nat) (L : Loop) : List LoopEvent × Loop :=
  match L.activeNote[slot]? with
  | some (some k) =>
    if L.ticks2off k > 0 then
      ([], { L with ticks2off := Function.update L.ticks2off k (L.ticks2off k - 1) })
    else (L.note[k]?.toList.map .noteOff, L.deactivateNote k)
  | _ => ([], L)

/-- The rounds of `process_note_off` for some slots. -/
def endNotes : List Nat → Loop → List LoopEvent × Loop
  | [], L => ([], L)
  | slot :: slots, L =>
    let (event, L) := L.endNote slot
    let (events, L) := endNotes slots L
    (event ++ events, L)

/-- `process_note_off`, `src_jni/machine_sequencer.cc:207–219`. -/
def processNoteOff (L : Loop) : List LoopEvent × Loop := endNotes (List.range maxActiveNotes) L

/-- `process`, `src_jni/machine_sequencer.cc:221–226`; `sound` is `is_playing && !mute`. -/
def process (sound : Bool) (L : Loop) : Option (List LoopEvent × Loop) :=
  (L.processNoteOn sound).bind fun (started, L) ↦
    let ended := L.processNoteOff
    (int (ended.2.loopPosition + 1)).map fun loopPosition ↦
      (started ++ ended.1, { ended.2 with loopPosition := loopPosition })

end Loop

/-- The members of `MachineSequencer` that have to do with loops,
`src_jni/machine_sequencer.hh:279,305–311`; `currentLoop` is the id of the loop. -/
structure LoopPlayer where
  loopStore : List (Option Loop)
  loopSequence : List (Option Nat)
  currentLoop : Option Nat

namespace LoopPlayer

/-- The loop with an id; there is none where the pointer is null or outside of the store. -/
def loop (p : LoopPlayer) (loopId : Nat) : Option Loop := p.loopStore[loopId]?.join

/-- Write to a loop. -/
def setLoop (p : LoopPlayer) (loopId : Nat) (L : Loop) : LoopPlayer :=
  { p with loopStore := p.loopStore.set loopId (some L) }

/-- `internal_get_loop_id_at`, `src_jni/machine_sequencer.cc:528–534`; `none` is `NOTE_NOT_SET`. -/
def internalGetLoopIdAt (p : LoopPlayer) (position : Int) : Option Nat :=
  if 0 ≤ position then p.loopSequence[position.toNat]?.join else none

/-- The loop that begins at a tick, `src_jni/machine_sequencer.cc:738–739`. -/
def begins (p : LoopPlayer) (sequencePosition currentTick : Int) : Option Nat :=
  if currentTick = 0 then p.internalGetLoopIdAt sequencePosition else none

/-- `src_jni/machine_sequencer.cc:738–745`. -/
def startLoop (p : LoopPlayer) (sequencePosition currentTick : Int) : Option LoopPlayer :=
  match p.begins sequencePosition currentTick with
  | none => some p
  | some loopId =>
    (p.loop loopId).map fun L ↦ { p.setLoop loopId L.startToPlay with currentLoop := some loopId }

/-- `src_jni/machine_sequencer.cc:747–749`. -/
def processLoop (p : LoopPlayer) (mute : Bool) : Option (List LoopEvent × LoopPlayer) :=
  match p.currentLoop with
  | none => some ([], p)
  | some loopId =>
    match p.loop loopId with
    | none => none
    | some L => (L.process !mute).map fun (events, L) ↦ (events, p.setLoop loopId L)

/-- What one round of the loop in `fill_buffers` does about loops,
`src_jni/machine_sequencer.cc:738–749`. -/
def tick (p : LoopPlayer) (sequencePosition currentTick : Int) (mute : Bool) :
    Option (List LoopEvent × LoopPlayer) :=
  (p.startLoop sequencePosition currentTick).bind fun p ↦ p.processLoop mute

end LoopPlayer

end Vuknob
