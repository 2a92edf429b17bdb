import Mathlib.Data.List.FinRange
import Mathlib.Logic.Function.Basic
import Vuknob.Library.Runs
import Vuknob.Library.SortedLinks
import Vuknob.Playback.PadMotion

/-!
# The pad

`Pad`, `src_jni/engine_code/pad.hh:39–336` and `src_jni/engine_code/pad.cc:818–1354`: fingers with
their motions, sessions, and the pad itself. A motion is known by its place in the memory of its
finger, and a session by its number. Memory that is freed is not looked at again.
-/

namespace Vuknob

/-- `Pad::PadEvent::PadEvent_t`, `src_jni/engine_code/pad.hh:88–90`. -/
inductive PadEventType
  | msPadPress
  | msPadSlide
  | msPadRelease
  | msPadNoEvent
  deriving DecidableEq

/-- `Pad::PadEvent`, `src_jni/engine_code/pad.hh:86–97`. -/
structure PadEvent where
  t : PadEventType
  finger : Int
  x : BitVec 14
  y : BitVec 14
  z : BitVec 14
  deriving DecidableEq

/-- What `process` finds around the pad: whether and where the machines loop, and the scales. -/
structure PadSurroundings where
  loop : Option (Int × Int)
  scales : Scales

/-- `Pad::PadFinger`, `src_jni/engine_code/pad.hh:226–258`. `motions` is the memory of its motions,
`fresh` the first place that has not been used; `recorded` is the list that begins at the member of
that name, and `links` are this member and the pointers of the motions. -/
structure PadFinger where
  toBeDeleted : Bool
  motions : Nat → PadMotion
  fresh : Nat
  recorded : List Nat
  links : Library.Links Nat
  nextMotionToPlay : Option Nat
  playingMotions : List Nat
  current : Option Nat

namespace PadFinger

/-- `PadFinger::PadFinger`, `src_jni/engine_code/pad.cc:874–875`. Nothing reads the memory before
it is written to. -/
def new : PadFinger where
  toBeDeleted := false
  motions := fun _ ↦ .new ⟨.arpOff, .chordOff, 0, 0, none, (-1, -1), (-1, -1)⟩ 0 0 0 0
  fresh := 0
  recorded := []
  links := .empty
  nextMotionToPlay := none
  playingMotions := []
  current := none

/-- Write to a motion. -/
def write (k : Nat) (m : PadMotion) (F : PadFinger) : PadFinger :=
  { F with motions := Function.update F.motions k m }

/-- `PadMotion::record_motion`, `src_jni/engine_code/pad.cc:818–864`, on the list from `recorded`
on. -/
def recordMotion (motions : Nat → PadMotion) (target : Nat) : List Nat → List Nat
  | [] => [target]
  | top :: rest =>
    if (motions target).startTick < (motions top).startTick then target :: top :: rest
    else top :: recordMotion motions target rest

/-- `PadMotion::record_motion`, `src_jni/engine_code/pad.cc:818–864`, on the pointers. -/
def recordLinks (motions : Nat → PadMotion) (fuel target : Nat) (L : Library.Links Nat) :
    Library.Links Nat :=
  L.insert (fun target top ↦ (motions target).startTick < (motions top).startTick) fuel target

/-- `start_from_the_top`, `src_jni/engine_code/pad.cc:888–891`. -/
def startFromTheTop (F : PadFinger) : PadFinger :=
  { F with nextMotionToPlay := F.recorded.head?, playingMotions := [] }

/-- A press, `src_jni/engine_code/pad.cc:904–914`. -/
def press (config : PadConfiguration) (pe : PadEvent) (position : Int) (F : PadFinger) :
    PadFinger :=
  match (PadMotion.new config position pe.x pe.y pe.z).startMotion position with
  | some m =>
    { F.write F.fresh m with
      fresh := F.fresh + 1
      playingMotions := F.playingMotions ++ [F.fresh]
      current := some F.fresh }
  | none => { F with current := none }

/-- Change the current motion, if there is one. -/
def onCurrent (change : PadMotion → PadMotion) (F : PadFinger) : PadFinger :=
  match F.current with
  | some k => F.write k (change (F.motions k))
  | none => F

/-- `process_finger_events`, `src_jni/engine_code/pad.cc:893–929`. -/
def processFingerEvents (config : PadConfiguration) (pe : PadEvent) (sessionPosition : Int)
    (F : PadFinger) : PadFinger :=
  if F.toBeDeleted then F
  else
    match pe.t with
    | .msPadPress => F.press config pe (sessionPosition + 1)
    | .msPadRelease => F.onCurrent fun m ↦ (m.addPosition pe.x pe.y pe.z).terminate
    | .msPadSlide => F.onCurrent fun m ↦ m.addPosition pe.x pe.y pe.z
    | .msPadNoEvent => F

/-- The recorded motions from `next_motion_to_play` on. -/
def upcoming (F : PadFinger) : List Nat :=
  match F.nextMotionToPlay with
  | some k => F.recorded.dropWhile (· ≠ k)
  | none => []

/-- `src_jni/engine_code/pad.cc:938–943`. -/
def startMotions (sessionPosition : Int) : List Nat → PadFinger → PadFinger
  | [], F => { F with nextMotionToPlay := none }
  | k :: rest, F =>
    match (F.motions k).startMotion sessionPosition with
    | some m =>
      startMotions sessionPosition rest
        { F.write k m with playingMotions := F.playingMotions ++ [k] }
    | none => { F with nextMotionToPlay := some k }

/-- `src_jni/engine_code/pad.cc:934–944`. -/
def startRecorded (mute : Bool) (sessionPosition : Int) (F : PadFinger) : PadFinger :=
  if !F.toBeDeleted && !mute && F.nextMotionToPlay.isSome then
    F.startMotions sessionPosition F.upcoming
  else if mute then { F with nextMotionToPlay := none }
  else F

/-- What happens when a motion has finished playing, `src_jni/engine_code/pad.cc:949–961`. -/
def finish (doRecord quantize : Bool) (k : Nat) (F : PadFinger) : PadFinger :=
  let G := { F with playingMotions := F.playingMotions.erase k }
  if G.current = some k then
    if doRecord then
      { G.write k (if quantize then (G.motions k).quantize else G.motions k) with
        recorded := recordMotion G.motions k G.recorded
        links := recordLinks G.motions G.fresh k G.links
        current := none }
    else { G with current := none }
  else G

/-- One round of the loop over the motions that are played. -/
def playMotion (doRecord mute quantize : Bool) (scales : Scales) (k : Nat) (F : PadFinger) :
    List PadCall × PadFinger :=
  let (calls, finished, m) := (F.motions k).processMotion mute scales
  (calls, if finished then (F.write k m).finish doRecord quantize k else F.write k m)

/-- The loop over the motions that are played, `src_jni/engine_code/pad.cc:946–965`. -/
def playMotions (doRecord mute quantize : Bool) (scales : Scales) :
    List Nat → PadFinger → List PadCall × PadFinger
  | [], F => ([], F)
  | k :: rest, F =>
    let (calls, F) := F.playMotion doRecord mute quantize scales k
    let (more, F) := playMotions doRecord mute quantize scales rest F
    (calls ++ more, F)

/-- All recorded motions are complete, `src_jni/engine_code/pad.cc:967`. -/
def completed (F : PadFinger) : Bool := F.playingMotions.isEmpty && F.nextMotionToPlay.isNone

/-- `process_finger_motions`, `src_jni/engine_code/pad.cc:931–972`; its result is `completed`. -/
def processFingerMotions (doRecord mute : Bool) (sessionPosition : Int) (quantize : Bool)
    (scales : Scales) (F : PadFinger) : List PadCall × PadFinger :=
  let F := F.startRecorded mute sessionPosition
  F.playMotions doRecord mute quantize scales F.playingMotions

/-- `delete_pad_finger`, `src_jni/engine_code/pad.cc:983–993`, with `delete_motion`,
`src_jni/engine_code/pad.cc:617–626`. -/
def deletePadFinger (F : PadFinger) : PadFinger :=
  { F with
    motions := fun k ↦
      if k ∈ F.recorded ∧ (F.motions k).index ≠ -1 then { F.motions k with toBeDeleted := true }
      else F.motions k
    recorded := []
    links := { F.links with head := none }
    nextMotionToPlay := none
    toBeDeleted := true }

/-- `reset`, `src_jni/engine_code/pad.cc:974–981`. -/
def reset (F : PadFinger) : PadFinger :=
  { F with
    motions := fun k ↦ if k ∈ F.playingMotions then (F.motions k).reset else F.motions k
    playingMotions := []
    nextMotionToPlay := F.recorded.head? }

/-- `terminate`, `src_jni/engine_code/pad.cc:995–999`. -/
def terminate (F : PadFinger) : PadFinger := F.onCurrent PadMotion.terminate

end PadFinger

/-- The number of a finger; there are `MAX_PAD_FINGERS`, `src_jni/engine_code/pad.hh:32`. -/
abbrev PadFingerId := Fin 5

instance neZero_padFingerId : NeZero 5 := ⟨by decide⟩

/-- The finger that an event is for, if there is one, `src_jni/engine_code/pad.cc:1162`. -/
def PadEvent.fingerId (pe : PadEvent) : Option PadFingerId :=
  if h : 0 ≤ pe.finger ∧ pe.finger < 5 then some ⟨pe.finger.toNat, by omega⟩ else none

/-- `Pad::PadSession`, `src_jni/engine_code/pad.hh:261–294`, with the number of the session. -/
structure PadSession where
  number : Nat
  toBeDeleted : Bool
  terminated : Bool
  finger : PadFingerId → PadFinger
  startAtTick : Int
  playbackPosition : Int
  inPlay : Bool

namespace PadSession

/-- `start_play`, `src_jni/engine_code/pad.cc:1047–1064`; whether it is in play is its result. -/
def startPlay (crntTick : Int) (s : PadSession) : PadSession :=
  if s.inPlay then s
  else if s.startAtTick = crntTick then
    { s with
      inPlay := true
      playbackPosition := -1
      finger := fun f ↦ (s.finger f).startFromTheTop }
  else s

/-- All fingers are complete, `src_jni/engine_code/pad.cc:1071–1079`. -/
def completed (s : PadSession) : Bool := (List.finRange 5).all fun f ↦ (s.finger f).completed

/-- `process_session`, `src_jni/engine_code/pad.cc:1066–1088`, with its result. -/
def processSession (doRecord mute quantize : Bool) (scales : Scales) (s : PadSession) :
    List PadCall × Bool × PadSession :=
  let position := s.playbackPosition + 1
  let played f := (s.finger f).processFingerMotions doRecord mute position quantize scales
  let s := { s with playbackPosition := position, finger := fun f ↦ (played f).2 }
  ((List.finRange 5).flatMap fun f ↦ (played f).1, s.completed && s.toBeDeleted,
    { s with inPlay := !(s.completed && s.terminated) })

/-- `delete_session`, `src_jni/engine_code/pad.cc:1098–1104`. -/
def deleteSession (s : PadSession) : PadSession :=
  { s with toBeDeleted := true, finger := fun f ↦ (s.finger f).deletePadFinger }

/-- `reset`, `src_jni/engine_code/pad.cc:1090–1096`. -/
def reset (s : PadSession) : PadSession :=
  { s with inPlay := false, finger := fun f ↦ (s.finger f).reset }

/-- `terminate`, `src_jni/engine_code/pad.cc:1106–1111`. -/
def terminate (s : PadSession) : PadSession :=
  { s with terminated := true, finger := fun f ↦ (s.finger f).terminate }

/-- One round of the loop of `process_sessions`, `src_jni/engine_code/pad.cc:1198–1210`; there is
no session after it where it is deleted. -/
def play (doRecord noSound quantize : Bool) (tick : Int) (scales : Scales) (s : PadSession) :
    List PadCall × Option PadSession :=
  let s := s.startPlay tick
  if s.inPlay then
    let (calls, delete, s) := s.processSession doRecord noSound quantize scales
    (calls, if delete then none else some s)
  else ([], some s)

end PadSession

/-- `Pad`, `src_jni/engine_code/pad.hh:39–336`. `recorded_sessions` is `sessions` and behind them
`currentSession`, if there is one: that is where `process_events` puts it. -/
structure Pad where
  padEventQueue : List PadEvent
  sessions : List PadSession
  currentSession : Option PadSession
  doRecord : Bool
  doQuantize : Bool
  config : PadConfiguration
  made : Nat

namespace Pad

/-- `Pad::Pad`, `src_jni/engine_code/pad.cc:1132–1139`. -/
def new : Pad where
  padEventQueue := []
  sessions := []
  currentSession := none
  doRecord := false
  doQuantize := false
  config := ⟨.arpOff, .chordOff, 0, 4, some 0, (-1, -1), (-1, -1)⟩
  made := 0

/-- `recorded_sessions`. -/
def recordedSessions (p : Pad) : List PadSession := p.sessions ++ p.currentSession.toList

/-- `reset`, `src_jni/engine_code/pad.cc:1145–1157`. -/
def reset (p : Pad) : Pad :=
  { p with sessions := p.sessions.map PadSession.reset, currentSession := none }

/-- Where a new session starts, `src_jni/engine_code/pad.cc:1164–1178`. -/
def sessionStart (p : Pad) (tick : Int) (loop : Option (Int × Int)) : Int :=
  let startTick := if p.doQuantize then quantizeTick tick else tick
  match loop with
  | some (loopStart, loopLength) =>
    if (loopLength + loopStart) * machineTicksPerLine ≤ startTick then
      startTick - loopStart * machineTicksPerLine
    else startTick
  | none => startTick

/-- A new session, `src_jni/engine_code/pad.cc:1180–1182`. -/
def newSession (p : Pad) (tick : Int) (loop : Option (Int × Int)) : PadSession where
  number := p.made
  toBeDeleted := false
  terminated := false
  finger := fun _ ↦ .new
  startAtTick := p.sessionStart tick loop
  playbackPosition := -1
  inPlay := true

/-- The session for events, `src_jni/engine_code/pad.cc:1163–1184`. -/
def openSession (p : Pad) (tick : Int) (loop : Option (Int × Int)) : PadSession × Pad :=
  match p.currentSession with
  | some s => (s, p)
  | none => (p.newSession tick loop, { p with made := p.made + 1 })

/-- One round of the loop of `process_events`, `src_jni/engine_code/pad.cc:1162–1189`. -/
def processEvent (tick : Int) (loop : Option (Int × Int)) (p : Pad) (pe : PadEvent) : Pad :=
  match pe.fingerId with
  | none => p
  | some f =>
    let (s, p) := p.openSession tick loop
    let F := (s.finger f).processFingerEvents p.config pe s.playbackPosition
    { p with currentSession := some { s with finger := Function.update s.finger f F } }

/-- `process_events`, `src_jni/engine_code/pad.cc:1159–1190`. -/
def processEvents (tick : Int) (loop : Option (Int × Int)) (p : Pad) : Pad :=
  p.padEventQueue.foldl (processEvent tick loop) { p with padEventQueue := [] }

/-- One session of `process_sessions`; the one that is current is not muted. -/
def playSession (p : Pad) (noSound : Bool) (tick : Int) (scales : Scales) (s : PadSession) :
    List PadCall × Option PadSession :=
  s.play p.doRecord noSound p.doQuantize tick scales

/-- `process_sessions`, `src_jni/engine_code/pad.cc:1192–1212`. -/
def processSessions (mute : Bool) (tick : Int) (scales : Scales) (p : Pad) : List PadCall × Pad :=
  let others := p.playSession mute tick scales
  let current := p.playSession false tick scales
  (p.sessions.flatMap (fun s ↦ (others s).1) ++
      p.currentSession.toList.flatMap fun s ↦ (current s).1,
    { p with
      sessions := p.sessions.filterMap fun s ↦ (others s).2
      currentSession := p.currentSession.bind fun s ↦ (current s).2 })

/-- `process`, `src_jni/engine_code/pad.cc:1214–1217`. -/
def process (mute : Bool) (tick : Int) (around : PadSurroundings) (p : Pad) : List PadCall × Pad :=
  (p.processEvents tick around.loop).processSessions mute tick around.scales

/-- The event that `enqueue_event` makes, `src_jni/engine_code/pad.cc:1299–1304`. -/
def maskedEvent (fingerId : Int) (t : PadEventType) (x y z : Int) : PadEvent :=
  ⟨t, fingerId, BitVec.ofInt 14 x, BitVec.ofInt 14 y, BitVec.ofInt 14 z⟩

/-- `internal_set_record`, `src_jni/engine_code/pad.cc:1306–1321`. -/
def internalSetRecord (doRecord : Bool) (p : Pad) : Pad :=
  if p.doRecord = doRecord then p
  else
    let closed := p.currentSession.map fun s ↦ if p.doRecord then s.terminate else s.deleteSession
    { p with
      sessions := p.sessions ++ closed.toList, currentSession := none, doRecord := doRecord }

/-- `internal_clear_pad`, `src_jni/engine_code/pad.cc:1337–1346`. -/
def internalClearPad (p : Pad) : Pad :=
  { p with sessions := p.recordedSessions.map PadSession.deleteSession, currentSession := none }

end Pad

/-- What may be done with a pad. -/
inductive PadOp
  | enqueueEvent (fingerId : Int) (t : PadEventType) (x y z : Int)
  | process (mute : Bool) (tick : Int) (around : PadSurroundings)
  | internalSetRecord (doRecord : Bool)
  | internalClearPad
  | setQuantize (doQuantize : Bool)
  | configure (config : PadConfiguration)

/-- The events that are handed to the pad. -/
def PadOp.events : PadOp → List PadEvent
  | .enqueueEvent fingerId t x y z => [Pad.maskedEvent fingerId t x y z]
  | _ => []

/-- One operation on a pad, with the calls it makes. -/
def Pad.perform (p : Pad) : PadOp → List PadCall × Pad
  | .enqueueEvent fingerId t x y z =>
    ([], { p with padEventQueue := p.padEventQueue ++ [Pad.maskedEvent fingerId t x y z] })
  | .process mute tick around => p.process mute tick around
  | .internalSetRecord doRecord => ([], p.internalSetRecord doRecord)
  | .internalClearPad => ([], p.internalClearPad)
  | .setQuantize doQuantize => ([], { p with doQuantize := doQuantize })
  | .configure config => ([], { p with config := config })

/-- A pad, all events it has been handed and all calls it has made. -/
structure PadHistory where
  pad : Pad
  events : List PadEvent
  calls : List PadCall

/-- One operation, as it enters the history. -/
def PadHistory.step (h : PadHistory) (op : PadOp) : Option (List PadCall × PadHistory) :=
  let (calls, pad) := h.pad.perform op
  some (calls, ⟨pad, h.events ++ op.events, h.calls ++ calls⟩)

/-- An event goes to the current session, or to a new one that is current then. -/
theorem Pad.processEvent_eq (p : Pad) (tick : Int) (loop : Option (Int × Int)) {pe : PadEvent}
    {f : PadFingerId} (hf : pe.fingerId = some f) : ∃ (s : PadSession) (made : Nat),
      (p.currentSession = some s ∧ made = p.made ∨
        p.currentSession = none ∧ s = p.newSession tick loop ∧ made = p.made + 1) ∧
      processEvent tick loop p pe =
        { p with
          currentSession := some { s with
            finger := Function.update s.finger f
              ((s.finger f).processFingerEvents p.config pe s.playbackPosition) }
          made := made } := by
  rw [processEvent, hf, openSession]
  cases hs : p.currentSession with
  | none => exact ⟨_, _, .inr ⟨rfl, rfl, rfl⟩, rfl⟩
  | some s => exact ⟨s, _, .inl ⟨rfl, rfl⟩, rfl⟩

/-- Events only write to the current session. -/
theorem Pad.foldl_processEvent_eq (tick : Int) (loop : Option (Int × Int)) (events : List PadEvent)
    (p : Pad) : ∃ current made, events.foldl (processEvent tick loop) p =
      { p with currentSession := current, made := made } := by
  induction events generalizing p with
  | nil => exact ⟨_, _, rfl⟩
  | cons pe events ih =>
    obtain ⟨current, made, heq⟩ := ih (processEvent tick loop p pe)
    rw [List.foldl_cons, heq]
    cases hf : pe.fingerId with
    | none =>
      refine ⟨current, made, ?_⟩
      rw [processEvent, hf]
    | some f =>
      obtain ⟨s, n, -, hevent⟩ := p.processEvent_eq tick loop hf
      rw [hevent]
      exact ⟨current, made, rfl⟩

theorem Pad.padEventQueue_process (p : Pad) (mute : Bool) (tick : Int) (around : PadSurroundings) :
    (p.process mute tick around).2.padEventQueue = [] := by
  obtain ⟨current, made, heq⟩ :=
    foldl_processEvent_eq tick around.loop p.padEventQueue { p with padEventQueue := [] }
  rw [process, processEvents, heq]
  rfl

/-- A finger of the current session, as it is or will be. -/
def Pad.fingerOf (p : Pad) (f : PadFingerId) : PadFinger :=
  match p.currentSession with
  | some s => s.finger f
  | none => .new

/-- An event is for one finger. -/
theorem Pad.fingerOf_processEvent (p : Pad) (tick : Int) (loop : Option (Int × Int))
    {pe : PadEvent} {f : PadFingerId} (hf : pe.fingerId = some f) : ∃ position, ∀ g,
      (processEvent tick loop p pe).fingerOf g =
        if g = f then (p.fingerOf f).processFingerEvents p.config pe position
        else p.fingerOf g := by
  obtain ⟨s, made, hs, heq⟩ := p.processEvent_eq tick loop hf
  have hfinger : ∀ g, s.finger g = p.fingerOf g := by
    intro g
    rw [fingerOf]
    rcases hs with ⟨hs, -⟩ | ⟨hs, rfl, -⟩ <;> simp [hs, newSession]
  refine ⟨s.playbackPosition, fun g ↦ ?_⟩
  rw [heq, ← hfinger f, ← hfinger g]
  exact Function.update_apply ..

/-! ### Fingers that touch the pad -/

/-- The events of one finger. -/
def eventsOf (f : PadFingerId) (events : List PadEvent) : List PadEvent :=
  events.filter fun pe ↦ pe.fingerId = some f

/-- Whether the finger is down after an event. -/
def PadEventType.hold (held : Bool) : PadEventType → Bool
  | .msPadPress => true
  | .msPadRelease => false
  | .msPadSlide | .msPadNoEvent => held

/-- Only a finger that is up is pressed, and only one that is down slides or is released. -/
def PadEventType.allowed (held : Bool) : PadEventType → Bool
  | .msPadPress => !held
  | .msPadRelease | .msPadSlide => held
  | .msPadNoEvent => true

/-- The events alternate: press, slides, release. -/
def alternates : Bool → List PadEvent → Bool
  | _, [] => true
  | held, pe :: rest => pe.t.allowed held && alternates (pe.t.hold held) rest

/-- Whether a finger that has been up is down after the events. -/
def heldAfter (events : List PadEvent) : Bool :=
  events.foldl (fun held pe ↦ pe.t.hold held) false

theorem alternates_append (held : Bool) (events rest : List PadEvent) :
    alternates held (events ++ rest) = (alternates held events &&
      alternates (events.foldl (fun held pe ↦ pe.t.hold held) held) rest) := by
  induction events generalizing held with
  | nil => rfl
  | cons pe events ih => simp [alternates, ih, Bool.and_assoc]

/-- The events of every finger alternate. -/
def Alternating (events : List PadEvent) : Prop :=
  ∀ f, alternates false (eventsOf f events) = true

instance (events : List PadEvent) : Decidable (Alternating events) :=
  inferInstanceAs (Decidable (∀ f, alternates false (eventsOf f events) = true))

/-- All fingers are up. -/
def AllReleased (events : List PadEvent) : Prop := ∀ f, heldAfter (eventsOf f events) = false

instance (events : List PadEvent) : Decidable (AllReleased events) :=
  inferInstanceAs (Decidable (∀ f, heldAfter (eventsOf f events) = false))

theorem eventsOf_append (f : PadFingerId) (events rest : List PadEvent) :
    eventsOf f (events ++ rest) = eventsOf f events ++ eventsOf f rest :=
  List.filter_append ..

theorem eventsOf_append_singleton (f : PadFingerId) (events : List PadEvent) (pe : PadEvent) :
    eventsOf f (events ++ [pe]) =
      if pe.fingerId = some f then eventsOf f events ++ [pe] else eventsOf f events := by
  rw [eventsOf_append, eventsOf, eventsOf, List.filter_singleton]
  split <;> simp_all

theorem heldAfter_append_singleton (events : List PadEvent) (pe : PadEvent) :
    heldAfter (events ++ [pe]) = pe.t.hold (heldAfter events) := by
  simp [heldAfter]

theorem Alternating.init {events rest : List PadEvent} (h : Alternating (events ++ rest)) :
    Alternating events := by
  intro f
  have hf := h f
  rw [eventsOf_append, alternates_append, Bool.and_eq_true] at hf
  exact hf.1

/-- In events that alternate, every one is allowed. -/
theorem Alternating.next {events rest : List PadEvent} {pe : PadEvent} {f : PadFingerId}
    (h : Alternating (events ++ pe :: rest)) (hf : pe.fingerId = some f) :
    pe.t.allowed (heldAfter (eventsOf f events)) = true := by
  have hf' := h f
  rw [eventsOf_append, eventsOf, eventsOf, List.filter_cons, if_pos (by simpa using hf),
    alternates_append, alternates, Bool.and_eq_true, Bool.and_eq_true] at hf'
  exact hf'.2.1

end Vuknob
