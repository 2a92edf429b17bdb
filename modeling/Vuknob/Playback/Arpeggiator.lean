import Mathlib.Data.Fin.VecNotation
import Mathlib.Data.List.Perm.Basic
import Vuknob.Clock.Transport
import Vuknob.Library.Pending

/-!
# The arpeggiator of the pad

`Pad::Arpeggiator`, `src_jni/engine_code/pad.hh:100–166` and `src_jni/engine_code/pad.cc:47–348`.
It plays the keys that are held down one after the other, in the rhythm of a pattern. The fingers
behind `finger_count` are not looked at, so the list of fingers ends there.
-/

namespace Vuknob

/-- The calls of the pad on its event builder, all on channel 0. -/
inductive PadCall
  | queueNoteOn (note velocity : Int)
  | queueNoteOff (note velocity : Int)
  | queueController (controller value : Int)
  | queuePitchBend (valueLsb valueMsb : Int)
  deriving DecidableEq

namespace PadCall

/-- The call starts the note. -/
def Starts (c : PadCall) (note : Int) : Prop := ∃ velocity, c = .queueNoteOn note velocity

/-- The call ends the note. -/
def Ends (c : PadCall) (note : Int) : Prop := ∃ velocity, c = .queueNoteOff note velocity

@[simp]
theorem starts_queueNoteOn {note n velocity : Int} :
    (queueNoteOn note velocity).Starts n ↔ note = n := by
  simp [Starts]

@[simp]
theorem not_starts_queueNoteOff {note n velocity : Int} :
    ¬ (queueNoteOff note velocity).Starts n := by
  simp [Starts]

@[simp]
theorem ends_queueNoteOff {note n velocity : Int} :
    (queueNoteOff note velocity).Ends n ↔ note = n := by
  simp [Ends]

@[simp]
theorem not_ends_queueNoteOn {note n velocity : Int} : ¬ (queueNoteOn note velocity).Ends n := by
  simp [Ends]

end PadCall

/-- `Pad::PadConfiguration::ArpeggioDirection`, `src_jni/engine_code/pad.hh:50–55`. -/
inductive ArpeggioDirection
  | arpOff
  | arpForward
  | arpReverse
  | arpPingpong
  deriving DecidableEq

/-- `Pad::Arpeggiator::Note`, `src_jni/engine_code/pad.hh:102–112`. -/
structure ArpNote where
  onLength : Int
  offLength : Int
  octaveOffset : Int
  slide : Bool
  deriving DecidableEq

/-- The number of a built-in pattern; there are `MAX_BUILTIN_ARP_PATTERNS`,
`src_jni/engine_code/pad.hh:36`. -/
abbrev ArpPatternId := Fin 7

instance neZero_arpPatternId : NeZero 7 := ⟨by decide⟩

/-- `Pattern::initiate_built_in`, `src_jni/engine_code/pad.cc:49–128`. -/
def builtIn : ArpPatternId → List ArpNote :=
  let half := machineTicksPerLine / 2
  let quarter := machineTicksPerLine / 4
  let eighth := machineTicksPerLine / 8
  let plain octave := ArpNote.mk (machineTicksPerLine - half) half octave false
  let longer octave := ArpNote.mk (machineTicksPerLine - half + 1) (half - 1) octave false
  ![[plain 0],
    [⟨half - quarter, quarter, 0, false⟩],
    [plain 0, plain 1],
    [plain 0, plain 1, plain (-1)],
    [plain 0, longer 0],
    [plain 0, longer 1, plain 0, longer 1],
    [⟨quarter - eighth, eighth, 0, false⟩]]

/-- `MAX_ARP_FINGERS`, `src_jni/engine_code/pad.hh:31`. -/
def maxArpFingers : Nat := 5

/-- `Pad::Arpeggiator::ArpFinger`, `src_jni/engine_code/pad.hh:143–146`. -/
structure ArpFinger where
  key : Int
  velocity : Int
  counter : Int
  deriving DecidableEq

/-- The phases of a note, `src_jni/engine_code/pad.hh:133`. -/
inductive ArpPhase
  | goToOn
  | on
  | goToOff
  | off
  deriving DecidableEq

/-- `Pad::Arpeggiator`, `src_jni/engine_code/pad.hh:100–166`; `note` is -1 where none is on. -/
structure Arpeggiator where
  phase : ArpPhase
  ticksLeft : Int
  note : Int
  velocity : Int
  currentFinger : Nat
  patternIndex : Nat
  pingpongDirectionForward : Bool
  arpDirection : ArpeggioDirection
  currentPattern : Option (List ArpNote)
  finger : List ArpFinger
  deriving DecidableEq

namespace ArpFinger

/-- The inner loop of `sort_keys`: the finger that comes to stand first, and the others. -/
def sift (first : ArpFinger) : List ArpFinger → ArpFinger × List ArpFinger
  | [] => (first, [])
  | f :: rest =>
    if f.key < first.key then
      let (least, others) := sift f rest
      (least, first :: others)
    else
      let (least, others) := sift first rest
      (least, f :: others)

/-- Rounds of the outer loop of `sort_keys`. -/
def siftAll : Nat → List ArpFinger → List ArpFinger
  | rounds + 1, f :: rest =>
    let (least, others) := sift f rest
    least :: siftAll rounds others
  | _, fingers => fingers

/-- `sort_keys`, `src_jni/engine_code/pad.cc:167–179`. -/
def sortKeys (fingers : List ArpFinger) : List ArpFinger := siftAll (fingers.length - 1) fingers

/-- The loop of `enable_key` for a key that is down, `src_jni/engine_code/pad.cc:182–188`. -/
def countUp (key velocity : Int) : List ArpFinger → List ArpFinger
  | [] => []
  | f :: rest =>
    if f.key = key then { f with counter := f.counter + 1, velocity := velocity } :: rest
    else f :: countUp key velocity rest

/-- The loop of `disable_key`, `src_jni/engine_code/pad.cc:204–222`. -/
def countDown (key : Int) : List ArpFinger → List ArpFinger
  | [] => []
  | f :: rest =>
    if f.key = key then
      if f.counter - 1 = 0 then rest else { f with counter := f.counter - 1 } :: rest
    else f :: countDown key rest

end ArpFinger

namespace Arpeggiator

/-- `Arpeggiator::Arpeggiator`, `src_jni/engine_code/pad.cc:136–148`. -/
def new : Arpeggiator where
  phase := .goToOn
  ticksLeft := 0
  note := 0
  velocity := 0
  currentFinger := 0
  patternIndex := 0
  pingpongDirectionForward := true
  arpDirection := .arpPingpong
  currentPattern := some (builtIn 0)
  finger := []

/-- `reset`, `src_jni/engine_code/pad.cc:150–159`. -/
def reset (A : Arpeggiator) : Arpeggiator :=
  { A with finger := [], phase := .goToOn, ticksLeft := 0, currentFinger := 0, patternIndex := 0,
           note := -1 }

/-- `set_direction`, `src_jni/engine_code/pad.cc:346–348`. -/
def setDirection (direction : ArpeggioDirection) (A : Arpeggiator) : Arpeggiator :=
  { A with arpDirection := direction }

/-- `set_pattern`, `src_jni/engine_code/pad.cc:337–344`; a negative id is `none`. -/
def setPattern (id : Option ArpPatternId) (A : Arpeggiator) : Arpeggiator :=
  { A with currentPattern := id.map builtIn }

/-- `enable_key`, `src_jni/engine_code/pad.cc:181–201`. -/
def enableKey (key velocity : Int) (A : Arpeggiator) : Int × Arpeggiator :=
  if A.finger.any fun f ↦ f.key = key then
    (key, { A with finger := ArpFinger.countUp key velocity A.finger })
  else if A.finger.length < maxArpFingers then
    (key, { A with finger := ArpFinger.sortKeys (A.finger ++ [⟨key, velocity, 1⟩]) })
  else (-1, A)

/-- `disable_key`, `src_jni/engine_code/pad.cc:203–229`. -/
def disableKey (key : Int) (A : Arpeggiator) : Arpeggiator :=
  let finger := ArpFinger.sortKeys (ArpFinger.countDown key A.finger)
  { A with finger := finger, currentFinger := if finger.length = 0 then 0 else A.currentFinger }

/-- The pattern, unless `process_pattern` returns at once, `src_jni/engine_code/pad.cc:232–236`. -/
def activePattern (A : Arpeggiator) : Option (List ArpNote) :=
  if A.arpDirection = .arpOff then none else A.currentPattern.filter fun pattern ↦ pattern ≠ []

/-- `src_jni/engine_code/pad.cc:238–241`. -/
def silence (mute : Bool) (A : Arpeggiator) : List PadCall × Arpeggiator :=
  if mute || A.finger.length = 0 && A.note ≠ -1 then
    ([.queueNoteOff A.note A.velocity], { A with note := -1 })
  else ([], A)

/-- `src_jni/engine_code/pad.cc:243–246`. -/
def wrap (pattern : List ArpNote) (A : Arpeggiator) : Arpeggiator :=
  if pattern.length ≤ A.patternIndex then { A with patternIndex := 0, phase := .goToOn } else A

/-- The finger whose turn it is, where one is down, `src_jni/engine_code/pad.cc:254–283`. -/
def nextFinger (A : Arpeggiator) : Arpeggiator :=
  let count := A.finger.length
  let c := A.currentFinger
  match A.arpDirection with
  | .arpOff => A
  | .arpForward => { A with currentFinger := (c + 1) % count }
  | .arpReverse => { A with currentFinger := if c = 0 then count - 1 else c - 1 }
  | .arpPingpong =>
    if A.pingpongDirectionForward then
      if count ≤ c + 1 then
        { A with pingpongDirectionForward := false, currentFinger := (c - 1) % count }
      else { A with currentFinger := (c + 1) % count }
    else if c = 0 then
      { A with pingpongDirectionForward := true, currentFinger := (c + 1) % count }
    else { A with currentFinger := (c - 1) % count }

/-- The key that is played next, `src_jni/engine_code/pad.cc:285–291`; none is where no key is
down. -/
def chooseNote (n : ArpNote) (A : Arpeggiator) : Option Arpeggiator :=
  let A := A.nextFinger
  (A.finger[A.currentFinger % A.finger.length]?).map fun f ↦
    { A with note := (f.key + n.octaveOffset * 12) % 128, velocity := f.velocity }

/-- The switch over the phases, `src_jni/engine_code/pad.cc:248–334`. -/
def playPhase (mute : Bool) (n : ArpNote) (A : Arpeggiator) : List PadCall × Arpeggiator :=
  match A.phase with
  | .goToOn =>
    let (started, B) : List PadCall × Arpeggiator :=
      match A.chooseNote n with
      | some B => (if mute then [] else [.queueNoteOn B.note B.velocity], B)
      | none => ([], { A with note := -1 })
    let ended := if A.note ≠ -1 then [.queueNoteOff A.note B.velocity] else []
    (started ++ ended, { B with phase := .on, ticksLeft := n.onLength - 1 })
  | .on =>
    let left := A.ticksLeft - 1
    ([], { A with ticksLeft := left, phase := if left ≤ 0 then .goToOff else .on })
  | .goToOff =>
    let left := n.offLength - 1
    if A.note ≠ -1 && !n.slide then
      ([.queueNoteOff A.note A.velocity], { A with note := -1, phase := .off, ticksLeft := left })
    else ([], { A with phase := .off, ticksLeft := left })
  | .off =>
    let left := A.ticksLeft - 1
    if left ≤ 0 then
      ([], { A with ticksLeft := left, phase := .goToOn, patternIndex := A.patternIndex + 1 })
    else ([], { A with ticksLeft := left })

/-- `process_pattern`, `src_jni/engine_code/pad.cc:231–335`; behind the end of a pattern are notes
that are all zero. -/
def processPattern (mute : Bool) (A : Arpeggiator) : List PadCall × Arpeggiator :=
  match A.activePattern with
  | none => ([], A)
  | some pattern =>
    let (silenced, A) := A.silence mute
    let A := A.wrap pattern
    let (played, A) := A.playPhase mute (pattern.getD A.patternIndex ⟨0, 0, 0, false⟩)
    (silenced ++ played, A)

end Arpeggiator

end Vuknob
