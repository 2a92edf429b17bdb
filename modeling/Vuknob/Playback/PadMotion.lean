import Vuknob.Playback.Arpeggiator

/-!
# Motions on the pad

`Pad::PadMotion`, `src_jni/engine_code/pad.hh:168–224` and
`src_jni/engine_code/pad.cc:453–864`: what one finger does from its press to its release, and how
it is played. Coordinates have 14 bits, see `enqueue_event`. `scale_offset` is always zero.
-/

namespace Vuknob

/-- `Pad::PadConfiguration::ChordMode`, `src_jni/engine_code/pad.hh:57–61`. -/
inductive ChordMode
  | chordOff
  | chordTriad
  | chordQuad
  deriving DecidableEq

/-- `Pad::PadConfiguration`, `src_jni/engine_code/pad.hh:41–84`, less the notes of the scale.
`arpeggioPattern` is `none` where the number is negative. -/
structure PadConfiguration where
  arpDirection : ArpeggioDirection
  chordMode : ChordMode
  scale : Nat
  octave : Int
  arpeggioPattern : Option ArpPatternId
  padControllerCoarse : Int × Int
  padControllerFine : Int × Int
  deriving DecidableEq

/-- The scales object, if there is one: the seven keys of every scale, `src_jni/scales.cc:396–405`. -/
abbrev Scales := Option (Nat → Nat → Int)

/-- `def_scale_data`, `src_jni/engine_code/pad.cc:702–706`. -/
def defScaleData : List Int :=
  [0, 2, 4, 5, 7, 9, 11, 12, 14, 16, 17, 19, 21, 23, 24, 26, 28, 29, 31, 33, 35]

/-- The 21 notes of a scale, `src_jni/engine_code/pad.cc:693–709`. -/
def Scales.data (scales : Scales) (scale k : Nat) : Int :=
  match scales with
  | some keys => keys scale (k % 7) + 12 * (k / 7 : Nat)
  | none => defScaleData.getD k 0

/-- One entry of each of the vectors `x`, `y`, `z` and `t`. -/
structure PadPosition where
  x : BitVec 14
  y : BitVec 14
  z : BitVec 14
  t : Int
  deriving DecidableEq

/-- Which of the eight columns, `src_jni/engine_code/pad.cc:715`. -/
def PadPosition.padColumn (p : PadPosition) : Nat := p.x.toNat >>> 7 >>> 4

/-- `MAX_PAD_CHORD`, `src_jni/engine_code/pad.hh:33`. -/
def maxPadChord : Nat := 6

/-- A chord of no notes, `src_jni/engine_code/pad.cc:722–724`. -/
def noChord : List Int := List.replicate maxPadChord (-1)

/-- `Pad::PadMotion`, `src_jni/engine_code/pad.hh:168–224`, less the pointers of its list. `index`
is -1 unless it is played; `scaleData` are the notes of `lastScale`. -/
structure PadMotion extends PadConfiguration where
  lastScale : Option Nat
  scaleData : Nat → Int
  index : Int
  crntTick : Int
  lastChord : List Int
  lastX : Int
  positions : List PadPosition
  arperator : Arpeggiator
  startTick : Int
  terminated : Bool
  toBeDeleted : Bool

/-- `quantize_tick`, `src_jni/machine.cc:58–77`; the mask for lines has 28 bits. -/
def quantizeTick (startTick : Int) : Int :=
  let offset := startTick % machineTicksPerLine
  let newTick := startTick % 2 ^ 28 - offset
  if offset > machineTicksPerLine / 2 then newTick + machineTicksPerLine else newTick

namespace PadMotion

/-- `add_position`, `src_jni/engine_code/pad.cc:592–599`. -/
def addPosition (x y z : BitVec 14) (m : PadMotion) : PadMotion :=
  if m.terminated then m
  else { m with positions := m.positions ++ [⟨x, y, z, m.crntTick + 1⟩] }

/-- The constructor for a press, `src_jni/engine_code/pad.cc:466–476`. -/
def new (config : PadConfiguration) (sessionPosition : Int) (x y z : BitVec 14) : PadMotion :=
  addPosition x y z
    { config with
      lastScale := none
      scaleData := fun _ ↦ 0
      index := -1
      crntTick := -1
      lastChord := noChord
      lastX := -1
      positions := []
      arperator := .new
      startTick := sessionPosition
      terminated := false
      toBeDeleted := false }

/-- `quantize`, `src_jni/engine_code/pad.cc:576–590`. -/
def quantize (m : PadMotion) : PadMotion := { m with startTick := quantizeTick m.startTick }

/-- The positions when a motion is terminated, `src_jni/engine_code/pad.cc:604–608`: if the last
one of several is at the tick of the first one, it moves to the next tick. -/
def stopLater (positions : List PadPosition) : List PadPosition :=
  let last := positions.length - 1
  if 0 < last && positions[0]?.map PadPosition.t = positions[last]?.map PadPosition.t then
    positions.modify last fun p ↦ { p with t := p.t + 1 }
  else positions

/-- `terminate`, `src_jni/engine_code/pad.cc:601–609`. -/
def terminate (m : PadMotion) : PadMotion :=
  { m with terminated := true, positions := stopLater m.positions }

/-- `start_motion`, `src_jni/engine_code/pad.cc:628–643`; `none` where it returns false. -/
def startMotion (sessionPosition : Int) (m : PadMotion) : Option PadMotion :=
  if m.index = -1 && sessionPosition = m.startTick then
    some { m with
      index := 0
      crntTick := -1
      lastX := -1
      arperator := (m.arperator.reset.setDirection m.arpDirection).setPattern m.arpeggioPattern }
  else none

/-- `reset`, `src_jni/engine_code/pad.cc:645–649`. -/
def reset (m : PadMotion) : PadMotion := { m with index := -1, crntTick := -1, lastX := -1 }

/-- `build_chord`, `src_jni/engine_code/pad.cc:651–677`. -/
def buildChord (m : PadMotion) (padColumn : Nat) : List Int :=
  let note k := m.octave * 12 + m.scaleData (padColumn + k)
  match m.chordMode with
  | .chordTriad => [note 0, note 2, note 4, -1, -1, -1]
  | .chordQuad => [note 0, note 2, note 4, note 0 + 12, -1, -1]
  | .chordOff => noChord

/-- Read the scale, unless it has been read, `src_jni/engine_code/pad.cc:690–710`. -/
def readScale (scales : Scales) (m : PadMotion) : PadMotion :=
  if m.lastScale = some m.scale then m
  else { m with lastScale := some m.scale, scaleData := scales.data m.scale }

/-- The position at hand may start notes: it is not the last one of a terminated motion. -/
def mayStart (m : PadMotion) : Bool := !m.terminated || m.index < m.positions.length - 1

/-- The last position of a terminated motion is at hand. -/
def atEnd (m : PadMotion) : Bool := m.terminated && m.index = m.positions.length - 1

/-- The note of a column, `src_jni/engine_code/pad.cc:716`. -/
def columnNote (m : PadMotion) (padColumn : Nat) : Int := m.octave * 12 + m.scaleData padColumn

/-- `src_jni/engine_code/pad.cc:717–725`. -/
def chordAt (m : PadMotion) (padColumn : Nat) : List Int :=
  if !m.toBeDeleted && m.chordMode ≠ .chordOff && m.mayStart then m.buildChord padColumn
  else noChord

/-- The controllers for one axis, `src_jni/engine_code/pad.cc:733–755`. -/
def axisCalls (coarse fine : Int) (value : BitVec 14) : List PadCall :=
  let coarseValue := value.toNat / 128
  let fineValue := value.toNat % 128
  if 0 ≤ coarse && coarse ≤ 127 then
    .queueController coarse coarseValue ::
      if fine ≠ -1 then [.queueController fine fineValue] else []
  else if coarse = 1024 then [.queuePitchBend fineValue coarseValue]
  else []

/-- `src_jni/engine_code/pad.cc:727–755`. -/
def controllerCalls (m : PadMotion) (p : PadPosition) : List PadCall :=
  axisCalls m.padControllerCoarse.1 m.padControllerFine.1 p.y ++
    axisCalls m.padControllerCoarse.2 m.padControllerFine.2 p.z

/-- `src_jni/engine_code/pad.cc:731`. -/
def velocityAt (m : PadMotion) (p : PadPosition) : Int :=
  if m.padControllerCoarse.1 = -1 then p.y.toNat / 128 else 0x7f

/-- From one chord to the next, `src_jni/engine_code/pad.cc:759–768`. -/
def chordCalls (mute : Bool) (velocity : Int) (lastChord chord : List Int) : List PadCall :=
  (lastChord.zip chord).flatMap fun (last, note) ↦
    if last ≠ note then
      (if last ≠ -1 then [.queueNoteOff last 0x7f] else []) ++
        if note ≠ -1 && !mute then [.queueNoteOn note velocity] else []
    else []

/-- From one note to the next, `src_jni/engine_code/pad.cc:770–780`. -/
def noteCalls (mute : Bool) (velocity note : Int) (m : PadMotion) : List PadCall :=
  if !m.toBeDeleted && m.lastX ≠ note then
    (if !mute && m.mayStart then [.queueNoteOn note velocity] else []) ++
      if m.lastX ≠ -1 then [.queueNoteOff m.lastX 0x7f] else []
  else if m.toBeDeleted || m.atEnd then [.queueNoteOff m.lastX 0x7f]
  else []

/-- The keys of an arpeggio for one chord and the next, `src_jni/engine_code/pad.cc:784–791`; with
the chord as it could be enabled. -/
def arpChord (velocity : Int) : List (Int × Int) → Arpeggiator → List Int × Arpeggiator
  | [], A => ([], A)
  | (last, note) :: rest, A =>
    let A := if last ≠ -1 then A.disableKey last else A
    let (note, A) := if note ≠ -1 then A.enableKey note velocity else (note, A)
    let (chord, A) := arpChord velocity rest A
    (note :: chord, A)

/-- The key of an arpeggio for one note and the next, `src_jni/engine_code/pad.cc:793–802`. -/
def arpNote (velocity note : Int) (m : PadMotion) : Int × Arpeggiator :=
  if !m.toBeDeleted then
    let A := if m.lastX ≠ -1 then m.arperator.disableKey m.lastX else m.arperator
    if m.mayStart then A.enableKey note velocity else (note, A)
  else (note, m.arperator.disableKey m.lastX)

/-- One round of the loop of `process_motion`, `src_jni/engine_code/pad.cc:715–810`. -/
def playPosition (mute : Bool) (p : PadPosition) (m : PadMotion) : List PadCall × PadMotion :=
  let note := m.columnNote p.padColumn
  let chord := m.chordAt p.padColumn
  let velocity := m.velocityAt p
  let controllers := m.controllerCalls p
  match m.arpDirection, m.chordMode with
  | .arpOff, .chordOff =>
    (controllers ++ m.noteCalls mute velocity note,
      { m with lastChord := chord, lastX := note, index := m.index + 1 })
  | .arpOff, _ =>
    (controllers ++ chordCalls mute velocity m.lastChord chord,
      { m with lastChord := chord, lastX := note, index := m.index + 1 })
  | _, .chordOff =>
    let (note, A) := m.arpNote velocity note
    (controllers, { m with lastChord := chord, lastX := note, arperator := A, index := m.index + 1 })
  | _, _ =>
    let (chord, A) := arpChord velocity (m.lastChord.zip chord) m.arperator
    (controllers, { m with lastChord := chord, lastX := note, arperator := A, index := m.index + 1 })

/-- The loop of `process_motion` over the positions from `index` on. -/
def playPositions (mute : Bool) : List PadPosition → PadMotion → List PadCall × PadMotion
  | [], m => ([], m)
  | p :: rest, m =>
    if p.t ≤ m.crntTick then
      let (calls, m) := m.playPosition mute p
      let (more, m) := playPositions mute rest m
      (calls ++ more, m)
    else ([], m)

/-- `arperator.process_pattern` in `process_motion`. -/
def playArpeggio (mute : Bool) (m : PadMotion) : List PadCall × PadMotion :=
  let (calls, A) := m.arperator.processPattern mute
  (calls, { m with arperator := A })

/-- The end of the line has been reached, `src_jni/engine_code/pad.cc:681`. -/
def finished (m : PadMotion) : Bool := m.terminated && m.positions.length ≤ m.index

/-- `process_motion`, `src_jni/engine_code/pad.cc:679–816`, with its result. It is called on
motions that are played, so `index` is not negative. -/
def processMotion (mute : Bool) (scales : Scales) (m : PadMotion) :
    List PadCall × Bool × PadMotion :=
  if m.finished then
    let (calls, m) := playArpeggio mute { m with index := -1 }
    (calls, true, m)
  else
    let m := readScale scales { m with crntTick := m.crntTick + 1 }
    let (calls, m) := m.playPositions mute (m.positions.drop m.index.toNat)
    let (more, m) := m.playArpeggio mute
    (calls ++ more, false, m)

/-! ### What playing leaves alone -/

/-- Some rounds of the loop have led from `m` to `m'`: they write to the notes, the arpeggiator and
the index only. -/
def Rounds (rounds : Nat) (m m' : PadMotion) : Prop :=
  m' = { m with
    lastChord := m'.lastChord, lastX := m'.lastX, arperator := m'.arperator
    index := m.index + rounds }

namespace Rounds

variable {n : Nat} {m m' : PadMotion} (h : Rounds n m m')
include h

theorem toPadConfiguration : m'.toPadConfiguration = m.toPadConfiguration := by
  unfold Rounds at h
  rw [h]

theorem positions : m'.positions = m.positions := by
  unfold Rounds at h
  rw [h]

theorem terminated : m'.terminated = m.terminated := by
  unfold Rounds at h
  rw [h]

theorem toBeDeleted : m'.toBeDeleted = m.toBeDeleted := by
  unfold Rounds at h
  rw [h]

theorem crntTick : m'.crntTick = m.crntTick := by
  unfold Rounds at h
  rw [h]

theorem startTick : m'.startTick = m.startTick := by
  unfold Rounds at h
  rw [h]

theorem index : m'.index = m.index + n := by
  unfold Rounds at h
  rw [h]

end Rounds

theorem rounds_playPosition (mute : Bool) (p : PadPosition) (m : PadMotion) :
    Rounds 1 m (m.playPosition mute p).2 := by
  unfold Rounds playPosition
  dsimp only
  split <;> rfl

theorem Rounds.trans {i j : Nat} {m m' m'' : PadMotion} (h : Rounds i m m')
    (h' : Rounds j m' m'') : Rounds (i + j) m m'' := by
  unfold Rounds at *
  rw [h', h]
  simp [Int.add_assoc]

/-- The loop goes through the positions that are due. -/
theorem rounds_playPositions (mute : Bool) (positions : List PadPosition) (m : PadMotion) :
    Rounds (positions.takeWhile fun p ↦ p.t ≤ m.crntTick).length m
      (m.playPositions mute positions).2 := by
  induction positions generalizing m with
  | nil => simp [playPositions, Rounds]
  | cons p rest ih =>
    rw [playPositions]
    split
    · next hdue =>
      have hround := rounds_playPosition mute p m
      have hrest := ih (m.playPosition mute p).2
      rw [hround.crntTick] at hrest
      rw [List.takeWhile_cons_of_pos (by simpa using hdue), List.length_cons, Nat.add_comm]
      exact hround.trans hrest
    · next hdue =>
      rw [List.takeWhile_cons_of_neg (by simpa using hdue)]
      simp [Rounds]

/-- The motion as `process_motion` plays it: it is a tick later and has its scale. -/
def atTick (scales : Scales) (m : PadMotion) : PadMotion :=
  readScale scales { m with crntTick := m.crntTick + 1 }

/-- The positions that are due at the next tick. -/
def due (m : PadMotion) : List PadPosition :=
  (m.positions.drop m.index.toNat).takeWhile fun p ↦ p.t ≤ m.crntTick + 1

@[simp]
theorem positions_atTick (scales : Scales) (m : PadMotion) :
    (m.atTick scales).positions = m.positions := by
  rw [atTick, readScale]
  split <;> rfl

@[simp]
theorem index_atTick (scales : Scales) (m : PadMotion) : (m.atTick scales).index = m.index := by
  rw [atTick, readScale]
  split <;> rfl

@[simp]
theorem crntTick_atTick (scales : Scales) (m : PadMotion) :
    (m.atTick scales).crntTick = m.crntTick + 1 := by
  rw [atTick, readScale]
  split <;> rfl

@[simp]
theorem startTick_atTick (scales : Scales) (m : PadMotion) :
    (m.atTick scales).startTick = m.startTick := by
  rw [atTick, readScale]
  split <;> rfl

@[simp]
theorem terminated_atTick (scales : Scales) (m : PadMotion) :
    (m.atTick scales).terminated = m.terminated := by
  rw [atTick, readScale]
  split <;> rfl

/-- A motion that has reached its end is done. -/
theorem processMotion_of_finished {m : PadMotion} (h : m.finished = true) (mute : Bool)
    (scales : Scales) : m.processMotion mute scales =
      ((m.arperator.processPattern mute).1, true,
        { m with index := -1, arperator := (m.arperator.processPattern mute).2 }) := by
  rw [processMotion, if_pos h]
  rfl

/-- Every other motion goes on. -/
theorem processMotion_of_not_finished {m : PadMotion} (h : m.finished = false) (mute : Bool)
    (scales : Scales) : ∃ m₁ : PadMotion,
      (m.atTick scales).playPositions mute (m.positions.drop m.index.toNat) =
        (((m.atTick scales).playPositions mute (m.positions.drop m.index.toNat)).1, m₁) ∧
      Rounds m.due.length (m.atTick scales) m₁ ∧
      m.processMotion mute scales =
        (((m.atTick scales).playPositions mute (m.positions.drop m.index.toNat)).1 ++
          (m₁.playArpeggio mute).1, false, (m₁.playArpeggio mute).2) := by
  refine ⟨_, rfl, ?_, ?_⟩
  · have := rounds_playPositions mute (m.positions.drop m.index.toNat) (m.atTick scales)
    rwa [crntTick_atTick] at this
  · rw [processMotion, if_neg (by simp [h]), ← atTick]
    simp only [positions_atTick, index_atTick]

/-- What it means that a motion starts. -/
theorem startMotion_eq_some_iff {position : Int} {m m' : PadMotion} :
    m.startMotion position = some m' ↔ (m.index = -1 ∧ position = m.startTick) ∧
      m' = { m with
        index := 0
        crntTick := -1
        lastX := -1
        arperator :=
          (m.arperator.reset.setDirection m.arpDirection).setPattern m.arpeggioPattern } := by
  rw [startMotion]
  split
  · next h =>
    rw [Bool.and_eq_true, decide_eq_true_eq, decide_eq_true_eq] at h
    exact ⟨fun heq ↦ ⟨h, (Option.some.inj heq).symm⟩, fun heq ↦ congrArg some heq.2.symm⟩
  · next h =>
    rw [Bool.and_eq_true, decide_eq_true_eq, decide_eq_true_eq] at h
    exact ⟨nofun, fun heq ↦ absurd heq.1 h⟩

@[simp]
theorem terminated_addPosition (m : PadMotion) (x y z : BitVec 14) :
    (m.addPosition x y z).terminated = m.terminated := by
  rw [addPosition]
  split <;> rfl

/-- A new motion starts at the position it is made for. -/
theorem startMotion_new (config : PadConfiguration) (position : Int) (x y z : BitVec 14) :
    ∃ m, (new config position x y z).startMotion position = some m ∧
      m.positions = [⟨x, y, z, 0⟩] ∧ m.terminated = false := by
  simp [new, addPosition, startMotion]

theorem positions_processMotion (mute : Bool) (scales : Scales) (m : PadMotion) :
    (m.processMotion mute scales).2.2.positions = m.positions := by
  cases hfinished : m.finished with
  | true => rw [processMotion_of_finished hfinished]
  | false =>
    obtain ⟨m₁, -, hrounds, heq⟩ := processMotion_of_not_finished hfinished mute scales
    rw [heq]
    exact hrounds.positions.trans (positions_atTick scales m)

theorem terminated_processMotion (mute : Bool) (scales : Scales) (m : PadMotion) :
    (m.processMotion mute scales).2.2.terminated = m.terminated := by
  cases hfinished : m.finished with
  | true => rw [processMotion_of_finished hfinished]
  | false =>
    obtain ⟨m₁, -, hrounds, heq⟩ := processMotion_of_not_finished hfinished mute scales
    rw [heq]
    exact hrounds.terminated.trans (terminated_atTick scales m)

theorem startTick_processMotion (mute : Bool) (scales : Scales) (m : PadMotion) :
    (m.processMotion mute scales).2.2.startTick = m.startTick := by
  cases hfinished : m.finished with
  | true => rw [processMotion_of_finished hfinished]
  | false =>
    obtain ⟨m₁, -, hrounds, heq⟩ := processMotion_of_not_finished hfinished mute scales
    rw [heq]
    exact hrounds.startTick.trans (startTick_atTick scales m)

theorem index_processMotion {m : PadMotion} (h : m.finished = false) (mute : Bool)
    (scales : Scales) :
    (m.processMotion mute scales).2.2.index = m.index + m.due.length := by
  obtain ⟨m₁, -, hrounds, heq⟩ := processMotion_of_not_finished h mute scales
  rw [heq]
  exact hrounds.index.trans (by rw [index_atTick])

/-- The index stays within the positions. -/
theorem within_processMotion {m : PadMotion} (h : m.finished = false)
    (hwithin : 0 ≤ m.index ∧ m.index ≤ m.positions.length) (mute : Bool) (scales : Scales) :
    0 ≤ (m.processMotion mute scales).2.2.index ∧
      (m.processMotion mute scales).2.2.index ≤
        (m.processMotion mute scales).2.2.positions.length := by
  have hdue : m.due.length ≤ m.positions.length - m.index.toNat := by
    rw [← List.length_drop]
    exact (List.takeWhile_sublist _).length_le
  rw [index_processMotion h, positions_processMotion]
  omega

/-- When all positions are due, the end is reached. -/
theorem finished_processMotion {m : PadMotion} (h : m.finished = false)
    (hterminated : m.terminated = true) (hindex : 0 ≤ m.index)
    (hdue : ∀ p ∈ m.positions, p.t ≤ m.crntTick + 1) (mute : Bool) (scales : Scales) :
    (m.processMotion mute scales).2.2.finished = true := by
  have hall : m.due = m.positions.drop m.index.toNat := by
    refine List.takeWhile_eq_self_iff.mpr fun p hp ↦ ?_
    exact decide_eq_true (hdue p (List.mem_of_mem_drop hp))
  rw [finished, terminated_processMotion, hterminated, positions_processMotion,
    index_processMotion h, hall, List.length_drop, Bool.true_and, decide_eq_true_eq]
  omega

theorem crntTick_processMotion {m : PadMotion} (h : m.finished = false) (mute : Bool)
    (scales : Scales) : (m.processMotion mute scales).2.2.crntTick = m.crntTick + 1 := by
  obtain ⟨m₁, -, hrounds, heq⟩ := processMotion_of_not_finished h mute scales
  rw [heq]
  exact hrounds.crntTick.trans (crntTick_atTick scales m)

@[simp]
theorem length_stopLater (positions : List PadPosition) :
    (stopLater positions).length = positions.length := by
  rw [stopLater]
  split
  · exact List.length_modify ..
  · rfl

/-- A motion that is terminated again does not stop still later. -/
theorem stopLater_stopLater (positions : List PadPosition) :
    stopLater (stopLater positions) = stopLater positions := by
  by_cases h : 0 < positions.length - 1 ∧
      positions[0]?.map PadPosition.t = positions[positions.length - 1]?.map PadPosition.t
  · have hlast : positions.length - 1 < positions.length := by omega
    have hfirst : 0 < positions.length := by omega
    have heq : stopLater positions =
        positions.modify (positions.length - 1) fun p ↦ { p with t := p.t + 1 } := by
      rw [stopLater, if_pos (by simpa using h)]
    have ht : positions[0].t = positions[positions.length - 1].t := by
      simpa [hfirst, hlast] using h.2
    rw [heq, stopLater, if_neg]
    simp only [List.length_modify, List.getElem?_modify, Bool.and_eq_true, decide_eq_true_eq,
      not_and]
    intro hpos hsame
    have hlater : positions[positions.length - 1].t ≠ positions[positions.length - 1].t + 1 :=
      (Int.lt_succ _).ne
    simp [hfirst, hlast, hpos.ne', ht, hlater] at hsame
  · have heq : stopLater positions = positions := by
      rw [stopLater, if_neg (by simpa using h)]
    rw [heq, heq]

theorem snd_processMotion (mute : Bool) (scales : Scales) (m : PadMotion) :
    (m.processMotion mute scales).2.1 = m.finished := by
  cases hfinished : m.finished with
  | true => rw [processMotion_of_finished hfinished]
  | false =>
    obtain ⟨m₁, -, -, heq⟩ := processMotion_of_not_finished hfinished mute scales
    rw [heq]

end PadMotion

end Vuknob
