import Mathlib.Data.List.Induction
import Vuknob.Playback.MotionNotes

/-!
# Motions that are played again

`start_motion`, `src_jni/engine_code/pad.cc:628–643`, prepares a motion to be played, also after
it has been played to its end or has been stopped by `reset`,
`src_jni/engine_code/pad.cc:645–649`. Neither of them writes `last_chord`, and of the arpeggiator
the velocity and the direction of ping-pong stay as they are.
-/

namespace Vuknob

namespace Arpeggiator

/-- The same but for the direction of ping-pong, which makes no difference at the first key. -/
structure Alike (A B : Arpeggiator) : Prop where
  frame : B = { A with pingpongDirectionForward := B.pingpongDirectionForward }
  turned : B.pingpongDirectionForward = A.pingpongDirectionForward ∨
    (A.arpDirection = .arpPingpong → A.currentFinger = 0)

namespace Alike

variable {A B : Arpeggiator}

theorem refl (A : Arpeggiator) : Alike A A := ⟨rfl, .inl rfl⟩

theorem disableKey (h : Alike A B) (key : Int) : Alike (A.disableKey key) (B.disableKey key) := by
  obtain ⟨hframe, hturned⟩ := h
  rw [hframe]
  refine ⟨rfl, hturned.imp_right fun hfirst hpingpong ↦ ?_⟩
  show (if _ then 0 else A.currentFinger) = 0
  rw [hfirst hpingpong, ite_self]

theorem enableKey (h : Alike A B) (key velocity : Int) :
    (B.enableKey key velocity).1 = (A.enableKey key velocity).1 ∧
      Alike (A.enableKey key velocity).2 (B.enableKey key velocity).2 := by
  obtain ⟨hframe, hturned⟩ := h
  rw [hframe]
  unfold Arpeggiator.enableKey
  dsimp only
  split
  · exact ⟨rfl, rfl, hturned⟩
  · split <;> exact ⟨rfl, rfl, hturned⟩

/-- The next finger is the same, and the directions agree as soon as there are two keys. -/
theorem nextFinger (h : Alike A B) (hdown : A.finger ≠ []) : Alike A.nextFinger B.nextFinger := by
  obtain ⟨hframe, hturned⟩ := h
  generalize B.pingpongDirectionForward = forward at hframe hturned
  subst hframe
  rcases hturned with rfl | hfirst
  · exact refl A.nextFinger
  obtain ⟨phase, left, note, velocity, c, index, forward', direction, pattern, finger⟩ := A
  cases direction with
  | arpOff | arpForward | arpReverse => exact ⟨rfl, .inr nofun⟩
  | arpPingpong =>
    obtain rfl : c = 0 := hfirst rfl
    -- from the first key both go to the second one, or stay if there is none
    by_cases hone : finger.length = 1
    · cases forward <;> cases forward' <;> simp [Arpeggiator.nextFinger, hone, refl]
      all_goals exact ⟨rfl, .inr fun _ ↦ rfl⟩
    · have htwo : ¬ finger.length ≤ 0 + 1 := by
        have := List.length_pos_iff.mpr hdown
        dsimp only at this
        omega
      cases forward <;> cases forward' <;> simp [Arpeggiator.nextFinger, htwo, refl]

/-- The key that is played next is the same. -/
theorem chooseNote (h : Alike A B) (n : ArpNote) :
    A.chooseNote n = none ∧ B.chooseNote n = none ∨
      ∃ A' B', A.chooseNote n = some A' ∧ B.chooseNote n = some B' ∧ Alike A' B' := by
  have hfinger : B.finger = A.finger := by rw [h.frame]
  by_cases hdown : A.finger = []
  · have hA := (setting_nextFinger A).2.2
    have hB := (setting_nextFinger B).2.2
    left
    simp [Arpeggiator.chooseNote, hA, hB, hfinger, hdown]
  · obtain ⟨hframe, hturned⟩ := h.nextFinger hdown
    rw [Arpeggiator.chooseNote, Arpeggiator.chooseNote, hframe]
    dsimp only
    cases A.nextFinger.finger[A.nextFinger.currentFinger % A.nextFinger.finger.length]? with
    | none => exact .inl ⟨rfl, rfl⟩
    | some f => exact .inr ⟨_, _, rfl, rfl, rfl, hturned⟩

theorem silence (h : Alike A B) (mute : Bool) :
    (B.silence mute).1 = (A.silence mute).1 ∧ Alike (A.silence mute).2 (B.silence mute).2 := by
  obtain ⟨hframe, hturned⟩ := h
  rw [hframe]
  unfold Arpeggiator.silence
  dsimp only
  split <;> exact ⟨rfl, rfl, hturned⟩

theorem wrap (h : Alike A B) (pattern : List ArpNote) : Alike (A.wrap pattern) (B.wrap pattern) := by
  obtain ⟨hframe, hturned⟩ := h
  rw [hframe]
  unfold Arpeggiator.wrap
  dsimp only
  split <;> exact ⟨rfl, hturned⟩

theorem playPhase (h : Alike A B) (mute : Bool) (n : ArpNote) :
    (B.playPhase mute n).1 = (A.playPhase mute n).1 ∧
      Alike (A.playPhase mute n).2 (B.playPhase mute n).2 := by
  have hchoose := h.chooseNote n
  obtain ⟨hframe, hturned⟩ := h
  have hphase : B.phase = A.phase := by rw [hframe]
  have hnote : B.note = A.note := by rw [hframe]
  cases hA : A.phase with
  | goToOn =>
    rw [Arpeggiator.playPhase, Arpeggiator.playPhase, hphase, hA]
    dsimp only
    rw [hnote]
    rcases hchoose with ⟨hA', hB'⟩ | ⟨A', B', hA', hB', hframe', hturned'⟩
    · rw [hA', hB', hframe]
      exact ⟨rfl, rfl, hturned⟩
    · rw [hA', hB', hframe']
      exact ⟨rfl, rfl, hturned'⟩
  | on =>
    rw [hframe, Arpeggiator.playPhase, Arpeggiator.playPhase, hA]
    exact ⟨rfl, rfl, hturned⟩
  | goToOff =>
    rw [hframe, Arpeggiator.playPhase, Arpeggiator.playPhase, hA]
    dsimp only
    split <;> exact ⟨rfl, rfl, hturned⟩
  | off =>
    rw [hframe, Arpeggiator.playPhase, Arpeggiator.playPhase, hA]
    dsimp only
    split <;> exact ⟨rfl, rfl, hturned⟩

/-- The arpeggiators do not sound different. -/
theorem processPattern (h : Alike A B) (mute : Bool) :
    (B.processPattern mute).1 = (A.processPattern mute).1 ∧
      Alike (A.processPattern mute).2 (B.processPattern mute).2 := by
  have hactive : B.activePattern = A.activePattern := by rw [h.frame]; rfl
  rw [Arpeggiator.processPattern, Arpeggiator.processPattern, hactive]
  cases A.activePattern with
  | none => exact ⟨rfl, h⟩
  | some pattern =>
    obtain ⟨hcalls, hsilence⟩ := h.silence mute
    have hwrap := hsilence.wrap pattern
    have hindex : ((B.silence mute).2.wrap pattern).patternIndex =
        ((A.silence mute).2.wrap pattern).patternIndex := by rw [hwrap.frame]
    obtain ⟨hplayed, hphase⟩ := hwrap.playPhase mute
      (pattern.getD ((A.silence mute).2.wrap pattern).patternIndex ⟨0, 0, 0, false⟩)
    dsimp only
    rw [hcalls, hindex, hplayed]
    exact ⟨rfl, hphase⟩

end Alike

/-- From `A` to `B` only keys have been enabled and disabled. -/
def KeysMoved (A B : Arpeggiator) : Prop :=
  B = { A with finger := B.finger, currentFinger := B.currentFinger }

namespace KeysMoved

variable {A B C : Arpeggiator}

theorem trans (h : KeysMoved A B) (h' : KeysMoved B C) : KeysMoved A C := by
  unfold KeysMoved at *
  rw [h', h]

theorem disableKey (A : Arpeggiator) (key : Int) : KeysMoved A (A.disableKey key) := rfl

theorem enableKey (A : Arpeggiator) (key velocity : Int) :
    KeysMoved A (A.enableKey key velocity).2 := by
  unfold Arpeggiator.enableKey
  split
  · rfl
  · split <;> rfl

theorem activePattern (h : KeysMoved A B) : B.activePattern = A.activePattern := by
  unfold KeysMoved at h
  rw [h]
  rfl

theorem note (h : KeysMoved A B) : B.note = A.note := by
  unfold KeysMoved at h
  rw [h]

theorem velocity (h : KeysMoved A B) : B.velocity = A.velocity := by
  unfold KeysMoved at h
  rw [h]

end KeysMoved

end Arpeggiator

namespace PadMotion

variable (scales : Scales)

/-- `process_motion` at one tick after the other, until the motion has come to its end: the calls
at each tick. -/
def processAll : List Bool → PadMotion → List (List PadCall) × PadMotion
  | [], m => ([], m)
  | mute :: mutes, m =>
    let (calls, completed, m) := m.processMotion mute scales
    if completed then ([calls], m)
    else
      let (more, m) := processAll mutes m
      (calls :: more, m)

/-- The motion is played: `start_motion`, and `process_motion` at each tick. -/
def play (mutes : List Bool) (m : PadMotion) : List (List PadCall) × PadMotion :=
  match m.startMotion m.startTick with
  | some m => processAll scales mutes m
  | none => ([], m)

/-- The motion after it has been played, each time for some ticks: if it has not come to its end,
it is stopped by `reset`. -/
def afterPlays (plays : List (List Bool)) (m : PadMotion) : PadMotion :=
  plays.foldl
    (fun m mutes ↦
      let m := (m.play scales mutes).2
      if m.index = -1 then m else m.reset)
    m

/-- The positions that come in some ticks. -/
def comeIn (positions : List PadPosition) : Nat → List PadPosition
  | 0 => []
  | ticks + 1 => positions.takeWhile fun p ↦ p.t ≤ (ticks : Int)

/-- The chord of the last position that comes in some ticks. -/
def chordLeft (m : PadMotion) (ticks : Nat) : Option (List Int) :=
  let played := comeIn m.positions ticks
  played.getLast?.map fun p ↦
    chordAt { m with index := played.length - 1, scaleData := scales.data m.scale } p.padColumn

/-- The chord that is left after the motion has been played. -/
def chordHeld (plays : List (List Bool)) (m : PadMotion) : List Int :=
  plays.foldl (fun chord mutes ↦ (m.chordLeft scales mutes.length).getD chord) m.lastChord

/-- The motion has an arpeggio. -/
def arpeggiates (m : PadMotion) : Bool := m.arpDirection ≠ .arpOff && m.arpeggioPattern.isSome

/-- A terminated motion that is not played. -/
structure AtRest (m : PadMotion) : Prop where
  terminated : m.terminated = true
  index : m.index = -1
  lastChord : m.lastChord = noChord
  cached : m.lastScale = some m.scale → m.scaleData = scales.data m.scale

/-- No chord is left, if chords are heard, and the velocity of an arpeggio is the same. -/
def Undisturbed (plays : List (List Bool)) (m : PadMotion) : Prop :=
  (m.chordMode ≠ .chordOff → m.arpDirection = .arpOff ∨ m.arpeggiates →
      m.chordHeld scales plays = noChord) ∧
    (m.arpeggiates → (m.afterPlays scales plays).arperator.velocity = m.arperator.velocity)

/-- Motions that do not sound different. -/
structure Alike (m m' : PadMotion) : Prop where
  frame : m' = { m with
    lastX := m'.lastX, lastChord := m'.lastChord, arperator := m'.arperator }
  notes : m.arpDirection ≠ .arpOff ∧ m.arperator.activePattern = none ∨
    m'.lastX = m.lastX ∧ (m.chordMode ≠ .chordOff → m'.lastChord = m.lastChord)
  arpeggio : m.arperator.activePattern = none ∧ m'.arperator.activePattern = none ∨
    m.arperator.Alike m'.arperator

/-! ### Keys of the arpeggiator -/

theorem keysMoved_arpChord (velocity : Int) (pairs : List (Int × Int)) (A : Arpeggiator) :
    A.KeysMoved (arpChord velocity pairs A).2 := by
  induction pairs generalizing A with
  | nil => rfl
  | cons pair rest ih =>
    obtain ⟨last, note⟩ := pair
    rw [arpChord]
    refine .trans (B := if last ≠ -1 then A.disableKey last else A) ?_ (.trans ?_ (ih _))
    · split
      · exact .disableKey A last
      · rfl
    · generalize (if last ≠ -1 then A.disableKey last else A) = B
      split
      · exact .enableKey B note velocity
      · rfl

theorem keysMoved_arpNote (velocity note : Int) (m : PadMotion) :
    m.arperator.KeysMoved (m.arpNote velocity note).2 := by
  rw [arpNote]
  split
  · refine .trans (B := if m.lastX ≠ -1 then m.arperator.disableKey m.lastX else m.arperator)
      ?_ ?_
    · split
      · exact .disableKey m.arperator m.lastX
      · rfl
    · dsimp only
      generalize (if m.lastX ≠ -1 then m.arperator.disableKey m.lastX else m.arperator) = B
      split
      · exact .enableKey B note velocity
      · rfl
  · exact .disableKey m.arperator m.lastX

theorem alike_arpChord (velocity : Int) (pairs : List (Int × Int)) {A B : Arpeggiator}
    (h : A.Alike B) : (arpChord velocity pairs B).1 = (arpChord velocity pairs A).1 ∧
      (arpChord velocity pairs A).2.Alike (arpChord velocity pairs B).2 := by
  induction pairs generalizing A B with
  | nil => exact ⟨rfl, h⟩
  | cons pair rest ih =>
    obtain ⟨last, note⟩ := pair
    have hoff : (if last ≠ -1 then A.disableKey last else A).Alike
        (if last ≠ -1 then B.disableKey last else B) := by
      split
      · exact h.disableKey last
      · exact h
    rw [arpChord, arpChord]
    dsimp only
    split
    · obtain ⟨hkey, hon⟩ := hoff.enableKey note velocity
      rw [hkey, (ih hon).1]
      exact ⟨rfl, (ih hon).2⟩
    · rw [(ih hoff).1]
      exact ⟨rfl, (ih hoff).2⟩

theorem alike_arpNote (velocity note : Int) {m m' : PadMotion} (hlast : m'.lastX = m.lastX)
    (hdeleted : m'.toBeDeleted = m.toBeDeleted) (hstart : m'.mayStart = m.mayStart)
    (h : m.arperator.Alike m'.arperator) :
    (m'.arpNote velocity note).1 = (m.arpNote velocity note).1 ∧
      (m.arpNote velocity note).2.Alike (m'.arpNote velocity note).2 := by
  have hoff : (if m.lastX ≠ -1 then m.arperator.disableKey m.lastX else m.arperator).Alike
      (if m.lastX ≠ -1 then m'.arperator.disableKey m.lastX else m'.arperator) := by
    split
    · exact h.disableKey m.lastX
    · exact h
  rw [arpNote, arpNote, hdeleted, hlast, hstart]
  split
  · dsimp only
    split
    · exact hoff.enableKey note velocity
    · exact ⟨rfl, hoff⟩
  · exact ⟨rfl, h.disableKey m.lastX⟩

/-! ### Two motions side by side -/

namespace Alike

variable {scales} {m m' : PadMotion}

theorem playPosition (h : Alike m m') (mute : Bool) (p : PadPosition) :
    (m'.playPosition mute p).1 = (m.playPosition mute p).1 ∧
      Alike (m.playPosition mute p).2 (m'.playPosition mute p).2 := by
  obtain ⟨hframe, hnotes, harp⟩ := h
  have ha' : m'.arpDirection = m.arpDirection := by rw [hframe]
  have hc' : m'.chordMode = m.chordMode := by rw [hframe]
  have hcalls : m'.controllerCalls p = m.controllerCalls p := by rw [hframe]; rfl
  have hvelocity : m'.velocityAt p = m.velocityAt p := by rw [hframe]; rfl
  have hnote : m'.columnNote p.padColumn = m.columnNote p.padColumn := by rw [hframe]; rfl
  have hchordAt : m'.chordAt p.padColumn = m.chordAt p.padColumn := by rw [hframe]; rfl
  by_cases ha : m.arpDirection = .arpOff
  · obtain ⟨hx, hchord⟩ := hnotes.resolve_left fun hon ↦ hon.1 ha
    by_cases hc : m.chordMode = .chordOff
    · rw [playPosition_note mute p ha hc, playPosition_note mute p (ha'.trans ha) (hc'.trans hc)]
      rw [hframe, hx]
      exact ⟨rfl, rfl, .inr ⟨rfl, fun _ ↦ rfl⟩, harp⟩
    · rw [playPosition_chord mute p ha hc,
        playPosition_chord mute p (ha'.trans ha) (by rwa [hc']), hchord hc]
      rw [hframe, hx]
      exact ⟨rfl, rfl, .inr ⟨rfl, fun _ ↦ rfl⟩, harp⟩
  · by_cases hactive : m.arperator.activePattern = none
    · have hactive' : m'.arperator.activePattern = none := by
        rcases harp with harp | harp
        · exact harp.2
        · rw [harp.frame]
          exact hactive
      by_cases hc : m.chordMode = .chordOff
      · have hkeys := keysMoved_arpNote (m.velocityAt p) (m.columnNote p.padColumn) m
        have hkeys' := keysMoved_arpNote (m'.velocityAt p) (m'.columnNote p.padColumn) m'
        rw [playPosition_arpNote mute p ha hc,
          playPosition_arpNote mute p (by rwa [ha']) (hc'.trans hc)]
        refine ⟨hcalls, by rw [hframe], .inl ⟨ha, ?_⟩, .inl ⟨?_, ?_⟩⟩
        · exact hkeys.activePattern.trans hactive
        · exact hkeys.activePattern.trans hactive
        · exact hkeys'.activePattern.trans hactive'
      · have hkeys := keysMoved_arpChord (m.velocityAt p)
          (m.lastChord.zip (m.chordAt p.padColumn)) m.arperator
        have hkeys' := keysMoved_arpChord (m'.velocityAt p)
          (m'.lastChord.zip (m'.chordAt p.padColumn)) m'.arperator
        rw [playPosition_arpChord mute p ha hc,
          playPosition_arpChord mute p (by rwa [ha']) (by rwa [hc'])]
        refine ⟨hcalls, by rw [hframe], .inl ⟨ha, ?_⟩, .inl ⟨?_, ?_⟩⟩
        · exact hkeys.activePattern.trans hactive
        · exact hkeys.activePattern.trans hactive
        · exact hkeys'.activePattern.trans hactive'
    · obtain ⟨hx, hchord⟩ := hnotes.resolve_left fun hon ↦ hactive hon.2
      replace harp := harp.resolve_left fun hnone ↦ hactive hnone.1
      by_cases hc : m.chordMode = .chordOff
      · have hkeys := alike_arpNote (m.velocityAt p) (m.columnNote p.padColumn) hx
          (by rw [hframe]) (by rw [hframe]; rfl) harp
        rw [playPosition_arpNote mute p ha hc,
          playPosition_arpNote mute p (by rwa [ha']) (hc'.trans hc), hvelocity, hnote, hkeys.1]
        exact ⟨hcalls, by rw [hframe], .inr ⟨rfl, fun hon ↦ absurd hc hon⟩, .inr hkeys.2⟩
      · have hkeys := alike_arpChord (m.velocityAt p) (m.lastChord.zip (m.chordAt p.padColumn)) harp
        rw [playPosition_arpChord mute p ha hc,
          playPosition_arpChord mute p (by rwa [ha']) (by rwa [hc']), hvelocity, hchordAt,
          hchord hc, hkeys.1]
        exact ⟨hcalls, by rw [hframe], .inr ⟨hnote, fun _ ↦ rfl⟩, .inr hkeys.2⟩

theorem playPositions (h : Alike m m') (mute : Bool) (positions : List PadPosition) :
    (m'.playPositions mute positions).1 = (m.playPositions mute positions).1 ∧
      Alike (m.playPositions mute positions).2 (m'.playPositions mute positions).2 := by
  induction positions generalizing m m' with
  | nil => exact ⟨rfl, h⟩
  | cons p rest ih =>
    have htick : m'.crntTick = m.crntTick := by rw [h.frame]
    rw [PadMotion.playPositions, PadMotion.playPositions, htick]
    split
    · obtain ⟨hcalls, hround⟩ := h.playPosition mute p
      obtain ⟨hmore, hrest⟩ := ih hround
      exact ⟨congrArg₂ (· ++ ·) hcalls hmore, hrest⟩
    · exact ⟨rfl, h⟩

theorem playArpeggio (h : Alike m m') (mute : Bool) :
    (m'.playArpeggio mute).1 = (m.playArpeggio mute).1 ∧
      Alike (m.playArpeggio mute).2 (m'.playArpeggio mute).2 := by
  obtain ⟨hframe, hnotes, harp⟩ := h
  unfold PadMotion.playArpeggio
  have hactive := Arpeggiator.activePattern_processPattern mute m.arperator
  rcases harp with ⟨hnone, hnone'⟩ | harp
  · rw [Arpeggiator.processPattern_of_none hnone, Arpeggiator.processPattern_of_none hnone']
    exact ⟨rfl, hframe, hnotes, .inl ⟨hnone, hnone'⟩⟩
  · obtain ⟨hcalls, hplayed⟩ := harp.processPattern mute
    refine ⟨hcalls, by rw [hframe], hnotes.imp_left fun hidle ↦ ⟨hidle.1, ?_⟩, .inr hplayed⟩
    exact hactive.trans hidle.2

theorem atTick (h : Alike m m') : Alike (m.atTick scales) (m'.atTick scales) := by
  obtain ⟨hframe, hnotes, harp⟩ := h
  generalize m'.lastX = x, m'.lastChord = chord, m'.arperator = B at hframe hnotes harp
  subst hframe
  unfold PadMotion.atTick readScale
  dsimp only
  split <;> exact ⟨rfl, hnotes, harp⟩

theorem index_eq (h : Alike (m.atTick scales) (m'.atTick scales)) : m'.index = m.index := by
  have hindex : (m'.atTick scales).index = (m.atTick scales).index := by rw [h.frame]
  rwa [index_atTick, index_atTick] at hindex

theorem positions_eq (h : Alike (m.atTick scales) (m'.atTick scales)) :
    m'.positions = m.positions := by
  have hpositions : (m'.atTick scales).positions = (m.atTick scales).positions := by rw [h.frame]
  rwa [positions_atTick, positions_atTick] at hpositions

theorem finished_eq (h : Alike (m.atTick scales) (m'.atTick scales)) :
    m'.finished = m.finished := by
  have hterminated : (m'.atTick scales).terminated = (m.atTick scales).terminated := by
    rw [h.frame]
  rw [terminated_atTick, terminated_atTick] at hterminated
  rw [finished, hterminated, h.positions_eq, h.index_eq, finished]

/-- A tick sounds the same, and so does the next one. -/
theorem processMotion (h : Alike (m.atTick scales) (m'.atTick scales)) (mute : Bool) :
    (m'.processMotion mute scales).1 = (m.processMotion mute scales).1 ∧
      (m.finished = false → Alike ((m.processMotion mute scales).2.2.atTick scales)
        ((m'.processMotion mute scales).2.2.atTick scales)) := by
  have hfinished := h.finished_eq
  cases hgoing : m.finished with
  | true =>
    have hcalls := (h.playArpeggio mute).1
    have harp : (m.atTick scales).arperator = m.arperator := by
      rw [PadMotion.atTick, readScale]
      split <;> rfl
    have harp' : (m'.atTick scales).arperator = m'.arperator := by
      rw [PadMotion.atTick, readScale]
      split <;> rfl
    rw [PadMotion.playArpeggio, PadMotion.playArpeggio, harp, harp'] at hcalls
    rw [processMotion_of_finished hgoing, processMotion_of_finished (hfinished.trans hgoing)]
    exact ⟨hcalls, fun hopen ↦ absurd hopen.symm Bool.false_ne_true⟩
  | false =>
    obtain ⟨m₁, hm₁, -, heq⟩ := processMotion_of_not_finished hgoing mute scales
    obtain ⟨m₁', hm₁', -, heq'⟩ :=
      processMotion_of_not_finished (hfinished.trans hgoing) mute scales
    obtain ⟨hcalls, hplayed⟩ := h.playPositions mute (m.positions.drop m.index.toNat)
    rw [h.index_eq, h.positions_eq] at hm₁' heq'
    rw [hm₁, hm₁'] at hplayed
    obtain ⟨hmore, hnext⟩ := hplayed.playArpeggio mute
    rw [heq, heq', hcalls, hmore]
    exact ⟨rfl, fun _ ↦ hnext.atTick⟩

/-- Until they have come to their end, the motions sound the same. -/
theorem processAll (h : Alike (m.atTick scales) (m'.atTick scales)) (mutes : List Bool) :
    (PadMotion.processAll scales mutes m').1 = (PadMotion.processAll scales mutes m).1 := by
  induction mutes generalizing m m' with
  | nil => rfl
  | cons mute mutes ih =>
    obtain ⟨hcalls, hnext⟩ := h.processMotion mute
    have hdone := snd_processMotion mute scales m
    have hdone' := (snd_processMotion mute scales m').trans h.finished_eq
    rw [PadMotion.processAll, PadMotion.processAll]
    dsimp only
    rw [hdone, hdone', hcalls]
    cases hgoing : m.finished with
    | true => rfl
    | false =>
      rw [if_neg Bool.false_ne_true, if_neg Bool.false_ne_true, ih (hnext hgoing)]

end Alike

/-! ### What playing leaves behind -/

/-- From `m` to `m'` the motion has only been played. -/
def Kept (m m' : PadMotion) : Prop :=
  m' = { m with
    lastScale := m'.lastScale, scaleData := m'.scaleData, index := m'.index
    crntTick := m'.crntTick, lastChord := m'.lastChord, lastX := m'.lastX
    arperator := m'.arperator }

/-- The scale, if it has been read, is the one of the scales object. -/
def Cached (m : PadMotion) : Prop := m.lastScale = some m.scale → m.scaleData = scales.data m.scale

/-- The chord is left, except that keys may not have been enabled. -/
structure Leaves (m : PadMotion) (chord lastChord : List Int) : Prop where
  length : lastChord.length = maxPadChord
  none : chord = noChord → lastChord = noChord
  exact : m.arpDirection = .arpOff → lastChord = chord

section

variable {m m' m'' : PadMotion}

theorem Kept.trans (h : Kept m m') (h' : Kept m' m'') : Kept m m'' := by
  unfold Kept at *
  rw [h', h]

theorem Rounds.kept {n : Nat} (h : Rounds n m m') : Kept m m' := by
  unfold Rounds at h
  rw [h]
  rfl

theorem kept_atTick : Kept m (m.atTick scales) := by
  rw [atTick, readScale]
  split <;> rfl

/-- At its first tick, if not before, the motion has its scale. -/
theorem atTick_eq (h : m.Cached scales) : m.atTick scales =
    { m with
      crntTick := m.crntTick + 1, lastScale := some m.scale, scaleData := scales.data m.scale } := by
  rw [atTick, readScale]
  split
  · next hread =>
    rw [← h hread, ← hread]
  · rfl

theorem Kept.arpDirection (h : Kept m m') : m'.arpDirection = m.arpDirection := by
  unfold Kept at h
  rw [h]

theorem Kept.chordMode (h : Kept m m') : m'.chordMode = m.chordMode := by
  unfold Kept at h
  rw [h]

theorem Kept.arpeggioPattern (h : Kept m m') : m'.arpeggioPattern = m.arpeggioPattern := by
  unfold Kept at h
  rw [h]

theorem Kept.scale (h : Kept m m') : m'.scale = m.scale := by
  unfold Kept at h
  rw [h]

theorem Kept.positions (h : Kept m m') : m'.positions = m.positions := by
  unfold Kept at h
  rw [h]

theorem Kept.chordAt (h : Kept m m') (k : Int) (column : Nat) :
    PadMotion.chordAt { m' with index := k } column =
      PadMotion.chordAt { m with index := k, scaleData := m'.scaleData } column := by
  unfold Kept at h
  rw [h]
  rfl

theorem Rounds.scaleData {n : Nat} (h : Rounds n m m') : m'.scaleData = m.scaleData := by
  unfold Rounds at h
  rw [h]

theorem arperator_atTick : (m.atTick scales).arperator = m.arperator := by
  rw [atTick, readScale]
  split <;> rfl

theorem lastChord_atTick : (m.atTick scales).lastChord = m.lastChord := by
  rw [atTick, readScale]
  split <;> rfl

theorem Leaves.trans {c c' c'' : List Int} (h : m.Leaves c c') (h' : m'.Leaves c' c'')
    (hkept : Kept m m') : m.Leaves c c'' where
  length := h'.length
  none := fun hnone ↦ h'.none (h.none hnone)
  exact := fun ha ↦ (h'.exact (hkept.arpDirection.trans ha)).trans (h.exact ha)

/-- A round leaves its chord. -/
theorem leaves_playPosition (hlength : m.lastChord.length = maxPadChord) (mute : Bool)
    (p : PadPosition) :
    m.Leaves (m.chordAt p.padColumn) (m.playPosition mute p).2.lastChord := by
  by_cases harp : m.arpDirection ≠ .arpOff ∧ m.chordMode ≠ .chordOff
  · rw [playPosition_arpChord mute p harp.1 harp.2]
    have hlength' : (arpChord (m.velocityAt p) (m.lastChord.zip (m.chordAt p.padColumn))
        m.arperator).1.length = maxPadChord := by
      rw [length_arpChord, List.length_zip, hlength, length_chordAt, Nat.min_self]
    refine ⟨hlength', fun hnone ↦ ?_, fun hoff ↦ absurd hoff harp.1⟩
    refine List.eq_replicate_iff.mpr ⟨hlength', fun n hn ↦ ?_⟩
    rcases mem_arpChord hn with hn | hn
    · exact hn
    · rw [List.map_snd_zip (by rw [hlength, length_chordAt]), hnone] at hn
      exact eq_neg_one_of_mem_noChord hn
  · have heq : (m.playPosition mute p).2.lastChord = m.chordAt p.padColumn := by
      by_cases ha : m.arpDirection = .arpOff
      · by_cases hc : m.chordMode = .chordOff
        · rw [playPosition_note mute p ha hc]
        · rw [playPosition_chord mute p ha hc]
      · rw [playPosition_arpNote mute p ha (by simpa [ha] using harp)]
    rw [heq]
    exact ⟨m.length_chordAt p.padColumn, id, fun _ ↦ rfl⟩

theorem chordAt_of_rounds {n : Nat} (h : Rounds n m m') (k : Int) (column : Nat) :
    chordAt { m' with index := k } column = chordAt { m with index := k } column := by
  unfold Rounds at h
  rw [h]
  rfl

/-- The loop leaves the chord of its last position. -/
theorem leaves_playPositions (mute : Bool) (positions : List PadPosition)
    (hlength : m.lastChord.length = maxPadChord) :
    let due := positions.takeWhile fun p ↦ p.t ≤ m.crntTick
    m.Leaves
      ((due.getLast?.map fun p ↦
        chordAt { m with index := m.index + due.length - 1 } p.padColumn).getD m.lastChord)
      (m.playPositions mute positions).2.lastChord := by
  induction positions generalizing m with
  | nil => exact ⟨hlength, id, fun _ ↦ rfl⟩
  | cons p rest ih =>
    rw [PadMotion.playPositions]
    split
    · next hdue =>
      have hround := rounds_playPosition mute p m
      have hchord := leaves_playPosition hlength mute p
      have hrest := ih hchord.length
      dsimp only at hrest ⊢
      rw [hround.crntTick, hround.index] at hrest
      rw [List.takeWhile_cons_of_pos (by simpa using hdue), List.getLast?_cons, List.length_cons]
      generalize rest.takeWhile _ = due at hrest ⊢
      cases hlast : due.getLast? with
      | none =>
        rw [hlast] at hrest
        obtain rfl := List.getLast?_eq_none_iff.mp hlast
        have hindex : m.index + (([] : List PadPosition).length + 1 : Nat) - 1 = m.index := by
          rw [List.length_nil]
          omega
        rw [hindex]
        show m.Leaves (m.chordAt p.padColumn) _
        refine ⟨hrest.length, fun hnone ↦ hrest.none (hchord.none hnone), fun ha ↦ ?_⟩
        exact (hrest.exact (hround.toPadConfiguration ▸ ha)).trans (hchord.exact ha)
      | some q =>
        rw [hlast] at hrest
        have hindex : m.index + (due.length + 1 : Nat) - 1 = m.index + 1 + due.length - 1 := by
          omega
        rw [hindex]
        refine ⟨hrest.length, fun hnone ↦ hrest.none ?_, fun ha ↦ ?_⟩
        · exact (chordAt_of_rounds hround _ _).trans hnone
        · exact (hrest.exact (hround.toPadConfiguration ▸ ha)).trans
            (chordAt_of_rounds hround _ _)
    · next hdue =>
      rw [List.takeWhile_cons_of_neg (by simpa using hdue)]
      exact ⟨hlength, id, fun _ ↦ rfl⟩

end

/-- The positions that have come, and those that come at the next tick. -/
theorem comeIn_succ (positions : List PadPosition) (n : Nat) :
    comeIn positions (n + 1) = comeIn positions n ++
      (positions.drop (comeIn positions n).length).takeWhile fun p ↦ p.t ≤ (n : Int) := by
  cases n with
  | zero => rfl
  | succ n =>
    rw [comeIn, comeIn]
    induction positions with
    | nil => rfl
    | cons p rest ih =>
      by_cases hp : p.t ≤ (n : Int)
      · rw [List.takeWhile_cons_of_pos (by simp; omega),
          List.takeWhile_cons_of_pos (by simpa using hp), ih, List.length_cons,
          List.drop_succ_cons, List.cons_append]
      · rw [List.takeWhile_cons_of_neg (a := p) (p := fun p ↦ p.t ≤ (n : Int)) (by simpa using hp)]
        rfl

theorem comeIn_isPrefix (positions : List PadPosition) (n : Nat) :
    comeIn positions n <+: positions := by
  cases n with
  | zero => exact List.nil_prefix
  | succ n => exact List.takeWhile_prefix _

/-- When all positions have come, no more follow. -/
theorem comeIn_add {positions : List PadPosition} {n : Nat} (h : comeIn positions n = positions)
    (more : Nat) : comeIn positions (n + more) = positions := by
  induction more with
  | zero => exact h
  | succ more ih =>
    rw [← Nat.add_assoc, comeIn_succ, ih, List.drop_length]
    exact List.append_nil positions

/-- The motion `m₀`, that had a chord left, is played for some ticks. -/
structure Playing (m₀ : PadMotion) (chord : List Int) (ticks : Nat) (m : PadMotion) : Prop where
  kept : Kept m₀ m
  cached : m.Cached scales
  crntTick : m.crntTick = ticks - 1
  index : m.index = (comeIn m.positions ticks).length
  leaves : m₀.Leaves ((m₀.chordLeft scales ticks).getD chord) m.lastChord

namespace Playing

variable {scales} {m₀ m : PadMotion} {chord : List Int} {n : Nat}

theorem processMotion (h : m₀.Playing scales chord n m) (hgoing : m.finished = false)
    (mute : Bool) : m₀.Playing scales chord (n + 1) (m.processMotion mute scales).2.2 := by
  obtain ⟨m₁, hm₁, hrounds, heq⟩ := processMotion_of_not_finished hgoing mute scales
  have hkept : Kept m₀ (m.atTick scales) := h.kept.trans (kept_atTick scales)
  have hkept₁ : Kept m₀ (m₁.playArpeggio mute).2 := hkept.trans (hrounds.kept.trans rfl)
  have hscale : (m.atTick scales).scaleData = scales.data m₀.scale := by
    rw [atTick_eq scales h.cached, h.kept.scale]
  have hindex : m.index.toNat = (comeIn m.positions n).length := by
    rw [h.index, Int.toNat_natCast]
  have htick : m.crntTick + 1 = n := by
    rw [h.crntTick]
    omega
  have hdue : m.due = (m.positions.drop (comeIn m.positions n).length).takeWhile
      fun p ↦ p.t ≤ (n : Int) := by rw [due, hindex, htick]
  have hsucc := comeIn_succ m.positions n
  rw [← hdue] at hsucc
  refine ⟨heq ▸ hkept₁, ?_, ?_, ?_, ?_⟩
  · rw [heq]
    intro _
    exact hrounds.scaleData.trans (hscale.trans (by rw [hkept₁.scale]))
  · rw [crntTick_processMotion hgoing, htick]
    omega
  · rw [index_processMotion hgoing, positions_processMotion, hsucc, List.length_append, h.index]
    omega
  · have hleaves := leaves_playPositions (m := m.atTick scales) mute
      (m.positions.drop m.index.toNat) (by rw [lastChord_atTick]; exact h.leaves.length)
    rw [crntTick_atTick, hm₁, lastChord_atTick, index_atTick] at hleaves
    change (m.atTick scales).Leaves ((m.due.getLast?.map fun p ↦
      PadMotion.chordAt { m.atTick scales with index := m.index + m.due.length - 1 }
        p.padColumn).getD m.lastChord) m₁.lastChord at hleaves
    rw [heq]
    show m₀.Leaves _ m₁.lastChord
    rw [chordLeft, ← h.kept.positions, hsucc]
    cases hlast : m.due.getLast? with
    | none =>
      rw [hlast] at hleaves
      rw [List.getLast?_eq_none_iff.mp hlast, List.append_nil]
      have hbefore := h.leaves
      rw [chordLeft, ← h.kept.positions] at hbefore
      exact hbefore.trans hleaves hkept
    | some p =>
      have hchord := hkept.chordAt (m.index + m.due.length - 1) p.padColumn
      rw [hlast, Option.map_some, Option.getD_some, hchord, hscale, h.index,
        ← h.kept.positions] at hleaves
      rw [List.getLast?_append, hlast, Option.some_or, Option.map_some, Option.getD_some,
        List.length_append, Int.natCast_add]
      exact ⟨hleaves.length, hleaves.none, fun ha ↦ hleaves.exact (hkept.arpDirection.trans ha)⟩

/-- A motion that has come to its end has played all of its positions. -/
theorem chordLeft_of_finished (h : m₀.Playing scales chord n m) (hend : m.finished = true)
    (more : Nat) : m₀.chordLeft scales (n + more) = m₀.chordLeft scales n := by
  have hall : comeIn m₀.positions n = m₀.positions := by
    have hlength := h.index
    rw [finished, Bool.and_eq_true, decide_eq_true_eq] at hend
    rw [h.kept.positions] at hlength hend
    exact (comeIn_isPrefix m₀.positions n).eq_of_length_le (by omega)
  rw [chordLeft, comeIn_add hall, chordLeft, hall]

/-- What is left when the motion is not played any more. -/
theorem processAll (h : m₀.Playing scales chord n m) (mutes : List Bool) :
    Kept m₀ (PadMotion.processAll scales mutes m).2 ∧
      (PadMotion.processAll scales mutes m).2.Cached scales ∧
      m₀.Leaves ((m₀.chordLeft scales (n + mutes.length)).getD chord)
        (PadMotion.processAll scales mutes m).2.lastChord := by
  induction mutes generalizing n m with
  | nil => exact ⟨h.kept, h.cached, h.leaves⟩
  | cons mute mutes ih =>
    have hdone := snd_processMotion mute scales m
    rw [PadMotion.processAll]
    dsimp only
    rw [hdone]
    cases hgoing : m.finished with
    | true =>
      rw [if_pos rfl, processMotion_of_finished hgoing, h.chordLeft_of_finished hgoing]
      exact ⟨h.kept.trans rfl, h.cached, h.leaves⟩
    | false =>
      have hrest := ih (h.processMotion hgoing mute)
      rw [if_neg Bool.false_ne_true, List.length_cons, Nat.add_comm mutes.length, ← Nat.add_assoc]
      exact hrest

end Playing

/-- What `start_motion` makes of a motion that is not played. -/
def started (m : PadMotion) : PadMotion :=
  { m with
    index := 0
    crntTick := -1
    lastX := -1
    arperator := (m.arperator.reset.setDirection m.arpDirection).setPattern m.arpeggioPattern }

theorem play_eq {m : PadMotion} (h : m.index = -1) (mutes : List Bool) :
    m.play scales mutes = processAll scales mutes m.started := by
  rw [play, startMotion_eq_some_iff.mpr ⟨⟨h, rfl⟩, rfl⟩]
  rfl

/-- The motion after it has been played, as `plays` tells. -/
structure Played (m₀ : PadMotion) (plays : List (List Bool)) (m : PadMotion) : Prop where
  kept : Kept m₀ m
  cached : m.Cached scales
  index : m.index = -1
  leaves : m₀.Leaves (m₀.chordHeld scales plays) m.lastChord

namespace Played

variable {scales} {m₀ m : PadMotion} {plays : List (List Bool)}

theorem play (h : m₀.Played scales plays m) (mutes : List Bool) :
    m₀.Played scales (plays ++ [mutes])
      (if (m.play scales mutes).2.index = -1 then (m.play scales mutes).2
        else (m.play scales mutes).2.reset) := by
  have hplaying : m₀.Playing scales (m₀.chordHeld scales plays) 0 m.started :=
    ⟨h.kept.trans rfl, h.cached, rfl, rfl, h.leaves⟩
  obtain ⟨hkept, hcached, hleaves⟩ := hplaying.processAll mutes
  have hheld : m₀.chordHeld scales (plays ++ [mutes]) =
      (m₀.chordLeft scales (0 + mutes.length)).getD (m₀.chordHeld scales plays) := by
    rw [chordHeld, List.foldl_append, Nat.zero_add]
    rfl
  rw [play_eq scales h.index]
  rw [← hheld] at hleaves
  split
  · next hindex => exact ⟨hkept, hcached, hindex, hleaves⟩
  · exact ⟨hkept.trans rfl, hcached, rfl, hleaves⟩

end Played

theorem AtRest.played {m : PadMotion} (h : m.AtRest scales) (plays : List (List Bool)) :
    m.Played scales plays (m.afterPlays scales plays) := by
  induction plays using List.reverseRecOn with
  | nil =>
    refine ⟨rfl, h.cached, h.index, ?_, id, fun _ ↦ rfl⟩
    show m.lastChord.length = maxPadChord
    rw [h.lastChord]
    rfl
  | append_singleton plays mutes ih =>
    rw [afterPlays, List.foldl_append]
    exact ih.play mutes

theorem activePattern_started (m : PadMotion) :
    m.started.arperator.activePattern = none ↔ m.arpeggiates = false := by
  have hbuiltIn : ∀ id, builtIn id ≠ [] := by decide
  rw [started, arpeggiates, Arpeggiator.activePattern]
  cases hpattern : m.arpeggioPattern with
  | none => simp [Arpeggiator.setPattern, Arpeggiator.setDirection]
  | some id => simp [Arpeggiator.setPattern, Arpeggiator.setDirection, hbuiltIn id]

/-- Where nothing is left that is heard, the motion sounds the same again. -/
theorem AtRest.play_afterPlays {m : PadMotion} (h : m.AtRest scales) {plays : List (List Bool)}
    (hplays : m.Undisturbed scales plays) (mutes : List Bool) :
    ((m.afterPlays scales plays).play scales mutes).1 = (m.play scales mutes).1 := by
  obtain ⟨hchord, hvelocity⟩ := hplays
  obtain ⟨hkept, hcached, hindex, hleaves⟩ := h.played scales plays
  generalize m.afterPlays scales plays = m' at hvelocity hkept hcached hindex hleaves ⊢
  have hidle : m'.arpeggiates = m.arpeggiates := by
    rw [arpeggiates, hkept.arpDirection, hkept.arpeggioPattern, arpeggiates]
  rw [play_eq scales hindex, play_eq scales h.index]
  refine Alike.processAll ?_ mutes
  rw [atTick_eq scales (m := m.started) h.cached, atTick_eq scales (m := m'.started) hcached]
  refine ⟨?_, ?_, ?_⟩
  · unfold Kept at hkept
    rw [hkept]
    rfl
  · by_cases hheard : m.arpDirection = .arpOff ∨ m.arpeggiates = true
    · refine .inr ⟨rfl, fun hc ↦ ?_⟩
      exact (hleaves.none (hchord hc hheard)).trans h.lastChord.symm
    · obtain ⟨ha, hoff⟩ := not_or.mp hheard
      exact .inl ⟨ha, (activePattern_started m).mpr (Bool.not_eq_true _ ▸ hoff)⟩
  · cases harp : m.arpeggiates with
    | false =>
      exact .inl ⟨(activePattern_started m).mpr harp,
        (activePattern_started m').mpr (hidle.trans harp)⟩
    | true =>
      refine .inr ⟨?_, .inr fun _ ↦ rfl⟩
      simp only [started, Arpeggiator.reset, Arpeggiator.setDirection, Arpeggiator.setPattern,
        hkept.arpDirection, hkept.arpeggioPattern, hvelocity harp]

/-! ### What is heard of it -/

/-- The calls of an arpeggiated motion before those of its arpeggiator. -/
theorem playPositions_arp {m : PadMotion} (ha : m.arpDirection ≠ .arpOff) (mute : Bool)
    (positions : List PadPosition) :
    (m.playPositions mute positions).1 =
        (positions.takeWhile fun p ↦ p.t ≤ m.crntTick).flatMap m.controllerCalls ∧
      m.arperator.KeysMoved (m.playPositions mute positions).2.arperator := by
  induction positions generalizing m with
  | nil => exact ⟨rfl, rfl⟩
  | cons p rest ih =>
    rw [playPositions]
    split
    · next hdue =>
      have hround := rounds_playPosition mute p m
      have hcalls : (m.playPosition mute p).1 = m.controllerCalls p ∧
          m.arperator.KeysMoved (m.playPosition mute p).2.arperator := by
        by_cases hc : m.chordMode = .chordOff
        · rw [playPosition_arpNote mute p ha hc]
          exact ⟨rfl, keysMoved_arpNote ..⟩
        · rw [playPosition_arpChord mute p ha hc]
          exact ⟨rfl, keysMoved_arpChord ..⟩
      have hsame : (m.playPosition mute p).2.controllerCalls = m.controllerCalls := by
        funext q
        rw [controllerCalls, hround.toPadConfiguration, controllerCalls]
      obtain ⟨hmore, hkeys⟩ := ih (m := (m.playPosition mute p).2)
        (by rw [hround.toPadConfiguration]; exact ha)
      rw [hround.crntTick, hsame] at hmore
      rw [List.takeWhile_cons_of_pos (by simpa using hdue), List.flatMap_cons]
      exact ⟨congrArg₂ (· ++ ·) hcalls.1 hmore, hcalls.2.trans hkeys⟩
    · next hdue =>
      rw [List.takeWhile_cons_of_neg (by simpa using hdue)]
      exact ⟨rfl, rfl⟩

/-- An arpeggiator that is muted tells its velocity. -/
theorem processPattern_muted {A : Arpeggiator} (h : A.activePattern ≠ none) :
    ∃ played, (A.processPattern true).1 = .queueNoteOff A.note A.velocity :: played := by
  rw [Arpeggiator.processPattern]
  cases hactive : A.activePattern with
  | none => exact absurd hactive h
  | some pattern => exact ⟨_, rfl⟩

theorem fst_processAll_singleton (mute : Bool) (m : PadMotion) :
    (processAll scales [mute] m).1 = [(m.processMotion mute scales).1] := by
  rw [processAll]
  dsimp only
  split <;> rfl

/-- The first tick of an arpeggiated motion, if it is muted. -/
theorem processAll_muted {m : PadMotion} (harp : m.arpeggiates = true) :
    ∃ played, (processAll scales [true] m.started).1 =
      [(if m.started.finished then [] else m.started.due.flatMap m.controllerCalls) ++
        .queueNoteOff (-1) m.arperator.velocity :: played] := by
  have hactive : m.started.arperator.activePattern ≠ none := by
    rw [Ne, activePattern_started, harp]
    exact nofun
  rw [fst_processAll_singleton]
  cases hgoing : m.started.finished with
  | true =>
    rw [processMotion_of_finished hgoing, if_pos rfl]
    obtain ⟨played, heq⟩ := processPattern_muted hactive
    exact ⟨played, congrArg (fun calls ↦ [calls]) heq⟩
  | false =>
    obtain ⟨m₁, hm₁, -, heq⟩ := processMotion_of_not_finished hgoing true scales
    have hkept := kept_atTick scales (m := m.started)
    have ha : (m.started.atTick scales).arpDirection ≠ .arpOff := by
      rw [hkept.arpDirection]
      exact (Bool.and_eq_true_iff.mp harp).1 |> of_decide_eq_true
    have hsame : (m.started.atTick scales).controllerCalls = m.controllerCalls := by
      unfold Kept at hkept
      rw [hkept]
      rfl
    obtain ⟨hpositions, hkeys⟩ :=
      playPositions_arp ha true (m.started.positions.drop m.started.index.toNat)
    rw [hm₁, arperator_atTick] at hkeys
    obtain ⟨played, hplayed⟩ := processPattern_muted (A := m₁.arperator)
      (by rwa [hkeys.activePattern])
    refine ⟨played, ?_⟩
    rw [heq, hpositions, hsame, crntTick_atTick, if_neg Bool.false_ne_true, playArpeggio, hplayed,
      hkeys.note, hkeys.velocity]
    rfl

/-- A stale chord is heard: either a note of it is ended, or one is not started. -/
theorem forall_eq_of_chordCalls {velocity : Int} {last chord : List Int}
    (hlength : last.length = chord.length)
    (hends : ∀ call ∈ chordCalls false velocity last chord, ∀ n, ¬ call.Ends n) :
    (chordCalls false velocity last chord).length ≤
        (chordCalls false velocity (List.replicate last.length (-1)) chord).length ∧
      ((chordCalls false velocity last chord).length =
          (chordCalls false velocity (List.replicate last.length (-1)) chord).length →
        last = List.replicate last.length (-1)) := by
  induction last generalizing chord with
  | nil => exact ⟨Nat.le_refl _, fun _ ↦ rfl⟩
  | cons l last ih =>
    cases chord with
    | nil => cases hlength
    | cons note chord =>
      have hcons : ∀ l last, chordCalls false velocity (l :: last) (note :: chord) =
          chordCalls false velocity [l] [note] ++ chordCalls false velocity last chord := by
        intro l last
        simp [chordCalls]
      rw [hcons] at hends ⊢
      rw [List.length_cons, List.replicate_succ, hcons, List.length_append, List.length_append]
      obtain ⟨hle, heq⟩ := ih (by simpa using hlength)
        fun call hcall ↦ hends call (List.mem_append_right _ hcall)
      by_cases hl : l = -1
      · rw [hl]
        refine ⟨by omega, fun hsum ↦ ?_⟩
        rw [heq (by omega), List.length_replicate]
      · by_cases hnote : l = note
        · have hnone : (chordCalls false velocity [l] [note]).length = 0 := by
            simp [chordCalls, hnote]
          have hone : (chordCalls false velocity [-1] [note]).length = 1 := by
            have hne : ¬ (-1 : Int) = note := fun h ↦ hl (hnote.trans h.symm)
            have hne' : ¬ note = -1 := fun h ↦ hne h.symm
            simp [chordCalls, hne, hne']
          omega
        · refine absurd ⟨0x7f, rfl⟩ (hends (.queueNoteOff l 0x7f) (List.mem_append_left _ ?_) l)
          simp [chordCalls, hl, hnote]

theorem not_ends_chordCalls_noChord (velocity : Int) (count : Nat) (chord : List Int) :
    ∀ call ∈ chordCalls false velocity (List.replicate count (-1)) chord, ∀ n, ¬ call.Ends n := by
  intro call hcall n
  obtain ⟨⟨last, note⟩, hpair, hcall⟩ := List.mem_flatMap.mp hcall
  obtain rfl : last = -1 := List.eq_of_mem_replicate (List.of_mem_zip hpair).1
  by_cases hnote : note = -1
  · simp [hnote] at hcall
  · have hcall' : call = .queueNoteOn note velocity := by
      simpa [hnote, Ne.symm hnote] using hcall
    rw [hcall']
    exact PadCall.not_ends_queueNoteOn

/-- A chord that is left is heard. -/
theorem eq_noChord_of_chordCalls {velocity : Int} {last chord : List Int}
    (hlast : last.length = maxPadChord) (hchord : chord.length = maxPadChord)
    (h : chordCalls false velocity last chord = chordCalls false velocity noChord chord) :
    last = noChord := by
  have hnone : noChord = List.replicate last.length (-1) := by rw [hlast]; rfl
  rw [hnone] at h ⊢
  refine (forall_eq_of_chordCalls (hlast.trans hchord.symm) ?_).2 (congrArg List.length h)
  rw [h]
  exact not_ends_chordCalls_noChord velocity last.length chord

/-- A tick at which a position comes. -/
theorem fst_processMotion_of_due {m : PadMotion} {p : PadPosition} {rest : List PadPosition}
    (hgoing : m.finished = false) (hnext : m.positions.drop m.index.toNat = p :: rest)
    (hdue : p.t ≤ m.crntTick + 1) (mute : Bool) :
    let round := (m.atTick scales).playPosition mute p
    (m.processMotion mute scales).1 = round.1 ++
      ((round.2.playPositions mute rest).1 ++
        ((round.2.playPositions mute rest).2.playArpeggio mute).1) := by
  obtain ⟨m₁, hm₁, -, heq⟩ := processMotion_of_not_finished hgoing mute scales
  rw [hnext, playPositions, crntTick_atTick, if_pos hdue] at hm₁ heq
  obtain rfl := (Prod.mk.inj hm₁).2
  rw [heq]
  exact List.append_assoc ..

/-- The motions differ in their chords only, and have not come to their first position. -/
structure Apart (p : PadPosition) (rest : List PadPosition) (m m' : PadMotion) : Prop where
  frame : m'.atTick scales =
    { m.atTick scales with lastChord := m'.lastChord, arperator := m'.arperator }
  arpOff : m.arpDirection = .arpOff
  chord : m.chordMode ≠ .chordOff
  index : m.index = 0
  positions : m.positions = p :: rest
  idle : m.arperator.activePattern = none ∧ m'.arperator.activePattern = none
  none : m.lastChord = noChord
  length : m'.lastChord.length = maxPadChord

namespace Apart

variable {scales} {p : PadPosition} {rest : List PadPosition} {m m' : PadMotion}

theorem going (h : Apart scales p rest m m') : m.finished = false ∧ m'.finished = false := by
  have hindex : (m'.atTick scales).index = (m.atTick scales).index := by rw [h.frame]
  have hpositions : (m'.atTick scales).positions = (m.atTick scales).positions := by rw [h.frame]
  rw [index_atTick, index_atTick] at hindex
  rw [positions_atTick, positions_atTick] at hpositions
  have hlt : m.index < m.positions.length := by
    rw [h.index, h.positions, List.length_cons]
    omega
  exact ⟨finished_of_lt hlt, finished_of_lt (by rwa [hindex, hpositions])⟩

theorem positions_eq (h : Apart scales p rest m m') :
    m.positions.drop m.index.toNat = p :: rest ∧ m'.positions.drop m'.index.toNat = p :: rest := by
  have hindex : (m'.atTick scales).index = (m.atTick scales).index := by rw [h.frame]
  have hpositions : (m'.atTick scales).positions = (m.atTick scales).positions := by rw [h.frame]
  rw [index_atTick, index_atTick, h.index] at hindex
  rw [positions_atTick, positions_atTick, h.positions] at hpositions
  rw [h.index, h.positions, hindex, hpositions]
  exact ⟨rfl, rfl⟩

/-- At the first position the chords are heard. -/
theorem lastChord_of_due (h : Apart scales p rest m m') (hdue : p.t ≤ m.crntTick + 1)
    (hsame : (processAll scales [false] m').1 = (processAll scales [false] m).1) :
    m'.lastChord = noChord := by
  have hkept := kept_atTick scales (m := m)
  have htick : (m'.atTick scales).crntTick = m.crntTick + 1 := by
    rw [h.frame]
    exact crntTick_atTick scales m
  rw [crntTick_atTick] at htick
  have ha : (m.atTick scales).arpDirection = .arpOff := hkept.arpDirection.trans h.arpOff
  have hc : (m.atTick scales).chordMode ≠ .chordOff := by
    rw [hkept.chordMode]
    exact h.chord
  have ha' : (m'.atTick scales).arpDirection = .arpOff := by rwa [h.frame]
  have hc' : (m'.atTick scales).chordMode ≠ .chordOff := by rwa [h.frame]
  have hround : Alike ((m.atTick scales).playPosition false p).2
      ((m'.atTick scales).playPosition false p).2 := by
    rw [playPosition_chord false p ha hc, playPosition_chord false p ha' hc', h.frame]
    refine ⟨rfl, .inr ⟨rfl, fun _ ↦ rfl⟩, .inl ⟨?_, h.idle.2⟩⟩
    rw [arperator_atTick]
    exact h.idle.1
  obtain ⟨hcalls, hrest⟩ := hround.playPositions false rest
  rw [fst_processAll_singleton, fst_processAll_singleton, List.singleton_inj] at hsame
  rw [fst_processMotion_of_due scales h.going.1 h.positions_eq.1 hdue,
    fst_processMotion_of_due scales h.going.2 h.positions_eq.2 (by omega), hcalls,
    (hrest.playArpeggio false).1] at hsame
  have hfirst := List.append_cancel_right hsame
  rw [playPosition_chord false p ha hc, playPosition_chord false p ha' hc', h.frame] at hfirst
  have hchords := List.append_cancel_left hfirst
  rw [lastChord_atTick, h.none] at hchords
  exact eq_noChord_of_chordCalls h.length (length_chordAt ..) hchords

/-- Before the first position nothing is heard. -/
theorem processMotion (h : Apart scales p rest m m') (hlater : ¬ p.t ≤ m.crntTick + 1) :
    m.processMotion false scales = ([], false, m.atTick scales) ∧
      m'.processMotion false scales = ([], false, m'.atTick scales) := by
  obtain ⟨m₁, hm₁, -, heq⟩ := processMotion_of_not_finished h.going.1 false scales
  obtain ⟨m₁', hm₁', -, heq'⟩ := processMotion_of_not_finished h.going.2 false scales
  have htick : (m'.atTick scales).crntTick = m.crntTick + 1 := by
    rw [h.frame]
    exact crntTick_atTick scales m
  rw [h.positions_eq.1, playPositions, crntTick_atTick, if_neg hlater] at hm₁ heq
  rw [h.positions_eq.2, playPositions, htick, if_neg hlater] at hm₁' heq'
  obtain rfl := (Prod.mk.inj hm₁).2
  obtain rfl := (Prod.mk.inj hm₁').2
  rw [heq, heq', playArpeggio, playArpeggio, arperator_atTick, arperator_atTick,
    Arpeggiator.processPattern_of_none h.idle.1, Arpeggiator.processPattern_of_none h.idle.2,
    ← arperator_atTick scales (m := m), ← arperator_atTick scales (m := m')]
  exact ⟨rfl, rfl⟩

theorem atTick (h : Apart scales p rest m m') :
    Apart scales p rest (m.atTick scales) (m'.atTick scales) := by
  have hkept := kept_atTick scales (m := m)
  refine ⟨?_, hkept.arpDirection.trans h.arpOff, ?_, ?_, ?_, ?_, ?_, ?_⟩
  · rw [lastChord_atTick, arperator_atTick, h.frame]
    generalize m.atTick scales = a
    rw [PadMotion.atTick, PadMotion.atTick, readScale, readScale]
    dsimp only
    split <;> rfl
  · rw [hkept.chordMode]
    exact h.chord
  · rw [index_atTick, h.index]
  · rw [positions_atTick, h.positions]
  · rw [arperator_atTick, arperator_atTick]
    exact h.idle
  · rw [lastChord_atTick, h.none]
  · rw [lastChord_atTick, h.length]

/-- If the motions sound the same, there are no chords. -/
theorem lastChord_eq (h : Apart scales p rest m m')
    (hsame : ∀ mutes, (processAll scales mutes m').1 = (processAll scales mutes m).1) :
    m'.lastChord = noChord := by
  obtain ⟨d, hd⟩ : ∃ d : Nat, p.t ≤ m.crntTick + 1 + d := ⟨(p.t - m.crntTick - 1).toNat, by omega⟩
  induction d generalizing m m' with
  | zero => exact h.lastChord_of_due (by omega) (hsame [false])
  | succ d ih =>
    by_cases hdue : p.t ≤ m.crntTick + 1
    · exact h.lastChord_of_due hdue (hsame [false])
    · obtain ⟨hnone, hnone'⟩ := h.processMotion hdue
      rw [← lastChord_atTick scales (m := m')]
      refine ih h.atTick (fun mutes ↦ ?_) (by rw [crntTick_atTick]; omega)
      have hmutes := hsame (false :: mutes)
      rw [processAll, processAll, hnone, hnone'] at hmutes
      exact (List.cons.inj hmutes).2

end Apart

/-! ### Replay -/

theorem chordHeld_of_positions_eq_nil {m : PadMotion} (h : m.positions = [])
    (plays : List (List Bool)) : m.chordHeld scales plays = m.lastChord := by
  have hnone : ∀ ticks, m.chordLeft scales ticks = none := by
    intro ticks
    rw [chordLeft, h]
    cases ticks <;> rfl
  rw [chordHeld]
  simp only [hnone, Option.getD_none, List.foldl_fixed]

/-- If the motion sounds the same again, then nothing is left that is heard. -/
theorem AtRest.undisturbed {m : PadMotion} (h : m.AtRest scales) {plays : List (List Bool)}
    (hone : m.chordMode = .chordOff ∨ m.arpeggiates = false)
    (hsame : ∀ mutes, ((m.afterPlays scales plays).play scales mutes).1 =
      (m.play scales mutes).1) : m.Undisturbed scales plays := by
  obtain ⟨hkept, hcached, hindex, hleaves⟩ := h.played scales plays
  have hidle : (m.afterPlays scales plays).arpeggiates = m.arpeggiates := by
    rw [arpeggiates, hkept.arpDirection, hkept.arpeggioPattern, arpeggiates]
  have hsame' : ∀ mutes, (processAll scales mutes (m.afterPlays scales plays).started).1 =
      (processAll scales mutes m.started).1 := by
    intro mutes
    rw [← play_eq scales hindex, ← play_eq scales h.index]
    exact hsame mutes
  refine ⟨fun hc hheard ↦ ?_, fun harp ↦ ?_⟩
  · have hoff := hone.resolve_left hc
    have ha : m.arpDirection = .arpOff := hheard.resolve_right (by rw [hoff]; exact nofun)
    rw [← hleaves.exact ha]
    cases hpositions : m.positions with
    | nil => rw [hleaves.exact ha, chordHeld_of_positions_eq_nil scales hpositions, h.lastChord]
    | cons p rest =>
      have hapart : Apart scales p rest m.started (m.afterPlays scales plays).started := by
        refine ⟨?_, ha, hc, rfl, hpositions, ⟨(activePattern_started m).mpr hoff, ?_⟩,
          h.lastChord, hleaves.length⟩
        · rw [atTick_eq scales (m := m.started) h.cached,
            atTick_eq scales (m := (m.afterPlays scales plays).started) hcached]
          unfold Kept at hkept
          rw [hkept]
          rfl
        · exact (activePattern_started _).mpr (hidle.trans hoff)
      exact hapart.lastChord_eq hsame'
  · obtain ⟨played, hcalls⟩ := processAll_muted scales harp
    obtain ⟨played', hcalls'⟩ := processAll_muted scales (hidle.trans harp)
    have hbefore : (if (m.afterPlays scales plays).started.finished then []
          else (m.afterPlays scales plays).started.due.flatMap
            (m.afterPlays scales plays).controllerCalls) =
        if m.started.finished then [] else m.started.due.flatMap m.controllerCalls := by
      unfold Kept at hkept
      rw [hkept]
      rfl
    have hmuted := hsame' [true]
    rw [hcalls, hcalls', hbefore, List.singleton_inj] at hmuted
    have hoff := (List.cons.inj (List.append_cancel_left hmuted)).1
    exact (PadCall.queueNoteOff.inj hoff).2

/-- After it has been played a motion sounds the same again where no chord and no other velocity is
left. For chords that are not arpeggiated, and for arpeggios without chords, there is no other way. -/
theorem play_afterPlays_iff {m : PadMotion} (h : m.AtRest scales) (plays : List (List Bool)) :
    (m.Undisturbed scales plays → ∀ mutes,
        ((m.afterPlays scales plays).play scales mutes).1 = (m.play scales mutes).1) ∧
      (m.chordMode = .chordOff ∨ m.arpeggiates = false →
        (∀ mutes, ((m.afterPlays scales plays).play scales mutes).1 = (m.play scales mutes).1) →
        m.Undisturbed scales plays) :=
  ⟨fun hplays mutes ↦ h.play_afterPlays scales hplays mutes,
    fun hone hsame ↦ h.undisturbed scales hone hsame⟩

/-- A triad for two ticks, another one for two more. -/
def twoTriads : PadMotion where
  arpDirection := .arpOff
  chordMode := .chordTriad
  scale := 0
  octave := 4
  arpeggioPattern := some 0
  padControllerCoarse := (-1, -1)
  padControllerFine := (-1, -1)
  lastScale := none
  scaleData := fun _ ↦ 0
  index := -1
  crntTick := -1
  lastChord := noChord
  lastX := -1
  positions := [⟨0, 6400, 0, 0⟩, ⟨2048, 6400, 0, 2⟩, ⟨2048, 6400, 0, 4⟩]
  arperator := .new
  startTick := 0
  terminated := true
  toBeDeleted := false

theorem atRest_twoTriads : twoTriads.AtRest none := ⟨rfl, rfl, rfl, nofun⟩

/-- Played to its end, also when it is muted, and once more. -/
theorem play_afterPlays_twoTriads : twoTriads.AtRest none ∧
    twoTriads.Undisturbed none [List.replicate 6 false, List.replicate 6 true] ∧
    ((twoTriads.afterPlays none [List.replicate 6 false, List.replicate 6 true]).play none
      (List.replicate 6 false)).1 = (twoTriads.play none (List.replicate 6 false)).1 := by
  have hplays : twoTriads.Undisturbed none [List.replicate 6 false, List.replicate 6 true] :=
    ⟨fun _ _ ↦ by decide +kernel, nofun⟩
  exact ⟨atRest_twoTriads, hplays, (play_afterPlays_iff none atRest_twoTriads _).1 hplays _⟩

/-- Stopped after its first tick, it does not start its first chord again. -/
theorem play_after_cut_differs : ¬ ∀ (scales : Scales) (m : PadMotion), m.AtRest scales →
    ∀ plays mutes, ((m.afterPlays scales plays).play scales mutes).1 =
      (m.play scales mutes).1 := by
  intro h
  have hsame := h none twoTriads atRest_twoTriads [[false]] (List.replicate 6 false)
  have hfirst : (twoTriads.play none (List.replicate 6 false)).1.head? =
      some [.queueNoteOn 48 50, .queueNoteOn 52 50, .queueNoteOn 55 50] := by decide +kernel
  have hagain : ((twoTriads.afterPlays none [[false]]).play none
      (List.replicate 6 false)).1.head? = some [] := by decide +kernel
  rw [hsame, hfirst] at hagain
  cases hagain

end PadMotion

end Vuknob
