import Vuknob.Playback.ArpNotes
import Vuknob.Playback.PadOrder

/-!
# Data bytes

`queue_note_on` and its siblings write what they are given into the message as it is,
`src_jni/midi_generation.cc:233–281`. The arpeggiator and the motions of the pad have -1 for no
note, and the configuration of the pad names any controllers it likes.
-/

namespace Vuknob

/-- A byte of a message behind the status byte. -/
def IsDataByte (b : Int) : Prop := 0 ≤ b ∧ b ≤ 127

instance (b : Int) : Decidable (IsDataByte b) := inferInstanceAs (Decidable (_ ∧ _))

/-- A key, or the mark for none. -/
def IsKeyOrNone (b : Int) : Prop := b = -1 ∨ IsDataByte b

instance (b : Int) : Decidable (IsKeyOrNone b) := inferInstanceAs (Decidable (_ ∨ _))

theorem IsDataByte.keyOrNone {b : Int} (h : IsDataByte b) : IsKeyOrNone b := .inr h

theorem IsDataByte.ne_none {b : Int} (h : IsDataByte b) : b ≠ -1 := by
  unfold IsDataByte at h
  omega

theorem IsKeyOrNone.of_ne {b : Int} (h : IsKeyOrNone b) (hne : b ≠ -1) : IsDataByte b :=
  h.resolve_left hne

theorem isKeyOrNone_none : IsKeyOrNone (-1) := .inl rfl

/-- The velocity with which the pad ends its notes. -/
theorem isDataByte_release : IsDataByte 0x7f := by decide

theorem isDataByte_emod (b : Int) : IsDataByte (b % 128) := by
  unfold IsDataByte
  omega

/-- The upper and the lower seven of fourteen bits. -/
theorem isDataByte_split (value : BitVec 14) :
    IsDataByte (value.toNat / 128 : Nat) ∧ IsDataByte (value.toNat % 128 : Nat) := by
  have hlt := value.isLt
  unfold IsDataByte
  omega

namespace PadCall

/-- The two bytes behind the status byte. -/
def dataBytes : PadCall → Int × Int
  | .queueNoteOn note velocity => (note, velocity)
  | .queueNoteOff note velocity => (note, velocity)
  | .queueController controller value => (controller, value)
  | .queuePitchBend valueLsb valueMsb => (valueLsb, valueMsb)

/-- The message of the call is one of MIDI. -/
def WellFormed (c : PadCall) : Prop := IsDataByte c.dataBytes.1 ∧ IsDataByte c.dataBytes.2

instance (c : PadCall) : Decidable c.WellFormed := inferInstanceAs (Decidable (_ ∧ _))

end PadCall

/-! ## The arpeggiator -/

namespace Arpeggiator

/-- The note and the velocities that have been picked up are data bytes, or there is no note. -/
structure InRange (A : Arpeggiator) : Prop where
  note : IsKeyOrNone A.note
  velocity : IsDataByte A.velocity
  fingers : ∀ f ∈ A.finger, IsDataByte f.velocity

theorem inRange_new : InRange .new := by
  refine ⟨?_, ?_, nofun⟩ <;> decide

/-- A motion that starts has picked up nothing yet. -/
theorem InRange.start {A : Arpeggiator} (h : A.InRange) (direction : ArpeggioDirection)
    (id : Option ArpPatternId) : ((A.reset.setDirection direction).setPattern id).InRange :=
  ⟨isKeyOrNone_none, h.velocity, nofun⟩

theorem velocity_countUp {key velocity : Int} {fingers : List ArpFinger} (hv : IsDataByte velocity)
    (h : ∀ f ∈ fingers, IsDataByte f.velocity) :
    ∀ f ∈ ArpFinger.countUp key velocity fingers, IsDataByte f.velocity := by
  induction fingers with
  | nil => exact h
  | cons g rest ih =>
    have hrest : ∀ f ∈ rest, IsDataByte f.velocity := fun f hf ↦ h f (List.mem_cons_of_mem g hf)
    rw [ArpFinger.countUp]
    split
    · exact List.forall_mem_cons.mpr ⟨hv, hrest⟩
    · exact List.forall_mem_cons.mpr ⟨h g List.mem_cons_self, ih hrest⟩

theorem velocity_countDown {key : Int} {fingers : List ArpFinger}
    (h : ∀ f ∈ fingers, IsDataByte f.velocity) :
    ∀ f ∈ ArpFinger.countDown key fingers, IsDataByte f.velocity := by
  induction fingers with
  | nil => exact h
  | cons g rest ih =>
    have hg := h g List.mem_cons_self
    have hrest : ∀ f ∈ rest, IsDataByte f.velocity := fun f hf ↦ h f (List.mem_cons_of_mem g hf)
    rw [ArpFinger.countDown]
    split
    · split
      · exact hrest
      · exact List.forall_mem_cons.mpr ⟨hg, hrest⟩
    · exact List.forall_mem_cons.mpr ⟨hg, ih hrest⟩

theorem InRange.enableKey {A : Arpeggiator} (h : A.InRange) {velocity : Int}
    (hv : IsDataByte velocity) (key : Int) : (A.enableKey key velocity).2.InRange := by
  rw [Arpeggiator.enableKey]
  split
  · exact ⟨h.note, h.velocity, velocity_countUp hv h.fingers⟩
  · split
    · refine ⟨h.note, h.velocity, fun f hf ↦ ?_⟩
      rcases List.mem_append.mp ((ArpFinger.perm_sortKeys _).mem_iff.mp hf) with hf | hf
      · exact h.fingers f hf
      · rw [List.mem_singleton.mp hf]
        exact hv
    · exact h

theorem InRange.disableKey {A : Arpeggiator} (h : A.InRange) (key : Int) :
    (A.disableKey key).InRange := by
  refine ⟨h.note, h.velocity, fun f hf ↦ ?_⟩
  exact velocity_countDown h.fingers f ((ArpFinger.perm_sortKeys _).mem_iff.mp hf)

/-- A pattern is played without sound, and there is no note to be ended. -/
def endsNone (mute : Bool) (A : Arpeggiator) : Bool :=
  mute && A.activePattern.isSome && A.note = -1

/-- Silencing ends the note, also where there is none. -/
theorem InRange.silence {A : Arpeggiator} (h : A.InRange) (mute : Bool) :
    (A.silence mute).2.InRange ∧
      ((∀ c ∈ (A.silence mute).1, c.WellFormed) ↔ ¬ (mute = true ∧ A.note = -1)) := by
  rw [Arpeggiator.silence]
  split
  · next hsilent =>
    refine ⟨⟨isKeyOrNone_none, h.velocity, h.fingers⟩, ?_⟩
    rw [List.forall_mem_singleton]
    show IsDataByte A.note ∧ IsDataByte A.velocity ↔ _
    by_cases hnote : A.note = -1
    · have hmute : mute = true := by simpa [hnote] using hsilent
      exact iff_of_false (fun hc ↦ hc.1.ne_none hnote) (not_not_intro ⟨hmute, hnote⟩)
    · exact iff_of_true ⟨h.note.of_ne hnote, h.velocity⟩ fun hc ↦ hnote hc.2
  · next hsilent =>
    refine ⟨h, iff_of_true (List.forall_mem_nil _) ?_⟩
    rintro ⟨rfl, -⟩
    simp at hsilent

theorem InRange.wrap {A : Arpeggiator} (h : A.InRange) (pattern : List ArpNote) :
    (A.wrap pattern).InRange := by
  rw [Arpeggiator.wrap]
  split
  · exact ⟨h.note, h.velocity, h.fingers⟩
  · exact h

theorem InRange.chooseNote {A B : Arpeggiator} (h : A.InRange) {n : ArpNote}
    (hB : A.chooseNote n = some B) : B.InRange ∧ IsDataByte B.note := by
  have hfinger := (setting_nextFinger A).2.2
  obtain ⟨f, hf, rfl⟩ := Option.map_eq_some_iff.mp hB
  rw [hfinger] at hf
  have hnote : IsDataByte ((f.key + n.octaveOffset * 12) % 128) := isDataByte_emod _
  refine ⟨⟨hnote.keyOrNone, h.fingers f (List.mem_of_getElem? hf), ?_⟩, hnote⟩
  show ∀ f ∈ A.nextFinger.finger, IsDataByte f.velocity
  rw [hfinger]
  exact h.fingers

/-- The phases of a note end what they have started. -/
theorem InRange.playPhase {A : Arpeggiator} (h : A.InRange) (mute : Bool) (n : ArpNote) :
    (A.playPhase mute n).2.InRange ∧ ∀ c ∈ (A.playPhase mute n).1, c.WellFormed := by
  have hended : ∀ velocity, IsDataByte velocity →
      ∀ c ∈ if A.note ≠ -1 then [PadCall.queueNoteOff A.note velocity] else [], c.WellFormed := by
    intro velocity hv
    split
    · next hnote => exact List.forall_mem_singleton.mpr ⟨h.note.of_ne hnote, hv⟩
    · exact List.forall_mem_nil _
  rw [Arpeggiator.playPhase]
  split
  · cases hB : A.chooseNote n with
    | none =>
      refine ⟨⟨isKeyOrNone_none, h.velocity, h.fingers⟩, ?_⟩
      exact List.forall_mem_append.mpr ⟨List.forall_mem_nil _, hended A.velocity h.velocity⟩
    | some B =>
      obtain ⟨hrange, hnote⟩ := h.chooseNote hB
      refine ⟨⟨hrange.note, hrange.velocity, hrange.fingers⟩, ?_⟩
      refine List.forall_mem_append.mpr ⟨?_, hended B.velocity hrange.velocity⟩
      cases mute with
      | true => exact List.forall_mem_nil _
      | false => exact List.forall_mem_singleton.mpr ⟨hnote, hrange.velocity⟩
  · exact ⟨⟨h.note, h.velocity, h.fingers⟩, List.forall_mem_nil _⟩
  · dsimp only
    split
    · next hoff =>
      have hnote : A.note ≠ -1 := by
        rw [Bool.and_eq_true, decide_eq_true_eq] at hoff
        exact hoff.1
      refine ⟨⟨isKeyOrNone_none, h.velocity, h.fingers⟩, ?_⟩
      exact List.forall_mem_singleton.mpr ⟨h.note.of_ne hnote, h.velocity⟩
    · exact ⟨⟨h.note, h.velocity, h.fingers⟩, List.forall_mem_nil _⟩
  · dsimp only
    split
    · exact ⟨⟨h.note, h.velocity, h.fingers⟩, List.forall_mem_nil _⟩
    · exact ⟨⟨h.note, h.velocity, h.fingers⟩, List.forall_mem_nil _⟩

/-- A tick of a pattern is well formed unless it ends a note that is not there. -/
theorem InRange.processPattern {A : Arpeggiator} (h : A.InRange) (mute : Bool) :
    (A.processPattern mute).2.InRange ∧
      ((∀ c ∈ (A.processPattern mute).1, c.WellFormed) ↔ A.endsNone mute = false) := by
  rw [Arpeggiator.processPattern, endsNone]
  cases hpattern : A.activePattern with
  | none => exact ⟨h, iff_of_true (List.forall_mem_nil _) (by simp)⟩
  | some pattern =>
    obtain ⟨hsilence, hcalls⟩ := h.silence mute
    obtain ⟨hrange, hplayed⟩ := (hsilence.wrap pattern).playPhase mute
      (pattern.getD ((A.silence mute).2.wrap pattern).patternIndex ⟨0, 0, 0, false⟩)
    refine ⟨hrange, ?_⟩
    show (∀ c ∈ (A.silence mute).1 ++ _, c.WellFormed) ↔ _
    rw [List.forall_mem_append, and_iff_left hplayed, hcalls]
    simp

/-- While it is muted, a pattern ends a note that is not there. -/
example : (Arpeggiator.new.reset.processPattern true).1 = [.queueNoteOff (-1) 0] := by decide

end Arpeggiator

/-! ## Motions -/

/-- The fine controller of an axis is one of MIDI, or there is none. The coarse one is looked at
before it is used, this one is not, `src_jni/engine_code/pad.cc:737–745`. -/
def axisFits (coarse fine : Int) : Bool := !(0 ≤ coarse && coarse ≤ 127) || IsKeyOrNone fine

theorem axisFits_of_coarse {coarse fine : Int} (h : IsDataByte coarse) :
    axisFits coarse fine = true ↔ IsKeyOrNone fine := by
  have hlow : (0 ≤ coarse && coarse ≤ 127) = true := by simpa [IsDataByte] using h
  rw [axisFits, hlow, Bool.not_true, Bool.false_or, decide_eq_true_iff]

theorem axisFits_of_other {coarse fine : Int} (h : ¬ IsDataByte coarse) :
    axisFits coarse fine = true := by
  have hlow : (0 ≤ coarse && coarse ≤ 127) = false := by simpa [IsDataByte] using h
  rw [axisFits, hlow, Bool.not_false, Bool.true_or]

/-- The two controllers of a value. -/
theorem forall_controllers_iff {coarse fine coarseValue fineValue : Int} (h : IsDataByte coarse)
    (hcoarse : IsDataByte coarseValue) (hfine : IsDataByte fineValue) :
    (∀ c ∈ PadCall.queueController coarse coarseValue ::
        if fine ≠ -1 then [.queueController fine fineValue] else [], c.WellFormed) ↔
      IsKeyOrNone fine := by
  rw [List.forall_mem_cons, and_iff_right ⟨h, hcoarse⟩]
  by_cases hnone : fine = -1
  · rw [if_neg (not_not_intro hnone)]
    exact iff_of_true (List.forall_mem_nil _) (.inl hnone)
  · rw [if_pos hnone, List.forall_mem_singleton]
    exact ⟨fun hc ↦ .inr hc.1, fun hc ↦ ⟨hc.of_ne hnone, hfine⟩⟩

/-- The controllers of both axes. -/
def PadConfiguration.controllersFit (c : PadConfiguration) : Bool :=
  axisFits c.padControllerCoarse.1 c.padControllerFine.1 &&
    axisFits c.padControllerCoarse.2 c.padControllerFine.2

namespace PadMotion

/-- The notes of a motion are keys or none, and its arpeggiator is in range. A motion that is read
from a project file has no defined note until it is played. -/
structure InRange (m : PadMotion) : Prop where
  arperator : m.arperator.InRange
  lastX : 0 ≤ m.index → IsKeyOrNone m.lastX
  lastChord : ∀ k ∈ m.lastChord, IsKeyOrNone k

/-- The keys of a column, those of the chord included. -/
def KeysInRange (m : PadMotion) (padColumn : Nat) : Prop :=
  IsDataByte (m.columnNote padColumn) ∧ ∀ k ∈ m.buildChord padColumn, IsKeyOrNone k

instance (m : PadMotion) (padColumn : Nat) : Decidable (m.KeysInRange padColumn) :=
  inferInstanceAs (Decidable (_ ∧ _))

/-- All keys that are computed in a tick are in range. -/
def inKey (scales : Scales) (m : PadMotion) : Bool :=
  m.finished || m.due.all fun p ↦ (m.atTick scales).KeysInRange p.padColumn

/-- A motion that is to be deleted has no note to end. -/
def endsNone (m : PadMotion) : Bool :=
  m.arpDirection = .arpOff && m.chordMode = .chordOff && m.toBeDeleted && m.lastX = -1

theorem endsNone_eq_true_iff {m : PadMotion} : m.endsNone = true ↔
    m.arpDirection = .arpOff ∧ m.chordMode = .chordOff ∧ m.toBeDeleted = true ∧ m.lastX = -1 := by
  simp only [endsNone, Bool.and_eq_true, decide_eq_true_iff, and_assoc]

/-- A tick ends no note where there is none, and uses the controllers of MIDI only. -/
def playsWell (mute : Bool) (m : PadMotion) : Bool :=
  !m.arperator.endsNone mute &&
    (m.finished || m.due.isEmpty || m.controllersFit && !m.endsNone)

/-- The index of a motion that is not played. -/
theorem not_played : ¬ (0 : Int) ≤ -1 := by decide

theorem InRange.start {m m' : PadMotion} {position : Int} (h : m.InRange)
    (hstart : m.startMotion position = some m') : m'.InRange := by
  obtain ⟨-, rfl⟩ := startMotion_eq_some_iff.mp hstart
  exact ⟨h.arperator.start _ _, fun _ ↦ isKeyOrNone_none, h.lastChord⟩

theorem inRange_new (config : PadConfiguration) (position : Int) (x y z : BitVec 14) :
    (new config position x y z).InRange := by
  refine ⟨Arpeggiator.inRange_new, fun _ ↦ isKeyOrNone_none, fun k hk ↦ ?_⟩
  exact .inl (List.eq_of_mem_replicate hk)

theorem InRange.addPosition {m : PadMotion} (h : m.InRange) (x y z : BitVec 14) :
    (m.addPosition x y z).InRange := by
  rw [PadMotion.addPosition]
  split
  · exact h
  · exact ⟨h.arperator, h.lastX, h.lastChord⟩

theorem forall_axisCalls_iff (coarse fine : Int) (value : BitVec 14) :
    (∀ c ∈ axisCalls coarse fine value, c.WellFormed) ↔ axisFits coarse fine = true := by
  obtain ⟨hcoarse, hfine⟩ := isDataByte_split value
  rw [axisCalls]
  by_cases hlow : (0 ≤ coarse && coarse ≤ 127) = true
  · have hin : IsDataByte coarse := by simpa [IsDataByte] using hlow
    rw [if_pos hlow, axisFits_of_coarse hin, forall_controllers_iff hin hcoarse hfine]
  · have hout : ¬ IsDataByte coarse := by simpa [IsDataByte] using hlow
    rw [if_neg hlow, axisFits_of_other hout]
    refine iff_of_true ?_ rfl
    split
    · exact List.forall_mem_singleton.mpr ⟨hfine, hcoarse⟩
    · nofun

theorem forall_controllerCalls_iff (m : PadMotion) (p : PadPosition) :
    (∀ c ∈ m.controllerCalls p, c.WellFormed) ↔ m.controllersFit = true := by
  rw [controllerCalls, List.forall_mem_append, forall_axisCalls_iff, forall_axisCalls_iff,
    PadConfiguration.controllersFit, Bool.and_eq_true]

theorem isDataByte_velocityAt (m : PadMotion) (p : PadPosition) : IsDataByte (m.velocityAt p) := by
  rw [velocityAt]
  split
  · exact (isDataByte_split p.y).1
  · decide

theorem KeysInRange.chordAt {m : PadMotion} {padColumn : Nat} (h : m.KeysInRange padColumn) :
    ∀ k ∈ m.chordAt padColumn, IsKeyOrNone k := by
  rw [PadMotion.chordAt]
  split
  · exact h.2
  · exact fun k hk ↦ .inl (List.eq_of_mem_replicate hk)

/-- From one chord to the next, notes that are there are ended and started. -/
theorem forall_chordCalls (mute : Bool) {velocity : Int} (hv : IsDataByte velocity)
    {lastChord chord : List Int} (hlast : ∀ k ∈ lastChord, IsKeyOrNone k)
    (hchord : ∀ k ∈ chord, IsKeyOrNone k) :
    ∀ c ∈ chordCalls mute velocity lastChord chord, c.WellFormed := by
  rw [chordCalls, List.forall_mem_flatMap]
  rintro ⟨last, note⟩ hpair
  have hl := hlast last (List.of_mem_zip hpair).1
  have hn := hchord note (List.of_mem_zip hpair).2
  dsimp only
  split
  · refine List.forall_mem_append.mpr ⟨?_, ?_⟩
    · split
      · next hne => exact List.forall_mem_singleton.mpr ⟨hl.of_ne hne, isDataByte_release⟩
      · nofun
    · split
      · next hon =>
        rw [Bool.and_eq_true, decide_eq_true_iff] at hon
        exact List.forall_mem_singleton.mpr ⟨hn.of_ne hon.1, hv⟩
      · nofun
  · nofun

/-- From one note to the next, notes that are there are ended and started; a motion that is to be
deleted ends its note without looking. -/
theorem forall_noteCalls_iff {m : PadMotion} (h : IsKeyOrNone m.lastX) (mute : Bool)
    {velocity note : Int} (hv : IsDataByte velocity) (hn : IsDataByte note) :
    (∀ c ∈ m.noteCalls mute velocity note, c.WellFormed) ↔
      ¬ (m.toBeDeleted = true ∧ m.lastX = -1) := by
  rw [noteCalls]
  split
  · next hnew =>
    rw [Bool.and_eq_true, Bool.not_eq_true'] at hnew
    refine iff_of_true (List.forall_mem_append.mpr ⟨?_, ?_⟩) fun hdeleted ↦ ?_
    · split
      · exact List.forall_mem_singleton.mpr ⟨hn, hv⟩
      · nofun
    · split
      · next hlast => exact List.forall_mem_singleton.mpr ⟨h.of_ne hlast, isDataByte_release⟩
      · nofun
    · exact absurd (hnew.1.symm.trans hdeleted.1) nofun
  · next hold =>
    split
    · rw [List.forall_mem_singleton]
      show IsDataByte m.lastX ∧ IsDataByte 0x7f ↔ _
      rw [and_iff_left isDataByte_release]
      by_cases hlast : m.lastX = -1
      · refine iff_of_false (fun hc ↦ hc.ne_none hlast) (not_not_intro ⟨?_, hlast⟩)
        -- it is to be deleted, as the note before would else be the note now
        cases hdeleted : m.toBeDeleted with
        | true => rfl
        | false =>
          have hsame : m.lastX = note := by simpa [hdeleted] using hold
          exact absurd (hsame.symm.trans hlast) hn.ne_none
      · exact iff_of_true (h.of_ne hlast) fun hc ↦ hlast hc.2
    · next hnot =>
      refine iff_of_true nofun fun hdeleted ↦ ?_
      rw [hdeleted.1, Bool.true_or] at hnot
      exact hnot rfl

theorem isKeyOrNone_enableKey {B : Arpeggiator} {key velocity : Int} (h : IsKeyOrNone key) :
    IsKeyOrNone (B.enableKey key velocity).1 := by
  rcases B.fst_enableKey key velocity with hkey | hkey
  · exact .inl hkey
  · rw [hkey]
    exact h

/-- The keys of a chord that can be enabled, and none where one cannot. -/
theorem InRange.arpChord {velocity : Int} (hv : IsDataByte velocity) {pairs : List (Int × Int)}
    {A : Arpeggiator} (h : A.InRange) (hchord : ∀ pair ∈ pairs, IsKeyOrNone pair.2) :
    (arpChord velocity pairs A).2.InRange ∧ A.SameSound (arpChord velocity pairs A).2 ∧
      ∀ k ∈ (arpChord velocity pairs A).1, IsKeyOrNone k := by
  induction pairs generalizing A with
  | nil => exact ⟨h, .refl A, nofun⟩
  | cons pair rest ih =>
    obtain ⟨last, note⟩ := pair
    obtain ⟨hnote, hrest⟩ := List.forall_mem_cons.mp hchord
    have hoff : ∃ B : Arpeggiator, (if last ≠ -1 then A.disableKey last else A) = B ∧
        B.InRange ∧ A.SameSound B := by
      refine ⟨_, rfl, ?_⟩
      split
      · exact ⟨h.disableKey last, A.sameSound_disableKey last⟩
      · exact ⟨h, .refl A⟩
    obtain ⟨B, hB, hrange, hsame⟩ := hoff
    have hon : ∃ (key : Int) (C : Arpeggiator),
        (if note ≠ -1 then B.enableKey note velocity else (note, B)) = (key, C) ∧
        C.InRange ∧ B.SameSound C ∧ IsKeyOrNone key := by
      by_cases hne : note ≠ -1
      · rw [if_pos hne]
        exact ⟨_, _, rfl, hrange.enableKey hv note, B.sameSound_enableKey note velocity,
          isKeyOrNone_enableKey hnote⟩
      · rw [if_neg hne]
        exact ⟨note, B, rfl, hrange, .refl B, hnote⟩
    obtain ⟨key, C, hC, hrange', hsame', hkey⟩ := hon
    obtain ⟨hlast, hall, hkeys⟩ := ih hrange' hrest
    rw [PadMotion.arpChord, hB, hC]
    exact ⟨hlast, (hsame.trans hsame').trans hall, List.forall_mem_cons.mpr ⟨hkey, hkeys⟩⟩

/-- The key that can be enabled, or none. -/
theorem InRange.arpNote {m : PadMotion} (h : m.InRange) {velocity note : Int}
    (hv : IsDataByte velocity) (hn : IsDataByte note) :
    (m.arpNote velocity note).2.InRange ∧ m.arperator.SameSound (m.arpNote velocity note).2 ∧
      IsKeyOrNone (m.arpNote velocity note).1 := by
  have hoff : (m.arperator.disableKey m.lastX).InRange ∧
      m.arperator.SameSound (m.arperator.disableKey m.lastX) :=
    ⟨h.arperator.disableKey m.lastX, m.arperator.sameSound_disableKey m.lastX⟩
  rw [PadMotion.arpNote]
  split
  · have hnow : ∃ B : Arpeggiator,
        (if m.lastX ≠ -1 then m.arperator.disableKey m.lastX else m.arperator) = B ∧
        B.InRange ∧ m.arperator.SameSound B := by
      refine ⟨_, rfl, ?_⟩
      split
      · exact hoff
      · exact ⟨h.arperator, .refl _⟩
    obtain ⟨B, hB, hrange, hsame⟩ := hnow
    dsimp only
    rw [hB]
    split
    · exact ⟨hrange.enableKey hv note, hsame.trans (B.sameSound_enableKey note velocity),
        isKeyOrNone_enableKey hn.keyOrNone⟩
    · exact ⟨hrange, hsame, hn.keyOrNone⟩
  · exact ⟨hoff.1, hoff.2, hn.keyOrNone⟩

/-- What a round does about the notes: it keeps them in range, and a plain motion has one then. -/
structure Sounded (m m' : PadMotion) : Prop where
  inRange : m'.InRange
  sameSound : m.arperator.SameSound m'.arperator
  note : m.arpDirection = .arpOff → m'.lastX ≠ -1

theorem InRange.playPosition {m : PadMotion} (h : m.InRange) (hindex : 0 ≤ m.index)
    {p : PadPosition} (hkeys : m.KeysInRange p.padColumn) (mute : Bool) :
    Sounded m (m.playPosition mute p).2 ∧
      ((∀ c ∈ (m.playPosition mute p).1, c.WellFormed) ↔
        (m.controllersFit && !m.endsNone) = true) := by
  have hv := m.isDataByte_velocityAt p
  have hchord := hkeys.chordAt
  rw [PadMotion.playPosition, Bool.and_eq_true, Bool.not_eq_true', ← Bool.not_eq_true,
    endsNone_eq_true_iff]
  dsimp only
  split
  · next hdirection hmode =>
    refine ⟨⟨⟨h.arperator, fun _ ↦ hkeys.1.keyOrNone, hchord⟩, .refl _, fun _ ↦ hkeys.1.ne_none⟩,
      ?_⟩
    rw [List.forall_mem_append, forall_controllerCalls_iff,
      forall_noteCalls_iff (h.lastX hindex) mute hv hkeys.1]
    simp only [hdirection, hmode, true_and]
  · next hdirection hmode =>
    refine ⟨⟨⟨h.arperator, fun _ ↦ hkeys.1.keyOrNone, hchord⟩, .refl _, fun _ ↦ hkeys.1.ne_none⟩,
      ?_⟩
    rw [List.forall_mem_append, forall_controllerCalls_iff,
      and_iff_left (forall_chordCalls mute hv h.lastChord hchord)]
    exact (and_iff_left fun hnone ↦ hmode hnone.2.1).symm
  · next hmode hdirection =>
    obtain ⟨hrange, hsame, hnote⟩ := h.arpNote hv hkeys.1
    refine ⟨⟨⟨hrange, fun _ ↦ hnote, hchord⟩, hsame, fun hoff ↦ absurd hoff hdirection⟩, ?_⟩
    rw [forall_controllerCalls_iff]
    exact (and_iff_left fun hnone ↦ hdirection hnone.1).symm
  · next hdirection hmode =>
    have hpairs : ∀ pair ∈ m.lastChord.zip (m.chordAt p.padColumn), IsKeyOrNone pair.2 := by
      rintro ⟨last, note⟩ hpair
      exact hchord note (List.of_mem_zip hpair).2
    obtain ⟨hrange, hsame, hnotes⟩ := InRange.arpChord hv h.arperator hpairs
    refine ⟨⟨⟨hrange, fun _ ↦ hkeys.1.keyOrNone, hnotes⟩, hsame, fun _ ↦ hkeys.1.ne_none⟩, ?_⟩
    rw [forall_controllerCalls_iff, and_iff_left]
    rintro ⟨hoff, hchords, -⟩
    exact hmode hoff hchords

theorem Rounds.keysInRange_iff {n : Nat} {m m' : PadMotion} (h : Rounds n m m') (padColumn : Nat) :
    m'.KeysInRange padColumn ↔ m.KeysInRange padColumn := by
  unfold Rounds at h
  rw [h]
  rfl

/-- The loop over the positions that are due. Behind the first one a motion has a note. -/
theorem InRange.playPositions {m : PadMotion} (h : m.InRange) (hindex : 0 ≤ m.index) (mute : Bool)
    {positions : List PadPosition}
    (hkeys : ∀ p ∈ positions.takeWhile fun p ↦ p.t ≤ m.crntTick, m.KeysInRange p.padColumn) :
    (m.playPositions mute positions).2.InRange ∧
      m.arperator.SameSound (m.playPositions mute positions).2.arperator ∧
      ((∀ c ∈ (m.playPositions mute positions).1, c.WellFormed) ↔
        (positions.takeWhile fun p ↦ p.t ≤ m.crntTick) = [] ∨
          (m.controllersFit && !m.endsNone) = true) := by
  induction positions generalizing m with
  | nil => exact ⟨h, .refl _, iff_of_true (List.forall_mem_nil _) (.inl rfl)⟩
  | cons p rest ih =>
    rw [PadMotion.playPositions]
    split
    · next hdue =>
      have htake : (p :: rest).takeWhile (fun p ↦ decide (p.t ≤ m.crntTick)) =
          p :: rest.takeWhile fun p ↦ p.t ≤ m.crntTick :=
        List.takeWhile_cons_of_pos (by simpa using hdue)
      rw [htake, List.forall_mem_cons] at hkeys
      obtain ⟨hsounded, hcalls⟩ := h.playPosition hindex hkeys.1 mute
      have hround := rounds_playPosition mute p m
      have hnext : 0 ≤ (m.playPosition mute p).2.index := by
        rw [hround.index]
        omega
      obtain ⟨hrange, hsame, hmore⟩ := ih hsounded.inRange hnext fun q hq ↦ by
        rw [hround.crntTick] at hq
        exact (hround.keysInRange_iff q.padColumn).mpr (hkeys.2 q hq)
      -- the rounds behind the first one find a note
      have hfit : ((m.playPosition mute p).2.controllersFit &&
          !(m.playPosition mute p).2.endsNone) = m.controllersFit := by
        have hends : (m.playPosition mute p).2.endsNone = false := by
          refine Bool.not_eq_true _ |>.mp fun hnone ↦ ?_
          obtain ⟨hoff, -, -, hlast⟩ := endsNone_eq_true_iff.mp hnone
          rw [hround.toPadConfiguration] at hoff
          exact hsounded.note hoff hlast
        rw [hends, hround.toPadConfiguration, Bool.not_false, Bool.and_true]
      refine ⟨hrange, hsounded.sameSound.trans hsame, ?_⟩
      rw [List.forall_mem_append, hcalls, hmore, hfit, htake]
      constructor
      · exact fun hboth ↦ .inr hboth.1
      · rintro (hnil | hone)
        · cases hnil
        · exact ⟨hone, .inr (Bool.and_eq_true_iff.mp hone).1⟩
    · next hlater =>
      have htake : (p :: rest).takeWhile (fun p ↦ decide (p.t ≤ m.crntTick)) = [] :=
        List.takeWhile_cons_of_neg (by simpa using hlater)
      exact ⟨h, .refl _, iff_of_true (List.forall_mem_nil _) (.inl htake)⟩

theorem InRange.atTick {m : PadMotion} (h : m.InRange) (scales : Scales) :
    (m.atTick scales).InRange ∧ (m.atTick scales).arperator = m.arperator ∧
      (m.atTick scales).toPadConfiguration = m.toPadConfiguration ∧
      (m.atTick scales).endsNone = m.endsNone := by
  rw [PadMotion.atTick, readScale]
  split
  · exact ⟨⟨h.arperator, h.lastX, h.lastChord⟩, rfl, rfl, rfl⟩
  · exact ⟨⟨h.arperator, h.lastX, h.lastChord⟩, rfl, rfl, rfl⟩

/-- A tick of a motion. -/
theorem InRange.processMotion {m : PadMotion} (h : m.InRange) (hindex : 0 ≤ m.index)
    {scales : Scales} (hkeys : m.inKey scales = true) (mute : Bool) :
    (m.processMotion mute scales).2.2.InRange ∧
      ((∀ c ∈ (m.processMotion mute scales).1, c.WellFormed) ↔ m.playsWell mute = true) := by
  rw [playsWell]
  cases hfinished : m.finished with
  | true =>
    obtain ⟨hrange, hcalls⟩ := h.arperator.processPattern mute
    rw [processMotion_of_finished hfinished]
    refine ⟨⟨hrange, fun hplayed ↦ absurd hplayed not_played, h.lastChord⟩, ?_⟩
    rw [hcalls]
    simp
  | false =>
    obtain ⟨m₁, hm₁, -, heq⟩ := processMotion_of_not_finished hfinished mute scales
    obtain ⟨hstart, harp, hconfig, hnone⟩ := h.atTick scales
    have hdue : ∀ p ∈ (m.positions.drop m.index.toNat).takeWhile fun p ↦
        p.t ≤ (m.atTick scales).crntTick, (m.atTick scales).KeysInRange p.padColumn := by
      rw [inKey, hfinished, Bool.false_or, List.all_eq_true] at hkeys
      rw [crntTick_atTick]
      exact fun p hp ↦ of_decide_eq_true (hkeys p hp)
    obtain ⟨hrange, hsame, hcalls⟩ :=
      hstart.playPositions (index_atTick scales m ▸ hindex) mute hdue
    rw [hm₁] at hrange hsame
    rw [harp] at hsame
    obtain ⟨hrange', hpattern⟩ := hrange.arperator.processPattern mute
    have hquiet : m₁.arperator.endsNone mute = m.arperator.endsNone mute := by
      rw [Arpeggiator.endsNone, hsame.activePattern, hsame.note, Arpeggiator.endsNone]
    rw [heq]
    refine ⟨⟨hrange', hrange.lastX, hrange.lastChord⟩, ?_⟩
    rw [List.forall_mem_append, hcalls, hconfig, hnone, crntTick_atTick]
    show (m.due = [] ∨ _) ∧ (∀ c ∈ (m₁.arperator.processPattern mute).1, c.WellFormed) ↔ _
    rw [hpattern, hquiet, Bool.false_or, ← List.isEmpty_iff, ← Bool.or_eq_true,
      ← Bool.not_eq_true', and_comm, ← Bool.and_eq_true]

end PadMotion

/-! ## Fingers -/

namespace PadFinger

/-- All motions of the finger are in range; those that are played have an index, and none is played
twice. -/
structure InRange (F : PadFinger) : Prop where
  motions : ∀ k, (F.motions k).InRange
  nodup : F.playingMotions.Nodup
  playing : ∀ k ∈ F.playingMotions, k < F.fresh ∧ 0 ≤ (F.motions k).index
  recorded : ∀ k ∈ F.recorded, k < F.fresh

/-- The motions that a tick of the finger plays. -/
def played (mute : Bool) (position : Int) (F : PadFinger) : List PadMotion :=
  let F := F.startRecorded mute position
  F.playingMotions.map F.motions

theorem inRange_new : InRange .new := ⟨fun _ ↦ PadMotion.inRange_new .., .nil, nofun, nofun⟩

theorem InRange.press {F : PadFinger} (h : F.InRange) (config : PadConfiguration) (pe : PadEvent)
    (position : Int) : (F.press config pe position).InRange := by
  rw [PadFinger.press]
  split
  · next m hm =>
    have hindex : m.index = 0 := by rw [(PadMotion.startMotion_eq_some_iff.mp hm).2]
    have hothers : ∀ k, k < F.fresh → Function.update F.motions F.fresh m k = F.motions k :=
      fun k hk ↦ Function.update_of_ne hk.ne ..
    refine ⟨fun k ↦ ?_, ?_, fun k hk ↦ ?_, fun k hk ↦ Nat.lt_succ_of_lt (h.recorded k hk)⟩
    · show (Function.update F.motions F.fresh m k).InRange
      rw [Function.update_apply]
      split
      · exact (PadMotion.inRange_new ..).start hm
      · exact h.motions k
    · refine List.nodup_append'.mpr ⟨h.nodup, List.nodup_singleton _, fun k hk hnew ↦ ?_⟩
      have hlt := (h.playing k hk).1
      rw [List.mem_singleton.mp hnew] at hlt
      exact Nat.lt_irrefl _ hlt
    · show k < F.fresh + 1 ∧ 0 ≤ (Function.update F.motions F.fresh m k).index
      rcases List.mem_append.mp hk with hk | hk
      · obtain ⟨hlt, hplayed⟩ := h.playing k hk
        rw [hothers k hlt]
        exact ⟨Nat.lt_succ_of_lt hlt, hplayed⟩
      · rw [List.mem_singleton.mp hk, Function.update_self, hindex]
        exact ⟨Nat.lt_succ_self _, Int.le_refl 0⟩
  · exact ⟨h.motions, h.nodup, h.playing, h.recorded⟩

theorem InRange.onCurrent {F : PadFinger} (h : F.InRange) {change : PadMotion → PadMotion}
    (hchange : ∀ m : PadMotion, m.InRange → (change m).InRange)
    (hindex : ∀ m, (change m).index = m.index) : (F.onCurrent change).InRange := by
  rw [PadFinger.onCurrent]
  split
  · next j _ =>
    have hsame : ∀ k, (Function.update F.motions j (change (F.motions j)) k).index =
        (F.motions k).index := by
      intro k
      rw [Function.update_apply]
      split
      · next hk => rw [hk, hindex]
      · rfl
    refine ⟨fun k ↦ ?_, h.nodup, fun k hk ↦ ?_, h.recorded⟩
    · show (Function.update F.motions j (change (F.motions j)) k).InRange
      rw [Function.update_apply]
      split
      · exact hchange _ (h.motions j)
      · exact h.motions k
    · show k < F.fresh ∧ 0 ≤ (Function.update F.motions j (change (F.motions j)) k).index
      rw [hsame]
      exact h.playing k hk
  · exact h

theorem InRange.processFingerEvents {F : PadFinger} (h : F.InRange) (config : PadConfiguration)
    (pe : PadEvent) (position : Int) : (F.processFingerEvents config pe position).InRange := by
  have hindex : ∀ m : PadMotion, (m.addPosition pe.x pe.y pe.z).index = m.index := by
    intro m
    rw [PadMotion.addPosition]
    split <;> rfl
  rw [PadFinger.processFingerEvents]
  split
  · exact h
  · split
    · exact h.press config pe _
    · refine h.onCurrent (fun m hm ↦ ?_) hindex
      obtain ⟨harp, hlast, hchord⟩ := hm.addPosition pe.x pe.y pe.z
      exact ⟨harp, hlast, hchord⟩
    · exact h.onCurrent (fun m hm ↦ hm.addPosition pe.x pe.y pe.z) hindex
    · exact h

theorem InRange.startRecorded {F : PadFinger} (h : F.InRange) (mute : Bool) (position : Int) :
    (F.startRecorded mute position).InRange := by
  rcases startRecorded_cases mute position F with ⟨first, rest, hstarted⟩ | heq
  · generalize F.startRecorded mute position = F' at hstarted
    have hfirst : ∀ k ∈ first, k < F.fresh ∧ (F'.motions k).index = 0 := by
      intro k hk
      have hupcoming : k ∈ F.upcoming := hstarted.list ▸ List.mem_append_left _ hk
      rw [(PadMotion.startMotion_eq_some_iff.mp (hstarted.started k hk)).2]
      exact ⟨h.recorded k (mem_recorded_of_mem_upcoming hupcoming), rfl⟩
    -- a motion that is played has an index and does not start
    have hapart : ∀ k ∈ F.playingMotions, k ∉ first := by
      intro k hk hmem
      have hnone := (PadMotion.startMotion_eq_some_iff.mp (hstarted.started k hmem)).1.1
      have := (h.playing k hk).2
      omega
    have hplaying : F'.playingMotions = F.playingMotions ++ first := by rw [hstarted.finger]
    have hfresh : F'.fresh = F.fresh := by rw [hstarted.finger]
    have hrecorded : F'.recorded = F.recorded := by rw [hstarted.finger]
    refine ⟨fun k ↦ ?_, ?_, fun k hk ↦ ?_, ?_⟩
    · by_cases hk : k ∈ first
      · exact (h.motions k).start (hstarted.started k hk)
      · rw [hstarted.others k hk]
        exact h.motions k
    · rw [hplaying, List.nodup_append']
      exact ⟨h.nodup, hstarted.nodup, fun k hk hmem ↦ hapart k hk hmem⟩
    · rw [hplaying] at hk
      rw [hfresh]
      rcases List.mem_append.mp hk with hk | hk
      · rw [hstarted.others k (hapart k hk)]
        exact h.playing k hk
      · exact ⟨(hfirst k hk).1, (hfirst k hk).2.ge⟩
    · rw [hrecorded, hfresh]
      exact h.recorded
  · rw [heq]
    exact ⟨h.motions, h.nodup, h.playing, h.recorded⟩

/-- A tick of a finger is well formed if every motion of it plays well. -/
theorem InRange.processFingerMotions {F : PadFinger} (h : F.InRange) (doRecord mute : Bool)
    (position : Int) (quantize : Bool) {scales : Scales}
    (hkeys : ∀ m ∈ F.played mute position, m.inKey scales = true) :
    (F.processFingerMotions doRecord mute position quantize scales).2.InRange ∧
      ((∀ c ∈ (F.processFingerMotions doRecord mute position quantize scales).1, c.WellFormed) ↔
        ∀ m ∈ F.played mute position, m.playsWell mute = true) := by
  have hstart := h.startRecorded mute position
  have hticked := ticked_playMotions doRecord mute quantize scales hstart.nodup hstart.nodup
  rw [PadFinger.played, List.forall_mem_map] at hkeys ⊢
  rw [PadFinger.processFingerMotions]
  generalize F.startRecorded mute position = G at hstart hticked hkeys ⊢
  generalize G.playMotions doRecord mute quantize scales G.playingMotions = played at hticked
  have hmotion := fun j hj ↦
    (hstart.motions j).processMotion (hstart.playing j hj).2 (hkeys j hj) mute
  have hgoing : ∀ j, j ∈ played.2.playingMotions ↔
      j ∈ G.playingMotions ∧ (G.motions j).finished = false := by
    intro j
    rw [hticked.playing, List.mem_filter, decide_eq_true_iff]
    exact and_congr_right fun hj ↦ or_iff_right (not_not_intro hj)
  refine ⟨⟨fun j ↦ ?_, ?_, fun j hj ↦ ?_, fun j hj ↦ ?_⟩, ?_⟩
  · by_cases hj : j ∈ G.playingMotions
    · have hrange := (hmotion j hj).1
      cases hfinished : (G.motions j).finished with
      | false => exact hticked.going j hj hfinished ▸ hrange
      | true =>
        obtain ⟨startTick, heq⟩ := hticked.gone j hj hfinished
        rw [heq]
        exact ⟨hrange.arperator, hrange.lastX, hrange.lastChord⟩
    · exact hticked.others j hj ▸ hstart.motions j
  · rw [hticked.playing]
    exact hstart.nodup.filter _
  · obtain ⟨hj, hfinished⟩ := (hgoing j).mp hj
    obtain ⟨hlt, hindex⟩ := hstart.playing j hj
    rw [hticked.fresh, hticked.going j hj hfinished, PadMotion.index_processMotion hfinished]
    exact ⟨hlt, by omega⟩
  · rw [hticked.fresh]
    rcases hticked.recorded j hj with hj | ⟨hj, -⟩
    · exact hstart.recorded j hj
    · exact (hstart.playing j hj).1
  · rw [hticked.calls, List.forall_mem_flatMap]
    exact forall₂_congr fun j hj ↦ (hmotion j hj).2

theorem InRange.deletePadFinger {F : PadFinger} (h : F.InRange) : F.deletePadFinger.InRange := by
  have hsame : ∀ k, F.deletePadFinger.motions k = F.motions k ∨
      F.deletePadFinger.motions k = { F.motions k with toBeDeleted := true } := by
    intro k
    rw [PadFinger.deletePadFinger]
    dsimp only
    split
    · exact .inr rfl
    · exact .inl rfl
  refine ⟨fun k ↦ ?_, h.nodup, fun k hk ↦ ?_, List.forall_mem_nil _⟩
  · have hm := h.motions k
    rcases hsame k with heq | heq
    · exact heq ▸ hm
    · exact heq ▸ ⟨hm.arperator, hm.lastX, hm.lastChord⟩
  · have hplaying := h.playing k hk
    rcases hsame k with heq | heq
    · exact heq ▸ hplaying
    · exact heq ▸ hplaying

theorem InRange.terminate {F : PadFinger} (h : F.InRange) : F.terminate.InRange :=
  h.onCurrent (fun _ hm ↦ ⟨hm.arperator, hm.lastX, hm.lastChord⟩) fun _ ↦ rfl

theorem InRange.startFromTheTop {F : PadFinger} (h : F.InRange) : F.startFromTheTop.InRange :=
  ⟨h.motions, .nil, nofun, h.recorded⟩

theorem InRange.reset {F : PadFinger} (h : F.InRange) : F.reset.InRange := by
  refine ⟨fun k ↦ ?_, .nil, nofun, h.recorded⟩
  have hm := h.motions k
  rw [PadFinger.reset]
  dsimp only
  split
  · exact ⟨hm.arperator, fun hplayed ↦ absurd hplayed PadMotion.not_played, hm.lastChord⟩
  · exact hm

end PadFinger

/-! ## Sessions -/

namespace PadSession

/-- All motions of the session are in range. -/
def InRange (s : PadSession) : Prop := ∀ f, (s.finger f).InRange

/-- The motions that a tick of the session plays. -/
def played (mute : Bool) (tick : Int) (s : PadSession) : List PadMotion :=
  let s := s.startPlay tick
  if s.inPlay then
    (List.finRange 5).flatMap fun f ↦ (s.finger f).played mute (s.playbackPosition + 1)
  else []

theorem InRange.startPlay {s : PadSession} (h : s.InRange) (tick : Int) :
    (s.startPlay tick).InRange := by
  rw [PadSession.startPlay]
  split
  · exact h
  · split
    · exact fun f ↦ (h f).startFromTheTop
    · exact h

/-- A tick of a session is well formed if every motion of it plays well. -/
theorem InRange.play {s : PadSession} (h : s.InRange)
    (doRecord noSound quantize : Bool) (tick : Int) {scales : Scales}
    (hkeys : ∀ m ∈ s.played noSound tick, m.inKey scales = true) :
    (∀ s', (s.play doRecord noSound quantize tick scales).2 = some s' → s'.InRange) ∧
      ((∀ c ∈ (s.play doRecord noSound quantize tick scales).1, c.WellFormed) ↔
        ∀ m ∈ s.played noSound tick, m.playsWell noSound = true) := by
  have hstart := h.startPlay tick
  rw [PadSession.played] at hkeys ⊢
  rw [PadSession.play]
  generalize s.startPlay tick = s at hstart hkeys ⊢
  dsimp only at hkeys ⊢
  split
  · next hplay =>
    rw [if_pos hplay, List.forall_mem_flatMap] at hkeys
    have hfinger := fun f ↦ (hstart f).processFingerMotions doRecord noSound
      (s.playbackPosition + 1) quantize (hkeys f (List.mem_finRange f))
    refine ⟨fun s' hs' ↦ ?_, ?_⟩
    · split at hs'
      · cases hs'
      · obtain rfl := Option.some.inj hs'
        exact fun f ↦ (hfinger f).1
    · show (∀ c ∈ (s.processSession doRecord noSound quantize scales).1, c.WellFormed) ↔ _
      rw [PadSession.processSession, List.forall_mem_flatMap, List.forall_mem_flatMap]
      exact forall₂_congr fun f _ ↦ (hfinger f).2
  · refine ⟨fun s' hs' ↦ ?_, iff_of_true (List.forall_mem_nil _) (List.forall_mem_nil _)⟩
    obtain rfl := Option.some.inj hs'
    exact hstart

end PadSession

/-! ## The pad -/

/-- The scales that an operation finds. -/
def PadOp.scales : PadOp → Scales
  | .process _ _ around => around.scales
  | _ => none

namespace Pad

/-- All motions of the pad are in range. -/
def InRange (p : Pad) : Prop := ∀ s ∈ p.recordedSessions, s.InRange

/-- The motions that a tick of the sessions plays, and whether they are muted. -/
def playedSessions (mute : Bool) (tick : Int) (p : Pad) : List (Bool × PadMotion) :=
  (p.sessions.flatMap fun s ↦ (s.played mute tick).map fun m ↦ (mute, m)) ++
    p.currentSession.toList.flatMap fun s ↦ (s.played false tick).map fun m ↦ (false, m)

/-- The motions that an operation plays, and whether they are muted. -/
def played (p : Pad) : PadOp → List (Bool × PadMotion)
  | .process mute tick around => (p.processEvents tick around.loop).playedSessions mute tick
  | _ => []

/-- All keys that an operation computes are in range. -/
def inKey (p : Pad) (op : PadOp) : Bool := (p.played op).all fun e ↦ e.2.inKey op.scales

/-- Every motion that an operation plays ends no note where there is none, and uses the controllers
of MIDI only. -/
def playsWell (p : Pad) (op : PadOp) : Bool := (p.played op).all fun e ↦ e.2.playsWell e.1

theorem inRange_new : InRange .new := nofun

theorem InRange.processEvent {p : Pad} (h : p.InRange) (tick : Int) (loop : Option (Int × Int))
    (pe : PadEvent) : (Pad.processEvent tick loop p pe).InRange := by
  cases hf : pe.fingerId with
  | none =>
    rw [Pad.processEvent, hf]
    exact h
  | some f =>
    obtain ⟨s, made, hs, heq⟩ := p.processEvent_eq tick loop hf
    have hsession : s.InRange := by
      rcases hs with ⟨hs, -⟩ | ⟨-, rfl, -⟩
      · exact h s (mem_recordedSessions hs)
      · exact fun _ ↦ PadFinger.inRange_new
    rw [heq]
    intro t ht
    rcases List.mem_append.mp ht with ht | ht
    · exact h t (List.mem_append_left _ ht)
    · rw [List.mem_singleton.mp ht]
      intro g
      show (Function.update s.finger f _ g).InRange
      rw [Function.update_apply]
      split
      · exact (hsession f).processFingerEvents p.config pe s.playbackPosition
      · exact hsession g

theorem InRange.processEvents {p : Pad} (h : p.InRange) (tick : Int) (loop : Option (Int × Int)) :
    (p.processEvents tick loop).InRange := by
  have hevents : ∀ (events : List PadEvent) (q : Pad), q.InRange →
      (events.foldl (Pad.processEvent tick loop) q).InRange := by
    intro events
    induction events with
    | nil => exact fun _ hq ↦ hq
    | cons pe events ih => exact fun q hq ↦ ih _ (hq.processEvent tick loop pe)
  exact hevents p.padEventQueue _ h

/-- A tick of the sessions is well formed if every motion of them plays well. -/
theorem InRange.processSessions {p : Pad} (h : p.InRange) (mute : Bool)
    (tick : Int) {scales : Scales}
    (hkeys : ∀ e ∈ p.playedSessions mute tick, e.2.inKey scales = true) :
    (p.processSessions mute tick scales).2.InRange ∧
      ((∀ c ∈ (p.processSessions mute tick scales).1, c.WellFormed) ↔
        ∀ e ∈ p.playedSessions mute tick, e.2.playsWell e.1 = true) := by
  rw [playedSessions, List.forall_mem_append, List.forall_mem_flatMap, List.forall_mem_flatMap]
    at hkeys
  simp only [List.forall_mem_map] at hkeys
  have hothers := fun s hs ↦ (h s (List.mem_append_left _ hs)).play p.doRecord mute p.doQuantize
    tick (hkeys.1 s hs)
  have hcurrent := fun s hs ↦ (h s (List.mem_append_right _ hs)).play p.doRecord false p.doQuantize
    tick (hkeys.2 s hs)
  refine ⟨fun s' hs' ↦ ?_, ?_⟩
  · rcases List.mem_append.mp hs' with hs' | hs'
    · obtain ⟨s, hs, heq⟩ := List.mem_filterMap.mp hs'
      exact (hothers s hs).1 s' heq
    · obtain ⟨s, hs, heq⟩ := Option.bind_eq_some_iff.mp (Option.mem_toList.mp hs')
      exact (hcurrent s (Option.mem_toList.mpr hs)).1 s' heq
  · rw [playedSessions, List.forall_mem_append, List.forall_mem_flatMap, List.forall_mem_flatMap]
    simp only [List.forall_mem_map]
    rw [Pad.processSessions, List.forall_mem_append, List.forall_mem_flatMap,
      List.forall_mem_flatMap]
    exact and_congr (forall₂_congr fun s hs ↦ (hothers s hs).2)
      (forall₂_congr fun s hs ↦ (hcurrent s hs).2)

theorem InRange.reset {p : Pad} (h : p.InRange) : p.reset.InRange := by
  intro s' hs'
  rw [Pad.recordedSessions, Pad.reset, Option.toList_none, List.append_nil] at hs'
  obtain ⟨s, hs, rfl⟩ := List.mem_map.mp hs'
  exact fun f ↦ (h s (List.mem_append_left _ hs) f).reset

theorem InRange.internalSetRecord {p : Pad} (h : p.InRange) (doRecord : Bool) :
    (p.internalSetRecord doRecord).InRange := by
  rw [Pad.internalSetRecord]
  split
  · exact h
  · intro s' hs'
    rw [Pad.recordedSessions, Option.toList_none, List.append_nil] at hs'
    rcases List.mem_append.mp hs' with hs' | hs'
    · exact h s' (List.mem_append_left _ hs')
    · obtain ⟨s, hs, rfl⟩ := Option.map_eq_some_iff.mp (Option.mem_toList.mp hs')
      have hsession := h s (mem_recordedSessions hs)
      split
      · exact fun f ↦ (hsession f).terminate
      · exact fun f ↦ (hsession f).deletePadFinger

theorem InRange.internalClearPad {p : Pad} (h : p.InRange) : p.internalClearPad.InRange := by
  intro s' hs'
  rw [Pad.recordedSessions, Pad.internalClearPad, Option.toList_none, List.append_nil] at hs'
  obtain ⟨s, hs, rfl⟩ := List.mem_map.mp hs'
  exact fun f ↦ (h s hs f).deletePadFinger

/-- Every operation keeps the motions in range, and is well formed if all motions that it plays play
well. -/
theorem InRange.perform {p : Pad} (h : p.InRange) {op : PadOp}
    (hkeys : p.inKey op = true) : (p.perform op).2.InRange ∧
      ((∀ c ∈ (p.perform op).1, c.WellFormed) ↔ p.playsWell op = true) := by
  rw [inKey, List.all_eq_true] at hkeys
  rw [playsWell, List.all_eq_true]
  have hnone : (∀ c ∈ ([] : List PadCall), c.WellFormed) ↔
      ∀ e ∈ ([] : List (Bool × PadMotion)), e.2.playsWell e.1 = true :=
    iff_of_true (List.forall_mem_nil _) (List.forall_mem_nil _)
  cases op with
  | enqueueEvent => exact ⟨h, hnone⟩
  | process mute tick around =>
    exact (h.processEvents tick around.loop).processSessions mute tick hkeys
  | internalSetRecord doRecord => exact ⟨h.internalSetRecord doRecord, hnone⟩
  | internalClearPad => exact ⟨h.internalClearPad, hnone⟩
  | setQuantize => exact ⟨h, hnone⟩
  | configure => exact ⟨h, hnone⟩

end Pad

end Vuknob
