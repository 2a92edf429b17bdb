import Vuknob.Library.Timetable
import Vuknob.Playback.ArpNotes
import Vuknob.Playback.PadMotion

/-!
# Notes of a motion

What a motion has on is in `lastX`, in `lastChord` or in its arpeggiator. It ends what it has on at
its last position, if it is terminated before it comes to that, and where -1 is not a note.
-/

namespace Vuknob

open Library

namespace PadMotion

/-- A note that the motion has on. -/
def Sounding (m : PadMotion) (n : Int) : Prop :=
  n ≠ -1 ∧
    if m.arpDirection = .arpOff then
      m.finished = false ∧ if m.chordMode = .chordOff then n = m.lastX else n ∈ m.lastChord
    else n = m.arperator.note

/-- The keys that the motion has enabled. -/
def keys (m : PadMotion) : List Int := if m.chordMode = .chordOff then [m.lastX] else m.lastChord

/-- No column has the note that is a mark for none, unless chords are played. -/
def Tuned (m : PadMotion) : Prop :=
  m.chordMode = .chordOff → ∀ column < 8, m.columnNote column ≠ -1

/-- A motion that is played. -/
structure Healthy (m : PadMotion) : Prop where
  index : 0 ≤ m.index ∧ m.index ≤ m.positions.length
  chord : m.lastChord.length = maxPadChord
  direction : m.arperator.arpDirection = m.arpDirection
  quiet : m.arperator.Quiet
  keys : m.arpDirection ≠ .arpOff → ArpFinger.Within m.keys m.arperator.finger
  ended : m.arpDirection ≠ .arpOff → m.finished = true → m.arperator.finger = []

theorem padColumn_lt (p : PadPosition) : p.padColumn < 8 := by
  have := p.x.isLt
  rw [PadPosition.padColumn, Nat.shiftRight_eq_div_pow, Nat.shiftRight_eq_div_pow]
  omega

theorem length_chordAt (m : PadMotion) (column : Nat) :
    (m.chordAt column).length = maxPadChord := by
  rw [chordAt]
  split
  · rw [buildChord]
    split <;> rfl
  · rfl

/-! ### The four ways to play a position -/

section

variable {m : PadMotion} (mute : Bool) (p : PadPosition)

theorem playPosition_note (ha : m.arpDirection = .arpOff) (hc : m.chordMode = .chordOff) :
    m.playPosition mute p =
      (m.controllerCalls p ++ m.noteCalls mute (m.velocityAt p) (m.columnNote p.padColumn),
        { m with
          lastChord := m.chordAt p.padColumn, lastX := m.columnNote p.padColumn
          index := m.index + 1 }) := by
  rw [playPosition, ha, hc]

theorem playPosition_chord (ha : m.arpDirection = .arpOff) (hc : m.chordMode ≠ .chordOff) :
    m.playPosition mute p =
      (m.controllerCalls p ++
          chordCalls mute (m.velocityAt p) m.lastChord (m.chordAt p.padColumn),
        { m with
          lastChord := m.chordAt p.padColumn, lastX := m.columnNote p.padColumn
          index := m.index + 1 }) := by
  rw [playPosition, ha]
  cases hcm : m.chordMode with
  | chordOff => exact absurd hcm hc
  | chordTriad => rfl
  | chordQuad => rfl

theorem playPosition_arpNote (ha : m.arpDirection ≠ .arpOff) (hc : m.chordMode = .chordOff) :
    m.playPosition mute p =
      (m.controllerCalls p,
        { m with
          lastChord := m.chordAt p.padColumn
          lastX := (m.arpNote (m.velocityAt p) (m.columnNote p.padColumn)).1
          arperator := (m.arpNote (m.velocityAt p) (m.columnNote p.padColumn)).2
          index := m.index + 1 }) := by
  rw [playPosition, hc]
  cases had : m.arpDirection with
  | arpOff => exact absurd had ha
  | arpForward => rfl
  | arpReverse => rfl
  | arpPingpong => rfl

theorem playPosition_arpChord (ha : m.arpDirection ≠ .arpOff) (hc : m.chordMode ≠ .chordOff) :
    m.playPosition mute p =
      (m.controllerCalls p,
        { m with
          lastChord := (arpChord (m.velocityAt p) (m.lastChord.zip (m.chordAt p.padColumn))
            m.arperator).1
          lastX := m.columnNote p.padColumn
          arperator := (arpChord (m.velocityAt p) (m.lastChord.zip (m.chordAt p.padColumn))
            m.arperator).2
          index := m.index + 1 }) := by
  rw [playPosition]
  cases had : m.arpDirection with
  | arpOff => exact absurd had ha
  | arpForward | arpReverse | arpPingpong =>
    cases hcm : m.chordMode with
    | chordOff => exact absurd hcm hc
    | chordTriad => rfl
    | chordQuad => rfl

end

/-! ### Calls -/

/-- Controllers have nothing to do with notes. -/
theorem accounts_controllerCalls (m : PadMotion) (p : PadPosition) (held : Int → Prop) :
    Accounts PadCall.Starts PadCall.Ends held (m.controllerCalls p) held := by
  have haxis : ∀ coarse fine value, ∀ c ∈ axisCalls coarse fine value, ∀ n, ¬ c.Starts n := by
    intro coarse fine value c hc n
    rw [axisCalls] at hc
    split at hc
    · rcases List.mem_cons.mp hc with rfl | hc
      · simp [PadCall.Starts]
      · split at hc
        · obtain rfl := List.mem_singleton.mp hc
          simp [PadCall.Starts]
        · cases hc
    · split at hc
      · obtain rfl := List.mem_singleton.mp hc
        simp [PadCall.Starts]
      · cases hc
  rintro n (⟨hn, -⟩ | hpending)
  · exact hn
  · refine absurd hpending (not_pending_of_forall ?_)
    intro c hc
    rcases List.mem_append.mp hc with hc | hc
    · exact haxis _ _ _ c hc n
    · exact haxis _ _ _ c hc n

/-- The position at hand starts notes unless it is the last one of a terminated motion. -/
theorem mayStart_eq {m : PadMotion} (h : m.index < m.positions.length) :
    m.mayStart = !m.atEnd := by
  rw [mayStart, atEnd]
  cases m.terminated with
  | false => rfl
  | true =>
    simp only [Bool.not_true, Bool.false_or, Bool.true_and, ← decide_not]
    exact decide_eq_decide.mpr (by omega)

/-- After the position at hand the motion is finished if it was the last one. -/
theorem finished_of_succ {m m' : PadMotion} (h : m.index < m.positions.length)
    (hrounds : Rounds 1 m m') : m'.finished = m.atEnd := by
  rw [finished, hrounds.terminated, hrounds.positions, hrounds.index, atEnd]
  cases m.terminated with
  | false => rfl
  | true =>
    simp only [Bool.true_and]
    exact decide_eq_decide.mpr (by omega)

theorem finished_of_lt {m : PadMotion} (h : m.index < m.positions.length) :
    m.finished = false := by
  rw [finished, Bool.and_eq_false_iff]
  exact .inr (decide_eq_false (by omega))

/-- From one note to the next, or to none after the last position. -/
theorem accounts_noteCalls {m : PadMotion} (mute : Bool) (velocity : Int) {note : Int}
    (hnote : note ≠ -1) (h : m.index < m.positions.length) :
    Accounts PadCall.Starts PadCall.Ends (fun n ↦ n ≠ -1 ∧ n = m.lastX)
      (m.noteCalls mute velocity note) (fun n ↦ n ≠ -1 ∧ m.atEnd = false ∧ n = note) := by
  rw [noteCalls]
  split
  · rw [mayStart_eq h]
    cases hend : m.atEnd with
    | true =>
      rw [if_neg (by simp), List.nil_append]
      exact (PadCall.accounts_endNote m.lastX 0x7f).mono fun n hn ↦ hn.elim
    | false =>
      have hstarted := PadCall.accounts_queueNoteOn mute velocity hnote
      have hcalls : (if (!mute && !false) = true then [PadCall.queueNoteOn note velocity] else []) =
          if mute = true then [] else [PadCall.queueNoteOn note velocity] := by
        cases mute <;> rfl
      rw [hcalls]
      exact (PadCall.accounts_changeNote hstarted).mono fun n hn ↦ ⟨hn.1, rfl, hn.2⟩
  · next hsame =>
    split
    · exact ((PadCall.accounts_queueNoteOff m.lastX 0x7f).anti fun n hn ↦ hn.2).mono
        fun n hn ↦ hn.elim
    · next hnot =>
      rw [Bool.or_eq_true, not_or] at hnot
      refine .nil fun n hn ↦ ⟨hn.1, by simpa using hnot.2, ?_⟩
      have hlast : m.lastX = note := by simpa [hnot.1] using hsame
      exact hn.2.trans hlast

/-- From one chord to the next. -/
theorem accounts_chordCalls (mute : Bool) (velocity : Int) {last chord : List Int}
    (h : last.length = chord.length) :
    Accounts PadCall.Starts PadCall.Ends (fun n ↦ n ≠ -1 ∧ n ∈ last)
      (chordCalls mute velocity last chord) (fun n ↦ n ≠ -1 ∧ n ∈ chord) := by
  rintro n (⟨⟨hn, hlast⟩, hnone⟩ | hpending)
  · -- the place of a note that is not ended has the same note
    refine ⟨hn, ?_⟩
    obtain ⟨i, hi, rfl⟩ := List.getElem_of_mem hlast
    have hi' : i < chord.length := h ▸ hi
    have hpair : (last[i], chord[i]) ∈ last.zip chord := by
      refine List.mem_of_getElem? (i := i) ?_
      simp [hi, hi']
    by_cases hsame : last[i] = chord[i]
    · rw [hsame]
      exact List.getElem_mem hi'
    · refine absurd (PadCall.ends_queueNoteOff.mpr rfl) (hnone (.queueNoteOff last[i] 0x7f) ?_)
      refine List.mem_flatMap.mpr ⟨_, hpair, ?_⟩
      simp [hsame, hn]
  · obtain ⟨before, e, after, heq, ⟨v, rfl⟩, -⟩ := hpending
    have hmem : PadCall.queueNoteOn n v ∈ chordCalls mute velocity last chord := by
      rw [heq]
      simp
    obtain ⟨⟨l, c⟩, hpair, hcall⟩ := List.mem_flatMap.mp hmem
    dsimp only at hcall
    split at hcall
    · rcases List.mem_append.mp hcall with hcall | hcall
      · split at hcall
        · simp at hcall
        · cases hcall
      · split at hcall
        · next hc =>
          simp only [List.mem_singleton, PadCall.queueNoteOn.injEq] at hcall
          obtain ⟨rfl, -⟩ := hcall
          exact ⟨of_decide_eq_true (Bool.and_eq_true_iff.mp hc).1, (List.of_mem_zip hpair).2⟩
        · cases hcall
    · cases hcall

/-! ### Keys of the arpeggiator -/

theorem length_arpChord (velocity : Int) (pairs : List (Int × Int)) (A : Arpeggiator) :
    (arpChord velocity pairs A).1.length = pairs.length := by
  induction pairs generalizing A with
  | nil => rfl
  | cons pair rest ih => simp [arpChord, ih]

/-- A key that is enabled is one of the chord. -/
theorem mem_arpChord {velocity : Int} {pairs : List (Int × Int)} {A : Arpeggiator} {n : Int}
    (h : n ∈ (arpChord velocity pairs A).1) : n = -1 ∨ n ∈ pairs.map Prod.snd := by
  induction pairs generalizing A with
  | nil => cases h
  | cons pair rest ih =>
    obtain ⟨last, note⟩ := pair
    rw [arpChord] at h
    rcases List.mem_cons.mp h with hn | h
    · have hor : n = -1 ∨ n = note := by
        rw [hn]
        split
        · exact Arpeggiator.fst_enableKey ..
        · exact .inr rfl
      rcases hor with hn | rfl
      · exact .inl hn
      · exact .inr (List.mem_cons_self ..)
    · exact (ih h).imp_right (List.mem_cons_of_mem _)

/-- The keys of the last chord are disabled and those of the next one are enabled. -/
theorem within_arpChord (velocity : Int) (pairs : List (Int × Int)) (done : List Int)
    (A : Arpeggiator) (h : ArpFinger.Within (pairs.map Prod.fst ++ done) A.finger) :
    ArpFinger.Within ((arpChord velocity pairs A).1 ++ done) (arpChord velocity pairs A).2.finger ∧
      Arpeggiator.SameSound A (arpChord velocity pairs A).2 := by
  induction pairs generalizing A done with
  | nil => exact ⟨h, .refl A⟩
  | cons pair rest ih =>
    obtain ⟨last, note⟩ := pair
    have hoff : ∃ B : Arpeggiator, (if last ≠ -1 then A.disableKey last else A) = B ∧
        ArpFinger.Within (rest.map Prod.fst ++ done) B.finger ∧ Arpeggiator.SameSound A B := by
      refine ⟨_, rfl, ?_⟩
      split
      · exact ⟨Arpeggiator.within_disableKey h, Arpeggiator.sameSound_disableKey A last⟩
      · next hlast =>
        rw [List.map_cons, not_not.mp hlast] at h
        exact ⟨h.of_cons_none, .refl A⟩
    obtain ⟨B, hB, hwithin, hsame⟩ := hoff
    have hon : ∃ (key : Int) (C : Arpeggiator),
        (if note ≠ -1 then B.enableKey note velocity else (note, B)) = (key, C) ∧
        ArpFinger.Within (key :: (rest.map Prod.fst ++ done)) C.finger ∧
        Arpeggiator.SameSound B C := by
      by_cases hnote : note ≠ -1
      · rw [if_pos hnote]
        exact ⟨_, _, rfl, Arpeggiator.within_enableKey hwithin hnote velocity,
          Arpeggiator.sameSound_enableKey B note velocity⟩
      · rw [if_neg hnote]
        exact ⟨note, B, rfl, hwithin.cons note, .refl B⟩
    obtain ⟨key, C, hC, hwithin', hsame'⟩ := hon
    have hrest := ih (key :: done) C (hwithin'.of_count fun k ↦ by
      simp only [List.count_append, List.count_cons]
      omega)
    have heq : arpChord velocity ((last, note) :: rest) A =
        (key :: (arpChord velocity rest C).1, (arpChord velocity rest C).2) := by
      rw [arpChord, hB, hC]
    rw [heq]
    refine ⟨hrest.1.of_count fun k ↦ ?_, (hsame.trans hsame').trans hrest.2⟩
    simp only [List.cons_append, List.count_append, List.count_cons]
    omega

/-- The key of the last note is disabled and that of the next one, unless it is the last position,
enabled. -/
theorem within_arpNote {m : PadMotion} (velocity : Int) {note : Int} (hnote : note ≠ -1)
    (h : ArpFinger.Within [m.lastX] m.arperator.finger) :
    ArpFinger.Within [(m.arpNote velocity note).1] (m.arpNote velocity note).2.finger ∧
      ((!m.toBeDeleted && m.mayStart) = false → (m.arpNote velocity note).2.finger = []) ∧
      Arpeggiator.SameSound m.arperator (m.arpNote velocity note).2 := by
  have hoff : ArpFinger.Within [] (m.arperator.disableKey m.lastX).finger :=
    Arpeggiator.within_disableKey h
  rw [arpNote]
  split
  · next hkept =>
    have hnow : ∃ B : Arpeggiator,
        (if m.lastX ≠ -1 then m.arperator.disableKey m.lastX else m.arperator) = B ∧
        ArpFinger.Within [] B.finger ∧ Arpeggiator.SameSound m.arperator B := by
      refine ⟨_, rfl, ?_⟩
      split
      · exact ⟨hoff, Arpeggiator.sameSound_disableKey m.arperator m.lastX⟩
      · next hlast =>
        rw [not_not.mp hlast] at h
        exact ⟨h.of_cons_none, .refl _⟩
    obtain ⟨B, hB, hwithin, hsame⟩ := hnow
    dsimp only
    rw [hB]
    split
    · next hstart =>
      refine ⟨Arpeggiator.within_enableKey hwithin hnote velocity, ?_,
        hsame.trans (Arpeggiator.sameSound_enableKey B note velocity)⟩
      rw [hkept, hstart]
      exact nofun
    · exact ⟨hwithin.cons note, fun _ ↦ Arpeggiator.finger_eq_nil_of_within hwithin (by simp),
        hsame⟩
  · exact ⟨hoff.cons note, fun _ ↦ Arpeggiator.finger_eq_nil_of_within hoff (by simp),
      Arpeggiator.sameSound_disableKey m.arperator m.lastX⟩

/-! ### A round -/

theorem chordAt_of_atEnd {m : PadMotion} (h : m.index < m.positions.length)
    (hend : m.atEnd = true) (column : Nat) : m.chordAt column = noChord := by
  rw [chordAt, mayStart_eq h, hend, if_neg (by simp)]

theorem eq_neg_one_of_mem_noChord {n : Int} (h : n ∈ noChord) : n = -1 :=
  List.eq_of_mem_replicate h

/-- One round keeps the motion healthy, and what it has on is what it accounts for. -/
theorem Healthy.playPosition {m : PadMotion} (h : m.Healthy) (htuned : m.Tuned)
    (hlt : m.index < m.positions.length) (mute : Bool) (p : PadPosition) :
    (m.playPosition mute p).2.Healthy ∧
      Accounts PadCall.Starts PadCall.Ends m.Sounding (m.playPosition mute p).1
        (m.playPosition mute p).2.Sounding := by
  have hrounds := rounds_playPosition mute p m
  have hover := finished_of_succ hlt hrounds
  have hindex : 0 ≤ (m.playPosition mute p).2.index ∧
      (m.playPosition mute p).2.index ≤ (m.playPosition mute p).2.positions.length := by
    have := h.index
    rw [hrounds.index, hrounds.positions]
    omega
  have hgoing := finished_of_lt hlt
  have hlen := length_chordAt m p.padColumn
  by_cases ha : m.arpDirection = .arpOff
  · by_cases hc : m.chordMode = .chordOff
    · have hnote := htuned hc p.padColumn (padColumn_lt p)
      rw [playPosition_note mute p ha hc] at hindex hover ⊢
      refine ⟨⟨hindex, hlen, h.direction, h.quiet, (absurd ha ·), (absurd ha ·)⟩, ?_⟩
      refine (accounts_controllerCalls m p _).append ?_
      refine ((accounts_noteCalls mute (m.velocityAt p) hnote hlt).anti ?_).mono ?_
      · intro n hn
        rw [Sounding, if_pos ha, if_pos hc] at hn
        exact ⟨hn.1, hn.2.2⟩
      · intro n hn
        rw [Sounding, if_pos ha, if_pos hc]
        exact ⟨hn.1, hover.trans hn.2.1, hn.2.2⟩
    · rw [playPosition_chord mute p ha hc] at hindex hover ⊢
      refine ⟨⟨hindex, hlen, h.direction, h.quiet, (absurd ha ·), (absurd ha ·)⟩, ?_⟩
      refine (accounts_controllerCalls m p _).append ?_
      refine ((accounts_chordCalls mute (m.velocityAt p) (h.chord.trans hlen.symm)).anti ?_).mono ?_
      · intro n hn
        rw [Sounding, if_pos ha, if_neg hc] at hn
        exact ⟨hn.1, hn.2.2⟩
      · intro n hn
        rw [Sounding, if_pos ha, if_neg hc]
        refine ⟨hn.1, ?_, hn.2⟩
        rw [hover, Bool.eq_false_iff]
        intro hend
        rw [chordAt_of_atEnd hlt hend] at hn
        exact hn.1 (eq_neg_one_of_mem_noChord hn.2)
  · have hkeys := h.keys ha
    by_cases hc : m.chordMode = .chordOff
    · have hnote := htuned hc p.padColumn (padColumn_lt p)
      rw [PadMotion.keys, if_pos hc] at hkeys
      obtain ⟨hwithin, hnil, hsame⟩ := within_arpNote (m.velocityAt p) hnote hkeys
      rw [playPosition_arpNote mute p ha hc] at hindex hover ⊢
      refine ⟨⟨hindex, hlen, hsame.arpDirection.trans h.direction, h.quiet.of_sameSound hsame,
        fun _ ↦ ?_, fun _ hend ↦ ?_⟩, ?_⟩
      · rw [PadMotion.keys, if_pos hc]
        exact hwithin
      · apply hnil
        rw [mayStart_eq hlt, ← hover, hend, Bool.not_true, Bool.and_false]
      · refine (accounts_controllerCalls m p _).mono fun n hn ↦ ?_
        rw [Sounding, if_neg ha] at hn ⊢
        exact ⟨hn.1, hn.2.trans hsame.note.symm⟩
    · rw [PadMotion.keys, if_neg hc] at hkeys
      have hfst : (m.lastChord.zip (m.chordAt p.padColumn)).map Prod.fst = m.lastChord :=
        List.map_fst_zip (by rw [h.chord, hlen])
      have hzip : (m.lastChord.zip (m.chordAt p.padColumn)).length = maxPadChord := by
        rw [List.length_zip, h.chord, hlen, Nat.min_self]
      obtain ⟨hwithin, hsame⟩ := within_arpChord (m.velocityAt p)
        (m.lastChord.zip (m.chordAt p.padColumn)) [] m.arperator
        (by rwa [hfst, List.append_nil])
      rw [List.append_nil] at hwithin
      rw [playPosition_arpChord mute p ha hc] at hindex hover ⊢
      refine ⟨⟨hindex, (length_arpChord ..).trans hzip, hsame.arpDirection.trans h.direction,
        h.quiet.of_sameSound hsame, fun _ ↦ ?_, fun _ hend ↦ ?_⟩, ?_⟩
      · rw [PadMotion.keys, if_neg hc]
        exact hwithin
      · refine Arpeggiator.finger_eq_nil_of_within hwithin fun n hn ↦ ?_
        rcases mem_arpChord hn with hn | hn
        · exact hn
        · rw [hover] at hend
          rw [chordAt_of_atEnd hlt hend] at hn
          obtain ⟨⟨last, note⟩, hpair, rfl⟩ := List.mem_map.mp hn
          exact eq_neg_one_of_mem_noChord (List.of_mem_zip hpair).2
      · refine (accounts_controllerCalls m p _).mono fun n hn ↦ ?_
        rw [Sounding, if_neg ha] at hn ⊢
        exact ⟨hn.1, hn.2.trans hsame.note.symm⟩

/-! ### Ticks -/

theorem Tuned.of_rounds {n : Nat} {m m' : PadMotion} (h : m.Tuned) (hrounds : Rounds n m m') :
    m'.Tuned := by
  unfold Rounds at hrounds
  rw [hrounds]
  exact h

theorem Healthy.playPositions {m : PadMotion} (h : m.Healthy) (htuned : m.Tuned) (mute : Bool)
    (positions : List PadPosition) (hpositions : positions = m.positions.drop m.index.toNat) :
    (m.playPositions mute positions).2.Healthy ∧
      Accounts PadCall.Starts PadCall.Ends m.Sounding (m.playPositions mute positions).1
        (m.playPositions mute positions).2.Sounding := by
  induction positions generalizing m with
  | nil => exact ⟨h, .nil fun n hn ↦ hn⟩
  | cons p rest ih =>
    have hnonneg := h.index.1
    have hlt : m.index < m.positions.length := by
      have hlength := congrArg List.length hpositions
      rw [List.length_cons, List.length_drop] at hlength
      omega
    rw [PadMotion.playPositions]
    split
    · obtain ⟨hhealthy, haccounts⟩ := h.playPosition htuned hlt mute p
      have hrounds := rounds_playPosition mute p m
      have hrest : rest = (m.playPosition mute p).2.positions.drop
          (m.playPosition mute p).2.index.toNat := by
        rw [hrounds.positions, hrounds.index, show (m.index + (1 : Nat)).toNat = m.index.toNat + 1
          by omega, ← List.drop_drop, ← hpositions, List.drop_one, List.tail_cons]
      obtain ⟨hhealthy', haccounts'⟩ := ih hhealthy (htuned.of_rounds hrounds) hrest
      exact ⟨hhealthy', haccounts.append haccounts'⟩
    · exact ⟨h, .nil fun n hn ↦ hn⟩

/-- A motion that is not finished plays its arpeggio. -/
theorem Healthy.playArpeggio {m : PadMotion} (h : m.Healthy) (mute : Bool) :
    (m.playArpeggio mute).2.Healthy ∧
      Accounts PadCall.Starts PadCall.Ends m.Sounding (m.playArpeggio mute).1
        (m.playArpeggio mute).2.Sounding := by
  obtain ⟨hdirection, -, hfinger⟩ := Arpeggiator.setting_processPattern mute m.arperator
  refine ⟨⟨h.index, h.chord, hdirection.trans h.direction, h.quiet.processPattern mute,
    fun ha ↦ ?_, fun ha hend ↦ hfinger.trans (h.ended ha hend)⟩, ?_⟩
  · have hkeys := h.keys ha
    rw [← hfinger] at hkeys
    exact hkeys
  · by_cases ha : m.arpDirection = .arpOff
    · have hnone : m.arperator.activePattern = none := by
        rw [Arpeggiator.activePattern, if_pos (h.direction.trans ha)]
      rw [PadMotion.playArpeggio, Arpeggiator.processPattern_of_none hnone]
      exact .nil fun n hn ↦ hn
    · refine ((Arpeggiator.accounts_processPattern mute m.arperator).anti ?_).mono ?_
      · intro n hn
        rwa [Sounding, if_neg ha] at hn
      · intro n hn
        have ha' : ¬ (m.playArpeggio mute).2.arpDirection = .arpOff := ha
        rw [Sounding, if_neg ha']
        exact hn

theorem Healthy.atTick {m : PadMotion} (h : m.Healthy) (scales : Scales) :
    (m.atTick scales).Healthy ∧ (m.atTick scales).Sounding = m.Sounding := by
  rw [PadMotion.atTick, readScale]
  split
  · exact ⟨⟨h.index, h.chord, h.direction, h.quiet, h.keys, h.ended⟩, rfl⟩
  · exact ⟨⟨h.index, h.chord, h.direction, h.quiet, h.keys, h.ended⟩, rfl⟩

/-- A tick of a motion: if it goes on it is healthy then and accounts for what it has on, and if it
has finished it has nothing on any more. -/
theorem Healthy.processMotion {m : PadMotion} (h : m.Healthy) {scales : Scales}
    (htuned : (m.atTick scales).Tuned) (mute : Bool) :
    (m.finished = false → (m.processMotion mute scales).2.2.Healthy) ∧
      Accounts PadCall.Starts PadCall.Ends m.Sounding (m.processMotion mute scales).1
        (fun n ↦ m.finished = false ∧ (m.processMotion mute scales).2.2.Sounding n) := by
  cases hfinished : m.finished with
  | true =>
    refine ⟨nofun, ?_⟩
    rw [processMotion_of_finished hfinished]
    by_cases ha : m.arpDirection = .arpOff
    · have hnone : m.arperator.activePattern = none := by
        rw [Arpeggiator.activePattern, if_pos (h.direction.trans ha)]
      rw [Arpeggiator.processPattern_of_none hnone]
      refine .nil fun n hn ↦ ?_
      rw [Sounding, if_pos ha, hfinished] at hn
      exact absurd hn.2.1 nofun
    · have hnote := Arpeggiator.note_processPattern_of_nil h.quiet (h.ended ha hfinished) mute
      refine ((Arpeggiator.accounts_processPattern mute m.arperator).anti ?_).mono ?_
      · intro n hn
        rwa [Sounding, if_neg ha] at hn
      · intro n hn
        exact absurd (hn.2.trans hnote) hn.1
  | false =>
    obtain ⟨hhealthy, hsounding⟩ := h.atTick scales
    obtain ⟨m₁, hplayed, -, heq⟩ := processMotion_of_not_finished hfinished mute scales
    obtain ⟨hhealthy₁, haccounts⟩ := hhealthy.playPositions htuned mute
      (m.positions.drop m.index.toNat) (by rw [positions_atTick, index_atTick])
    rw [hplayed, hsounding] at haccounts
    rw [hplayed] at hhealthy₁
    obtain ⟨hhealthy₂, haccounts₂⟩ := hhealthy₁.playArpeggio mute
    rw [heq]
    exact ⟨fun _ ↦ hhealthy₂, (haccounts.append haccounts₂).mono fun n hn ↦ ⟨rfl, hn⟩⟩

/-! ### Motions that can be played -/

/-- The scale has been read, and fits. -/
def Settled (m : PadMotion) : Prop := m.lastScale = some m.scale ∧ m.Tuned

/-- A motion in the list of those that are played: it is healthy, its scale fits or is yet to be
read, no position is late before it is terminated, and terminating it again would not make it stop
later. -/
structure Ready (scales : Scales) (m : PadMotion) : Prop where
  healthy : m.Healthy
  tuned : m.Settled ∨ m.index < m.positions.length ∧ (m.atTick scales).Tuned
  recent : m.terminated = false → ∀ p ∈ m.positions, p.t ≤ m.crntTick + 1
  stopped : m.terminated = true → stopLater m.positions = m.positions

/-- A motion that is recorded. -/
structure Rested (m : PadMotion) : Prop where
  settled : m.Settled
  chord : m.lastChord.length = maxPadChord
  terminated : m.terminated = true
  stopped : stopLater m.positions = m.positions

/-- Whether a motion will be in tune depends on its configuration and its notes. -/
theorem Tuned.atTick_congr {m m' : PadMotion} {scales : Scales} (h : (m.atTick scales).Tuned)
    (hconfig : m'.toPadConfiguration = m.toPadConfiguration) (hscale : m'.lastScale = m.lastScale)
    (hdata : m'.scaleData = m.scaleData) : (m'.atTick scales).Tuned := by
  have heq : (m'.atTick scales).toPadConfiguration = (m.atTick scales).toPadConfiguration ∧
      (m'.atTick scales).scaleData = (m.atTick scales).scaleData := by
    simp only [PadMotion.atTick, readScale, hscale, hconfig]
    split
    · exact ⟨rfl, hdata⟩
    · exact ⟨rfl, rfl⟩
  intro hchord column hcolumn
  rw [heq.1] at hchord
  have hne := h hchord column hcolumn
  rwa [columnNote, ← heq.1, ← heq.2] at hne

theorem Settled.atTick {m : PadMotion} (h : m.Settled) (scales : Scales) :
    (m.atTick scales).Settled := by
  rw [PadMotion.atTick, readScale, if_pos h.1]
  exact h

/-- A motion that has read its scale fits, or it will fit. -/
theorem settled_atTick {m : PadMotion} {scales : Scales} (h : (m.atTick scales).Tuned) :
    (m.atTick scales).Settled := by
  refine ⟨?_, h⟩
  rw [PadMotion.atTick, readScale]
  split
  · next hread => exact hread
  · rfl

theorem Ready.tuned_atTick {m : PadMotion} {scales : Scales} (h : m.Ready scales) :
    (m.atTick scales).Tuned := by
  rcases h.tuned with hsettled | hnew
  · exact (hsettled.atTick scales).2
  · exact hnew.2

theorem Settled.of_rounds {n : Nat} {m m' : PadMotion} (h : m.Settled) (hrounds : Rounds n m m') :
    m'.Settled := by
  unfold Rounds at hrounds
  rw [hrounds]
  exact h

theorem Ready.settled_processMotion {m : PadMotion} {scales : Scales} (h : m.Ready scales)
    (mute : Bool) : (m.processMotion mute scales).2.2.Settled := by
  cases hfinished : m.finished with
  | true =>
    rw [processMotion_of_finished hfinished]
    rcases h.tuned with hsettled | ⟨hlt, -⟩
    · exact hsettled
    · rw [finished_of_lt hlt] at hfinished
      cases hfinished
  | false =>
    obtain ⟨m₁, -, hrounds, heq⟩ := processMotion_of_not_finished hfinished mute scales
    have hsettled : m₁.Settled := (settled_atTick h.tuned_atTick).of_rounds hrounds
    rw [heq]
    exact hsettled

/-- A motion that goes on can be played at the next tick, whatever the scales are then. -/
theorem Ready.processMotion {m : PadMotion} {scales : Scales} (h : m.Ready scales) (mute : Bool)
    (hgoing : m.finished = false) (later : Scales) :
    (m.processMotion mute scales).2.2.Ready later where
  healthy := (h.healthy.processMotion h.tuned_atTick mute).1 hgoing
  tuned := .inl (h.settled_processMotion mute)
  recent hterminated := by
    rw [terminated_processMotion] at hterminated
    rw [positions_processMotion, crntTick_processMotion hgoing]
    intro p hp
    have := h.recent hterminated p hp
    omega
  stopped hterminated := by
    rw [terminated_processMotion] at hterminated
    rw [positions_processMotion]
    exact h.stopped hterminated

/-- A motion that has finished can be recorded. -/
theorem Ready.rested {m : PadMotion} {scales : Scales} (h : m.Ready scales) (mute : Bool)
    (hgone : m.finished = true) (startTick : Int) :
    Rested { (m.processMotion mute scales).2.2 with startTick := startTick } where
  settled := h.settled_processMotion mute
  chord := by
    rw [processMotion_of_finished hgone]
    exact h.healthy.chord
  terminated := by
    rw [terminated_processMotion]
    exact (Bool.and_eq_true_iff.mp hgone).1
  stopped := by
    have hterminated := (Bool.and_eq_true_iff.mp hgone).1
    rw [positions_processMotion]
    exact h.stopped hterminated

/-- A recorded motion stays one while it is played. -/
theorem Rested.processMotion {m : PadMotion} {scales : Scales} (h : m.Rested)
    (hready : m.Ready scales) (mute : Bool) (hgoing : m.finished = false) :
    (m.processMotion mute scales).2.2.Rested where
  settled := hready.settled_processMotion mute
  chord := ((hready.healthy.processMotion hready.tuned_atTick mute).1 hgoing).chord
  terminated := (terminated_processMotion mute scales m).trans h.terminated
  stopped := by
    rw [positions_processMotion]
    exact h.stopped

/-- A motion that starts can be played. -/
theorem Healthy.of_start {m m' : PadMotion} {position : Int}
    (hchord : m.lastChord.length = maxPadChord) (h : m.startMotion position = some m') : m'.Healthy := by
  rw [(startMotion_eq_some_iff.mp h).2]
  refine ⟨⟨Int.le_refl 0, Int.natCast_nonneg _⟩, hchord, rfl,
    Arpeggiator.quiet_reset _ _ _, ?_, ?_⟩
  · exact fun _ ↦ .nil _
  · exact fun _ _ ↦ rfl

theorem Rested.ready {m m' : PadMotion} {position : Int} (h : m.Rested)
    (hstart : m.startMotion position = some m') (scales : Scales) :
    m'.Ready scales ∧ m'.terminated = true := by
  have hhealthy := Healthy.of_start h.chord hstart
  rw [(startMotion_eq_some_iff.mp hstart).2] at hhealthy ⊢
  refine ⟨⟨hhealthy, .inl h.settled, ?_, fun _ ↦ h.stopped⟩, h.terminated⟩
  exact fun hnot ↦ absurd (h.terminated.symm.trans hnot) nofun

/-- No column of the configuration has the note that is a mark for none, unless chords are
played. -/
def inTune (scales : Scales) (config : PadConfiguration) : Bool :=
  config.chordMode ≠ .chordOff || (List.range 8).all fun column ↦
    config.octave * 12 + scales.data config.scale column ≠ -1

/-- A new motion can be played if its configuration fits the scales. -/
theorem ready_new {config : PadConfiguration} {scales : Scales}
    (hconfig : inTune scales config = true) {position : Int} {x y z : BitVec 14} {m : PadMotion}
    (h : (new config position x y z).startMotion position = some m) :
    m.Ready scales ∧ m.terminated = false := by
  have hhealthy := Healthy.of_start rfl h
  rw [(startMotion_eq_some_iff.mp h).2] at hhealthy ⊢
  refine ⟨⟨hhealthy, .inr ⟨Int.one_pos, ?_⟩, ?_, nofun⟩, rfl⟩
  swap
  · simp [new, addPosition]
  intro hchord column hcolumn
  have hcm : config.chordMode = .chordOff := by
    simpa [PadMotion.atTick, readScale, new, addPosition] using hchord
  have hall : ∀ column < 8, config.octave * 12 + scales.data config.scale column ≠ -1 := by
    simpa [inTune, hcm] using hconfig
  simpa [PadMotion.atTick, readScale, new, addPosition, columnNote] using hall column hcolumn

/-- A new position of a motion. -/
theorem Ready.addPosition {m : PadMotion} {scales : Scales} (h : m.Ready scales)
    (x y z : BitVec 14) : (m.addPosition x y z).Ready scales ∧
      ∀ n, m.Sounding n → (m.addPosition x y z).Sounding n := by
  cases hterminated : m.terminated with
  | true =>
    rw [PadMotion.addPosition, if_pos hterminated]
    exact ⟨h, fun _ hn ↦ hn⟩
  | false =>
    have hindex := h.healthy.index
    have hgoing : ∀ positions,
        finished { m with positions := positions } = false := by
      intro positions
      rw [finished, hterminated, Bool.false_and]
    rw [PadMotion.addPosition, if_neg (by simp [hterminated])]
    refine ⟨⟨⟨?_, h.healthy.chord, h.healthy.direction, h.healthy.quiet, h.healthy.keys, ?_⟩, ?_, ?_,
      ?_⟩, ?_⟩
    · simp only [List.length_append, List.length_singleton]
      omega
    · intro _ hend
      rw [hgoing] at hend
      cases hend
    · refine h.tuned.imp_right fun hnew ↦ ⟨?_, ?_⟩
      · simp only [List.length_append, List.length_singleton]
        omega
      · exact hnew.2.atTick_congr rfl rfl rfl
    · intro _ p hp
      rcases List.mem_append.mp hp with hp | hp
      · exact h.recent hterminated p hp
      · obtain rfl := List.mem_singleton.mp hp
        exact Int.le_refl _
    · exact fun hnot ↦ absurd (hterminated.symm.trans hnot) Bool.false_ne_true
    · intro n hn
      rw [Sounding] at hn ⊢
      rw [hgoing]
      have hsame := hgoing m.positions
      change m.finished = false at hsame
      rwa [hsame] at hn

/-- Every position is within some ticks from now, and there will be no more. -/
def EndsWithin (n : Nat) (m : PadMotion) : Prop :=
  m.terminated = true ∧ ∀ p ∈ m.positions, p.t ≤ m.crntTick + n

theorem mem_stopLater {positions : List PadPosition} {p : PadPosition}
    (h : p ∈ stopLater positions) : ∃ q ∈ positions, p.t ≤ q.t + 1 := by
  rw [stopLater] at h
  split at h
  · obtain ⟨i, hi⟩ := List.mem_iff_getElem?.mp h
    rw [List.getElem?_modify] at hi
    obtain ⟨q, hq, heq⟩ := Option.map_eq_some_iff.mp hi
    refine ⟨q, List.mem_of_getElem? hq, ?_⟩
    split at heq
    · subst heq
      exact Int.le_refl _
    · subst heq
      omega
  · exact ⟨p, h, by omega⟩

/-- A motion that is terminated before all of its positions have been played. -/
theorem Ready.terminate {m : PadMotion} {scales : Scales} (h : m.Ready scales)
    (hstop : m.terminated = true ∨ m.index < m.positions.length) :
    m.terminate.Ready scales ∧ (∀ n, m.Sounding n → m.terminate.Sounding n) ∧
      (m.terminated = true ∧ m.terminate = m ∨ m.terminate.EndsWithin 2) := by
  cases hterminated : m.terminated with
  | true =>
    have hsame : m.terminate = m := by
      rw [PadMotion.terminate, h.stopped hterminated, ← hterminated]
    rw [hsame]
    exact ⟨h, fun _ hn ↦ hn, .inl ⟨rfl, rfl⟩⟩
  | false =>
    have hlt : m.index < m.positions.length := hstop.resolve_left (by simp [hterminated])
    have hgoing : m.terminate.finished = false := by
      refine finished_of_lt ?_
      rw [PadMotion.terminate, length_stopLater]
      exact hlt
    have hindex := h.healthy.index
    refine ⟨⟨⟨?_, h.healthy.chord, h.healthy.direction, h.healthy.quiet, h.healthy.keys, ?_⟩, ?_, ?_,
      ?_⟩, ?_, .inr ⟨rfl, ?_⟩⟩
    · rw [PadMotion.terminate, length_stopLater]
      exact hindex
    · intro _ hend
      rw [hgoing] at hend
      cases hend
    · refine h.tuned.imp_right fun hnew ↦ ⟨?_, ?_⟩
      · rw [PadMotion.terminate, length_stopLater]
        exact hlt
      · exact hnew.2.atTick_congr rfl rfl rfl
    · exact nofun
    · exact fun _ ↦ stopLater_stopLater m.positions
    · intro n hn
      rw [Sounding] at hn ⊢
      rw [hgoing]
      rwa [finished_of_lt hlt] at hn
    · intro p hp
      obtain ⟨q, hq, hle⟩ := mem_stopLater hp
      have hrecent := h.recent hterminated q hq
      have htick : m.terminate.crntTick = m.crntTick := rfl
      omega

/-- A release. -/
theorem Ready.release {m : PadMotion} {scales : Scales} (h : m.Ready scales) (x y z : BitVec 14) :
    (m.addPosition x y z).terminate.Ready scales ∧
      (∀ n, m.Sounding n → (m.addPosition x y z).terminate.Sounding n) ∧
      (m.terminated = true ∧ (m.addPosition x y z).terminate = m ∨
        (m.addPosition x y z).terminate.EndsWithin 2) := by
  obtain ⟨hadded, hsounding⟩ := h.addPosition x y z
  have hstop : (m.addPosition x y z).terminated = true ∨
      (m.addPosition x y z).index < (m.addPosition x y z).positions.length := by
    rw [PadMotion.addPosition]
    split
    · next hterminated => exact .inl hterminated
    · have hindex := h.healthy.index
      right
      simp only [List.length_append, List.length_singleton]
      omega
  obtain ⟨hready, hkept, hends⟩ := hadded.terminate hstop
  refine ⟨hready, fun n hn ↦ hkept n (hsounding n hn), hends.imp_left ?_⟩
  rintro ⟨hterminated, hsame⟩
  rw [hsame]
  rw [PadMotion.addPosition] at hterminated ⊢
  split at hterminated
  · next hm =>
    rw [if_pos hm]
    exact ⟨hm, rfl⟩
  · next hm => exact absurd hterminated hm

/-- A motion that is to be deleted. -/
theorem Ready.delete {m : PadMotion} {scales : Scales} (h : m.Ready scales) :
    Ready scales { m with toBeDeleted := true } := by
  refine ⟨⟨h.healthy.index, h.healthy.chord, h.healthy.direction, h.healthy.quiet, h.healthy.keys,
    h.healthy.ended⟩, h.tuned.imp_right fun hnew ↦ ⟨hnew.1, ?_⟩, h.recent, h.stopped⟩
  exact hnew.2.atTick_congr rfl rfl rfl

/-- A tick brings the end nearer. -/
theorem EndsWithin.processMotion {n : Nat} {m : PadMotion} (h : m.EndsWithin n)
    (hhealthy : m.Healthy) (hgoing : m.finished = false) (mute : Bool) (scales : Scales) :
    (m.processMotion mute scales).2.2.EndsWithin (n - 1) ∧
      (n ≤ 1 → (m.processMotion mute scales).2.2.finished = true) := by
  have htick := crntTick_processMotion hgoing mute scales
  have hterminated := terminated_processMotion mute scales m
  have hpositions := positions_processMotion mute scales m
  refine ⟨⟨hterminated.trans h.1, ?_⟩, fun hn ↦ ?_⟩
  · rw [hpositions, htick]
    intro p hp
    have := h.2 p hp
    omega
  · refine finished_processMotion hgoing h.1 hhealthy.index.1 (fun p hp ↦ ?_) mute scales
    have := h.2 p hp
    omega

/-- The motion is some ticks from its end; while the finger is down, a release has to be on its
way. -/
def Near (release : Bool) : Nat → PadMotion → Prop
  | 0, m => m.finished = true
  | n + 1, m => m.EndsWithin (n + 1) ∨ 1 ≤ n ∧ m.terminated = false ∧ release = true

theorem EndsWithin.mono {n n' : Nat} {m : PadMotion} (h : m.EndsWithin n) (hle : n ≤ n') :
    m.EndsWithin n' := by
  refine ⟨h.1, fun p hp ↦ ?_⟩
  have := h.2 p hp
  omega

theorem exists_endsWithin {m : PadMotion} (h : m.terminated = true) : ∃ n, m.EndsWithin n := by
  obtain ⟨n, hn⟩ := exists_bound (fun p ↦ p.t - m.crntTick) m.positions
  refine ⟨n, h, fun p hp ↦ ?_⟩
  have := hn p hp
  omega

/-- A tick when all events have been processed. -/
theorem Near.processMotion {n : Nat} {m : PadMotion} (h : m.Near false n) (hhealthy : m.Healthy)
    (hgoing : m.finished = false) (mute : Bool) (scales : Scales) :
    ∃ n', n = n' + 1 ∧ (m.processMotion mute scales).2.2.Near false n' := by
  cases n with
  | zero => exact absurd (hgoing.symm.trans h) nofun
  | succ n =>
    refine ⟨n, rfl, ?_⟩
    rcases h with hends | ⟨-, -, hrelease⟩
    · obtain ⟨hlater, hfinished⟩ := hends.processMotion hhealthy hgoing mute scales
      cases n with
      | zero => exact hfinished (Nat.le_refl 1)
      | succ n => exact .inl hlater
    · cases hrelease

end PadMotion

end Vuknob
