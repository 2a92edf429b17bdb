import Vuknob.Playback.ArpNotes

/-!
# Playing the keys that are held

Which finger `process_pattern`, `src_jni/engine_code/pad.cc:231–335`, reads, and which notes are on
after any sequence of calls. The index of the finger is an `int` with a remainder that may be
negative. The sum of a key and an octave is taken to fit; only its last seven bits are used.
-/

namespace Vuknob

open Library

/-- The calls between a reset and the next one. -/
inductive ArpCall
  | enableKey (key velocity : Int)
  | disableKey (key : Int)
  | processPattern (mute : Bool)

namespace Arpeggiator

/-- `current_finger` and `pingpong_direction_forward` after the switch over the directions,
`src_jni/engine_code/pad.cc:255–281`. -/
def turn (direction : ArpeggioDirection) (forward : Bool) (count c : Int) : Int × Bool :=
  match direction with
  | .arpOff => (c, forward)
  | .arpForward => ((c + 1).tmod count, forward)
  | .arpReverse =>
    let c := c - 1
    (if c < 0 then if count > 0 then count - 1 else 0 else c, forward)
  | .arpPingpong =>
    if forward then
      if c + 1 ≥ count then ((c - 1).tmod count, false) else ((c + 1).tmod count, forward)
    else if c - 1 < 0 then ((c + 1).tmod count, true)
    else ((c - 1).tmod count, forward)

/-- `finger_id`, `src_jni/engine_code/pad.cc:283`. -/
def fingerId (A : Arpeggiator) : Int :=
  (turn A.arpDirection A.pingpongDirectionForward A.finger.length A.currentFinger).1.tmod
    A.finger.length

/-- The arpeggiator at the switch over the phases, unless `process_pattern` returns before,
`src_jni/engine_code/pad.cc:232–246`. -/
def atSwitch (mute : Bool) (A : Arpeggiator) : Option Arpeggiator :=
  A.activePattern.map fun pattern ↦ (A.silence mute).2.wrap pattern

/-- The index in `finger` that `process_pattern` reads, where it reads one. -/
def fingerRead (mute : Bool) (A : Arpeggiator) : Option Int :=
  (A.atSwitch mute).bind fun B ↦
    if B.phase = .goToOn ∧ 0 < B.finger.length then some B.fingerId else none

/-- One call, and the notes that are queued. -/
def call (A : Arpeggiator) : ArpCall → List PadCall × Arpeggiator
  | .enableKey key velocity => ([], (A.enableKey key velocity).2)
  | .disableKey key => ([], A.disableKey key)
  | .processPattern mute => A.processPattern mute

/-- Several calls. -/
def play : List ArpCall → Arpeggiator → List PadCall × Arpeggiator
  | [], A => ([], A)
  | c :: calls, A =>
    let (queued, A) := A.call c
    let (more, A) := play calls A
    (queued ++ more, A)

/-- A remainder of what is not negative. -/
theorem tmod_natCast (c count : Nat) : (c : Int).tmod count = (c % count : Nat) :=
  (Int.ofNat_tmod c count).symm

/-- On `int`, the turn is what it is on natural numbers: a dividend is negative only with a single
finger. -/
theorem turn_eq {A : Arpeggiator} (hdown : 0 < A.finger.length) :
    turn A.arpDirection A.pingpongDirectionForward A.finger.length A.currentFinger =
      ((A.nextFinger.currentFinger : Int), A.nextFinger.pingpongDirectionForward) := by
  have hup : ((A.currentFinger : Int) + 1).tmod A.finger.length =
      ((A.currentFinger + 1) % A.finger.length : Nat) :=
    tmod_natCast (A.currentFinger + 1) A.finger.length
  have hdecrease : A.currentFinger ≠ 0 → ((A.currentFinger : Int) - 1).tmod A.finger.length =
      ((A.currentFinger - 1) % A.finger.length : Nat) := by
    intro hc
    rw [← tmod_natCast, Int.natCast_sub (Nat.pos_of_ne_zero hc)]
    rfl
  cases hdirection : A.arpDirection with
  | arpOff => simp only [turn, nextFinger, hdirection]
  | arpForward => simp only [turn, nextFinger, hdirection, hup]
  | arpReverse =>
    simp only [turn, nextFinger, hdirection]
    by_cases hc : A.currentFinger = 0
    · rw [if_pos (by omega), if_pos (by omega), if_pos hc]
      congr 1
      omega
    · rw [if_neg (by omega), if_neg hc]
      congr 1
      omega
  | arpPingpong =>
    simp only [turn, nextFinger, hdirection]
    split
    · by_cases hlast : A.finger.length ≤ A.currentFinger + 1
      · rw [if_pos (by omega), if_pos hlast]
        by_cases hc : A.currentFinger = 0
        · have hone : A.finger.length = 1 := by omega
          rw [hc, hone]
          rfl
        · rw [hdecrease hc]
      · rw [if_neg (by omega), if_neg hlast, hup]
    · by_cases hc : A.currentFinger = 0
      · rw [if_pos (by omega), if_pos hc, hup]
      · rw [if_neg (by omega), if_neg hc, hdecrease hc]

theorem fingerId_eq {A : Arpeggiator} (hdown : 0 < A.finger.length) :
    A.fingerId = (A.nextFinger.currentFinger % A.finger.length : Nat) := by
  rw [fingerId, turn_eq hdown, tmod_natCast]

/-- Where a key is chosen, it is the one at `finger_id`. -/
theorem chooseNote_eq_some {A B : Arpeggiator} {n : ArpNote} (h : A.chooseNote n = some B) :
    0 < A.finger.length ∧ ∃ f, A.finger[A.fingerId.toNat]? = some f ∧
      B.note = (f.key + n.octaveOffset * 12) % 128 ∧ B.velocity = f.velocity := by
  rw [chooseNote, (setting_nextFinger A).2.2] at h
  obtain ⟨f, hf, rfl⟩ := Option.map_eq_some_iff.mp h
  have hdown : 0 < A.finger.length := by
    obtain ⟨hlt, -⟩ := List.getElem?_eq_some_iff.mp hf
    omega
  refine ⟨hdown, f, ?_, rfl, rfl⟩
  rw [fingerId_eq hdown]
  exact hf

/-- Between the return at its beginning and the switch, the phase may change, and no finger does. -/
theorem finger_atSwitch {A B : Arpeggiator} {mute : Bool} (h : A.atSwitch mute = some B) :
    B.finger = A.finger := by
  obtain ⟨pattern, -, rfl⟩ := Option.map_eq_some_iff.mp h
  unfold silence wrap
  repeat' split
  all_goals rfl

/-- The index that is read is that of a finger. -/
theorem fingerRead_lt {A : Arpeggiator} {mute : Bool} {i : Int} (h : A.fingerRead mute = some i) :
    0 ≤ i ∧ i < A.finger.length := by
  obtain ⟨B, hB, h⟩ := Option.bind_eq_some_iff.mp h
  split at h
  · next hphase =>
    obtain rfl := Option.some.inj h
    have hlt := Nat.mod_lt B.nextFinger.currentFinger hphase.2
    rw [fingerId_eq hphase.2, ← finger_atSwitch hB]
    omega
  · cases h

/-- The index in the pattern lies inside of it at the switch. -/
theorem getD_wrap_mem {pattern : List ArpNote} (hpattern : pattern ≠ []) (A : Arpeggiator)
    (n : ArpNote) : pattern.getD (A.wrap pattern).patternIndex n ∈ pattern := by
  have hlt : (A.wrap pattern).patternIndex < pattern.length := by
    rw [wrap]
    split
    · exact List.length_pos_of_ne_nil hpattern
    · omega
  rw [List.getD_eq_getElem?_getD, List.getElem?_eq_getElem hlt]
  exact List.getElem_mem hlt

/-- A note is started only where a key is chosen. -/
theorem starts_playPhase {A : Arpeggiator} {mute : Bool} {n : ArpNote} {note velocity : Int}
    (h : .queueNoteOn note velocity ∈ (A.playPhase mute n).1) :
    A.phase = .goToOn ∧ ∃ B, A.chooseNote n = some B ∧ note = B.note ∧ velocity = B.velocity := by
  have hended : ∀ last velocity' : Int, PadCall.queueNoteOn note velocity ∉
      if last ≠ -1 then [PadCall.queueNoteOff last velocity'] else [] := by
    intro last velocity'
    split <;> simp
  rw [playPhase] at h
  split at h
  · next hphase =>
    refine ⟨hphase, ?_⟩
    cases hchoose : A.chooseNote n with
    | none =>
      rw [hchoose] at h
      exact absurd h (hended A.note A.velocity)
    | some B =>
      rw [hchoose] at h
      rcases List.mem_append.mp h with h | h
      · split at h
        · cases h
        · have heq := List.mem_singleton.mp h
          injection heq with hnote hvelocity
          exact ⟨B, rfl, hnote, hvelocity⟩
      · exact absurd h (hended A.note B.velocity)
  · cases h
  · dsimp only at h
    split at h <;> simp at h
  · dsimp only at h
    split at h <;> simp at h

/-- A note that is started is that of the finger that is read. -/
theorem starts_processPattern {A : Arpeggiator} {mute : Bool} {note velocity : Int}
    (h : .queueNoteOn note velocity ∈ (A.processPattern mute).1) :
    ∃ pattern n i f, A.activePattern = some pattern ∧ n ∈ pattern ∧ A.fingerRead mute = some i ∧
      A.finger[i.toNat]? = some f ∧ note = (f.key + n.octaveOffset * 12) % 128 ∧
      velocity = f.velocity := by
  rw [processPattern] at h
  cases hpattern : A.activePattern with
  | none =>
    rw [hpattern] at h
    cases h
  | some pattern =>
    rw [hpattern] at h
    have hswitch : A.atSwitch mute = some ((A.silence mute).2.wrap pattern) := by
      rw [atSwitch, hpattern]
      rfl
    have hne : pattern ≠ [] := by
      rw [activePattern] at hpattern
      split at hpattern
      · cases hpattern
      · simpa using (Option.filter_eq_some_iff.mp hpattern).2
    rcases List.mem_append.mp h with h | h
    · rw [silence] at h
      split at h <;> simp at h
    · obtain ⟨hphase, B, hchoose, rfl, rfl⟩ := starts_playPhase h
      obtain ⟨hdown, f, hf, hnote, hvelocity⟩ := chooseNote_eq_some hchoose
      refine ⟨pattern, _, ((A.silence mute).2.wrap pattern).fingerId, f, rfl,
        getD_wrap_mem hne _ ⟨0, 0, 0, false⟩, ?_, ?_, hnote, hvelocity⟩
      · rw [fingerRead, hswitch, Option.bind_some, if_pos ⟨hphase, hdown⟩]
      · rw [← finger_atSwitch hswitch]
        exact hf

/-! ## Sequences of calls -/

/-- A call accounts for the note that is on. -/
theorem accounts_call (A : Arpeggiator) (c : ArpCall) :
    Accounts PadCall.Starts PadCall.Ends A.Sounding (A.call c).1 (A.call c).2.Sounding := by
  cases c with
  | enableKey key velocity =>
    refine .nil fun n hn ↦ ?_
    rwa [call, Sounding, (sameSound_enableKey A key velocity).note]
  | disableKey key => exact .nil fun _ hn ↦ hn
  | processPattern mute => exact accounts_processPattern mute A

theorem accounts_play (calls : List ArpCall) (A : Arpeggiator) :
    Accounts PadCall.Starts PadCall.Ends A.Sounding (play calls A).1 (play calls A).2.Sounding := by
  induction calls generalizing A with
  | nil => exact .nil fun _ hn ↦ hn
  | cons c calls ih => exact (accounts_call A c).append (ih (A.call c).2)

theorem setting_call (A : Arpeggiator) (c : ArpCall) :
    (A.call c).2.arpDirection = A.arpDirection ∧
      (A.call c).2.currentPattern = A.currentPattern := by
  cases c with
  | enableKey key velocity =>
    have hsame := sameSound_enableKey A key velocity
    exact ⟨hsame.arpDirection, hsame.currentPattern⟩
  | disableKey key => exact ⟨rfl, rfl⟩
  | processPattern mute =>
    obtain ⟨hdirection, hpattern, -⟩ := setting_processPattern mute A
    exact ⟨hdirection, hpattern⟩

theorem setting_play (calls : List ArpCall) (A : Arpeggiator) :
    (play calls A).2.arpDirection = A.arpDirection ∧
      (play calls A).2.currentPattern = A.currentPattern := by
  induction calls generalizing A with
  | nil => exact ⟨rfl, rfl⟩
  | cons c calls ih =>
    obtain ⟨hdirection, hpattern⟩ := setting_call A c
    exact ⟨(ih _).1.trans hdirection, (ih _).2.trans hpattern⟩

/-- After any calls from a reset on, with a built-in pattern: no note is on but the one in `note`,
and `process_pattern` reads only fingers that are down and starts no note but that of the finger it
reads, shifted by the octave of a note of the pattern. -/
theorem plays_held_note (start : Arpeggiator) (direction : ArpeggioDirection) (id : ArpPatternId)
    (calls : List ArpCall) :
    let (played, A) := play calls ((start.reset.setDirection direction).setPattern (some id))
    (∀ n, Pending PadCall.Starts PadCall.Ends played n → n = A.note) ∧
    ∀ mute, (∀ i, A.fingerRead mute = some i → 0 ≤ i ∧ i < A.finger.length) ∧
      ∀ note velocity, .queueNoteOn note velocity ∈ (A.processPattern mute).1 →
        ∃ n ∈ builtIn id, ∃ i f, A.fingerRead mute = some i ∧ A.finger[i.toNat]? = some f ∧
          note = (f.key + n.octaveOffset * 12) % 128 ∧ velocity = f.velocity := by
  generalize hA : (start.reset.setDirection direction).setPattern (some id) = A
  have hpattern : A.currentPattern = some (builtIn id) := by rw [← hA]; rfl
  have haccounts := accounts_play calls A
  have hsetting := (setting_play calls A).2.trans hpattern
  dsimp only
  refine ⟨fun n hn ↦ (haccounts n (.inr hn)).2, fun mute ↦ ⟨fun i ↦ fingerRead_lt, ?_⟩⟩
  intro note velocity hstarts
  obtain ⟨pattern, n, i, f, hactive, hn, hread, hf, hnote, hvelocity⟩ :=
    starts_processPattern hstarts
  have hsame : pattern = builtIn id := by
    rw [activePattern, hsetting] at hactive
    split at hactive
    · cases hactive
    · exact (Option.some.inj (Option.filter_eq_some_iff.mp hactive).1).symm
  exact ⟨n, hsame ▸ hn, i, f, hread, hf, hnote, hvelocity⟩

-- A key that is held is played in its own octave and in the next one, as pattern 2 says.
example : (play (.enableKey 60 100 :: List.replicate 40 (.processPattern false))
    ((new.reset.setDirection .arpForward).setPattern (some 2))).1.filter
      (fun c ↦ c matches .queueNoteOn _ _) =
    [.queueNoteOn 60 100, .queueNoteOn 72 100, .queueNoteOn 60 100] := by
  decide +kernel

end Arpeggiator

end Vuknob
