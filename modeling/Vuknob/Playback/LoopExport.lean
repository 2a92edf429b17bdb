import Mathlib.Data.List.Sort
import Vuknob.Playback.LoopNotes
import Vuknob.Playback.PadExport

/-!
# Pads that are exported to loops

`MachineSequencer::export_pad_to_loop`, `src_jni/machine_sequencer.cc:1049–1090`, plays the pad into
a `PadMidiExportBuilder`, `src_jni/midi_generation.hh:101–184`, that makes notes of a loop out of
the calls. The loop is a new one; one that is used again is cleared first.
-/

namespace Vuknob

/-! ### The time of notes in a loop -/

/-- The note entry of an event. -/
def LoopEvent.entry : LoopEvent → NoteEntry
  | .noteOn n => n
  | .noteOff n => n

/-- The event starts a pitch. -/
def LoopEvent.Starts (e : LoopEvent) (pitch : Int) : Prop :=
  ∃ n, e = .noteOn n ∧ (n.note.toNat : Int) = pitch

/-- The event ends a pitch. -/
def LoopEvent.Ends (e : LoopEvent) (pitch : Int) : Prop :=
  ∃ n, e = .noteOff n ∧ (n.note.toNat : Int) = pitch

namespace Loop

/-- A loop that has not been played, `src_jni/machine_sequencer.cc:128–134`, with some notes. -/
def new (note : List NoteEntry) : Loop where
  note := note
  loopPosition := 0
  nextNoteToPlay := 0
  activeNote := List.replicate maxActiveNotes none
  ticks2off := fun _ ↦ 0

/-- `process` for some ticks, unmuted while the machines are playing: the events of each tick. -/
def playTicks : Nat → Loop → Option (List (List LoopEvent))
  | 0, _ => some []
  | ticks + 1, L => do
    let (events, L) ← L.process true
    let more ← playTicks ticks L
    some (events :: more)

/-- The notes in the slots, except those at `early`, have been counted down to a position. -/
structure Timed (early : List Nat) (L : Loop) : Prop where
  tidy : L.Tidy
  lengths : ∀ n ∈ L.note, -1 ≤ n.length
  before : ∀ (x k : Nat), L.activeNote[x]? = some (some k) → k < L.nextNoteToPlay
  counted : ∀ (x k : Nat) n, L.activeNote[x]? = some (some k) → L.note[k]? = some n →
    n.onAt + n.length + 1 =
      (if x ∈ early then L.loopPosition else L.loopPosition + 1) + L.ticks2off k

/-- A round of `process_note_off`. -/
theorem Timed.endNote {x : Nat} {early : List Nat} {L : Loop} (h : Timed (x :: early) L)
    (hx : x ∉ early) :
    Timed early (L.endNote x).2 ∧ (L.endNote x).2.note = L.note ∧
      (L.endNote x).2.loopPosition = L.loopPosition ∧
      ∀ e ∈ (L.endNote x).1, ∃ n ∈ L.note, e = .noteOff n ∧
        n.onAt + n.length + 1 ≤ L.loopPosition := by
  have htidy := (Ended.endNote h.tidy x).tidy
  have hother : ∀ y k : Nat, y ≠ x → (y ∈ x :: early ↔ y ∈ early) := by
    intro y k hy
    simp [hy]
  rcases endNote_cases h.tidy x with ⟨k, hk, hpos, heq⟩ | ⟨k, hk, hle, heq⟩ | ⟨hno, heq⟩
  · rw [heq] at htidy ⊢
    refine ⟨⟨htidy, h.lengths, h.before, fun y j n hj hn ↦ ?_⟩, rfl, rfl, nofun⟩
    have hcounted := h.counted y j n hj hn
    by_cases hy : y = x
    · subst hy
      obtain rfl : k = j := Option.some.inj (Option.some.inj (hk.symm.trans hj))
      rw [if_pos (List.mem_cons_self ..)] at hcounted
      simp only [if_neg hx, Function.update_self]
      omega
    · have hne : j ≠ k := fun he ↦ hy (h.tidy.once y x k (he ▸ hj) hk)
      simp only [hother y j hy] at hcounted
      simp only [Function.update_of_ne hne]
      exact hcounted
  · rw [heq] at htidy ⊢
    have hset : ∀ y j : Nat, (L.activeNote.set x none)[y]? = some (some j) →
        y ≠ x ∧ L.activeNote[y]? = some (some j) := by
      intro y j hy
      rw [List.getElem?_set] at hy
      split at hy
      · split at hy <;> simp at hy
      · next hne => exact ⟨fun he ↦ hne he.symm, hy⟩
    refine ⟨⟨htidy, h.lengths, fun y j hj ↦ h.before y j (hset y j hj).2, ?_⟩, rfl, rfl, ?_⟩
    · intro y j n hj hn
      obtain ⟨hy, hj⟩ := hset y j hj
      have hcounted := h.counted y j n hj hn
      simp only [hother y j hy] at hcounted
      exact hcounted
    · intro e he
      obtain ⟨n, hn, rfl⟩ := List.mem_map.mp he
      rw [Option.mem_toList] at hn
      have hcounted := h.counted x k n hk hn
      rw [if_pos (List.mem_cons_self ..)] at hcounted
      exact ⟨n, List.mem_of_getElem? hn, rfl, by omega⟩
  · rw [heq] at htidy ⊢
    refine ⟨⟨htidy, h.lengths, h.before, fun y j n hj hn ↦ ?_⟩, rfl, rfl, nofun⟩
    have hy : y ≠ x := by
      rintro rfl
      exact hno j hj
    have hcounted := h.counted y j n hj hn
    simp only [hother y j hy] at hcounted
    exact hcounted

theorem Timed.endNotes {early : List Nat} {L : Loop} (h : Timed early L) (hnodup : early.Nodup) :
    Timed [] (L.endNotes early).2 ∧ (L.endNotes early).2.note = L.note ∧
      (L.endNotes early).2.loopPosition = L.loopPosition ∧
      ∀ e ∈ (L.endNotes early).1, ∃ n ∈ L.note, e = .noteOff n ∧
        n.onAt + n.length + 1 ≤ L.loopPosition := by
  induction early generalizing L with
  | nil => exact ⟨h, rfl, rfl, nofun⟩
  | cons x early ih =>
    obtain ⟨hx, hnodup⟩ := List.nodup_cons.mp hnodup
    obtain ⟨hfirst, hnote, hposition, hevents⟩ := h.endNote hx
    obtain ⟨hrest, hnote', hposition', hevents'⟩ := ih hfirst hnodup
    rw [endNotes_cons]
    refine ⟨hrest, hnote'.trans hnote, hposition'.trans hposition, fun e he ↦ ?_⟩
    rcases List.mem_append.mp he with he | he
    · exact hevents e he
    · obtain ⟨n, hn, heq, hle⟩ := hevents' e he
      exact ⟨n, hnote ▸ hn, heq, hposition ▸ hle⟩

/-- A round of `process_note_on`. -/
theorem Timed.startNote {early : List Nat} {L L' : Loop} {n : NoteEntry} {rest : List NoteEntry}
    {events : List LoopEvent} (h : Timed early L) (hearly : ∀ x < maxActiveNotes, x ∈ early)
    (hrest : L.note.drop L.nextNoteToPlay = n :: rest) (hon : n.onAt = L.loopPosition)
    (hs : L.startNote true n = some (events, L')) :
    Timed early L' ∧ L'.note = L.note ∧ L'.loopPosition = L.loopPosition ∧
      L'.note.drop L'.nextNoteToPlay = rest ∧ ∀ e ∈ events, ∃ n ∈ L.note, e = .noteOn n := by
  have hn : L.note[L.nextNoteToPlay]? = some n := by
    rw [← List.head?_drop, hrest, List.head?_cons]
  have hdrop : L.note.drop (L.nextNoteToPlay + 1) = rest := by
    rw [← List.drop_drop, hrest]
    rfl
  unfold Loop.startNote at hs
  rcases activateNote_cases L L.nextNoteToPlay with ⟨x, hx, hact⟩ | ⟨-, hact⟩
  · simp only [hact, Option.map_eq_some_iff] at hs
    obtain ⟨ticks, hticks, heq⟩ := hs
    obtain ⟨rfl, rfl⟩ := Prod.mk.inj heq
    obtain ⟨-, rfl⟩ := int_eq_some_iff.mp hticks
    have hlt : x < L.activeNote.length := (List.getElem?_eq_some_iff.mp hx).1
    have hfresh : ¬ L.Sounding L.nextNoteToPlay := by
      intro hsounding
      obtain ⟨y, hy⟩ := sounding_iff.mp hsounding
      exact absurd (h.before y _ hy) (Nat.lt_irrefl _)
    have hstart := h.tidy.activate hx hfresh hn (h.lengths n (List.mem_of_getElem? hn))
    have hget : ∀ y k : Nat, (L.activeNote.set x (some L.nextNoteToPlay))[y]? = some (some k) →
        (y = x ∧ k = L.nextNoteToPlay) ∨ L.activeNote[y]? = some (some k) := by
      intro y k hy
      rw [List.getElem?_set] at hy
      split at hy
      · next he =>
        exact .inl ⟨he.symm, (Option.some.inj (Option.some.inj hy)).symm⟩
      · exact .inr hy
    refine ⟨⟨hstart.tidy, h.lengths, fun y k hk ↦ ?_, fun y k m hk hm ↦ ?_⟩, rfl, rfl, hdrop, ?_⟩
    · rcases hget y k hk with ⟨-, rfl⟩ | hk
      · exact Nat.lt_succ_self _
      · exact Nat.lt_succ_of_lt (h.before y k hk)
    · rcases hget y k hk with ⟨rfl, rfl⟩ | hk
      · obtain rfl := Option.some.inj (hn.symm.trans hm)
        have hslot := hearly y (h.tidy.slots ▸ hlt)
        simp only [if_pos hslot, Function.update_self]
        omega
      · have hne : k ≠ L.nextNoteToPlay := Nat.ne_of_lt (h.before y k hk)
        simp only [Function.update_of_ne hne]
        exact h.counted y k m hk hm
    · intro e he
      exact ⟨n, List.mem_of_getElem? hn, List.mem_singleton.mp he⟩
  · simp only [hact, Option.some.injEq, Prod.mk.injEq] at hs
    obtain ⟨rfl, rfl⟩ := hs
    refine ⟨⟨⟨h.tidy.slots, h.tidy.once, h.tidy.counting⟩, h.lengths, fun y k hk ↦ ?_, h.counted⟩,
      rfl, rfl, hdrop, nofun⟩
    exact Nat.lt_succ_of_lt (h.before y k hk)

theorem Timed.startNotes {early : List Nat} {L L' : Loop} {rest : List NoteEntry}
    {events : List LoopEvent} (h : Timed early L) (hearly : ∀ x < maxActiveNotes, x ∈ early)
    (hrest : L.note.drop L.nextNoteToPlay = rest)
    (hs : Loop.startNotes true rest L = some (events, L')) :
    Timed early L' ∧ L'.note = L.note ∧ L'.loopPosition = L.loopPosition ∧
      ∀ e ∈ events, ∃ n ∈ L.note, e = .noteOn n := by
  induction rest generalizing L L' events with
  | nil =>
    obtain ⟨rfl, rfl⟩ := Prod.mk.inj (Option.some.inj hs)
    exact ⟨h, rfl, rfl, nofun⟩
  | cons n rest ih =>
    rw [Loop.startNotes] at hs
    split at hs
    · next hon =>
      simp only [Option.bind_eq_bind, Option.bind_eq_some_iff] at hs
      obtain ⟨⟨e₁, L₁⟩, h₁, ⟨e₂, L₂⟩, h₂, heq⟩ := hs
      obtain ⟨rfl, rfl⟩ := Prod.mk.inj (Option.some.inj heq)
      obtain ⟨hfirst, hnote, hposition, hrest₁, hevents⟩ := h.startNote hearly hrest hon h₁
      obtain ⟨hlast, hnote', hposition', hevents'⟩ := ih hfirst hrest₁ h₂
      refine ⟨hlast, hnote'.trans hnote, hposition'.trans hposition, fun e he ↦ ?_⟩
      rcases List.mem_append.mp he with he | he
      · exact hevents e he
      · exact hnote ▸ hevents' e he
    · obtain ⟨rfl, rfl⟩ := Prod.mk.inj (Option.some.inj hs)
      exact ⟨h, rfl, rfl, nofun⟩

/-- The slots of a loop. -/
theorem mem_range_maxActiveNotes {x : Nat} (h : x < maxActiveNotes) :
    x ∈ List.range maxActiveNotes := List.mem_range.mpr h

/-- In a tick notes are ended that are over for more than a tick. -/
theorem Timed.process {L L' : Loop} {events : List LoopEvent}
    (h : Timed (List.range maxActiveNotes) L) (hp : L.process true = some (events, L')) :
    Timed (List.range maxActiveNotes) L' ∧ L'.note = L.note ∧
      L'.loopPosition = L.loopPosition + 1 ∧ ∀ e ∈ events, e.entry ∈ L.note ∧
        ∀ n, e = .noteOff n → n.onAt + n.length + 1 ≤ L.loopPosition := by
  simp only [Loop.process, Option.bind_eq_some_iff, Option.map_eq_some_iff, Prod.mk.injEq] at hp
  obtain ⟨⟨started, L₁⟩, hon, position, hposition, rfl, rfl⟩ := hp
  obtain ⟨hstarted, hnote₁, hposition₁, hons⟩ :=
    h.startNotes (fun x ↦ mem_range_maxActiveNotes) rfl hon
  have hoff := hstarted.endNotes List.nodup_range
  rw [← processNoteOff] at hoff
  generalize L₁.processNoteOff = r at hoff hposition ⊢
  obtain ⟨hended, hnote₂, hposition₂, hoffs⟩ := hoff
  obtain ⟨-, rfl⟩ := int_eq_some_iff.mp hposition
  have hslot : ∀ x k : Nat, r.2.activeNote[x]? = some (some k) →
      x ∈ List.range maxActiveNotes := by
    intro x k hk
    refine mem_range_maxActiveNotes ?_
    rw [← hended.tidy.slots]
    exact (List.getElem?_eq_some_iff.mp hk).1
  refine ⟨⟨⟨hended.tidy.slots, hended.tidy.once, hended.tidy.counting⟩, hended.lengths,
    hended.before, fun x k n hk hn ↦ ?_⟩, hnote₂.trans hnote₁, ?_, fun e he ↦ ?_⟩
  · have hcounted := hended.counted x k n hk hn
    rw [if_neg List.not_mem_nil] at hcounted
    rw [if_pos (hslot x k hk)]
    exact hcounted
  · show r.2.loopPosition + 1 = L.loopPosition + 1
    rw [hposition₂, hposition₁]
  · rcases List.mem_append.mp he with he | he
    · obtain ⟨n, hn, rfl⟩ := hons e he
      exact ⟨hn, fun m hm ↦ by cases hm⟩
    · obtain ⟨n, hn, rfl, hle⟩ := hoffs e he
      rw [hnote₁] at hn
      rw [hposition₁] at hle
      refine ⟨hn, fun m hm ↦ ?_⟩
      obtain rfl := LoopEvent.noteOff.inj hm
      exact hle

/-- A note ends, at the earliest, when it is over for more than a tick. -/
theorem Timed.playTicks {L : Loop} {ticks : Nat} {history : List (List LoopEvent)}
    (h : Timed (List.range maxActiveNotes) L) (hp : L.playTicks ticks = some history) :
    history.length = ticks ∧ ∀ (t : Nat) events, history[t]? = some events → ∀ e ∈ events,
      e.entry ∈ L.note ∧
        ∀ n, e = .noteOff n → n.onAt + n.length + 1 ≤ L.loopPosition + t := by
  induction ticks generalizing L history with
  | zero =>
    obtain rfl := Option.some.inj hp
    exact ⟨rfl, nofun⟩
  | succ ticks ih =>
    simp only [Loop.playTicks, Option.bind_eq_bind, Option.bind_eq_some_iff] at hp
    obtain ⟨⟨events, L'⟩, hfirst, more, hmore, heq⟩ := hp
    obtain rfl := Option.some.inj heq
    obtain ⟨hnext, hnote, hposition, hevents⟩ := h.process hfirst
    obtain ⟨hlength, hlater⟩ := ih hnext hmore
    refine ⟨by rw [List.length_cons, hlength], fun t found hfound e he ↦ ?_⟩
    cases t with
    | zero =>
      obtain rfl := Option.some.inj hfound
      refine ⟨(hevents e he).1, fun n hn ↦ ?_⟩
      have := (hevents e he).2 n hn
      omega
    | succ t =>
      obtain ⟨hmem, hoff⟩ := hlater t found hfound e he
      refine ⟨hnote ▸ hmem, fun n hn ↦ ?_⟩
      have := hoff n hn
      omega

theorem timed_new {note : List NoteEntry} (h : ∀ n ∈ note, -1 ≤ n.length) :
    Timed (List.range maxActiveNotes) (new note).startToPlay := by
  have hnone : ∀ x k : Nat, (new note).startToPlay.activeNote[x]? ≠ some (some k) := by
    intro x k hk
    have := List.eq_of_mem_replicate (List.mem_of_getElem? hk)
    cases this
  refine ⟨⟨List.length_replicate, fun x _ k hk ↦ absurd hk (hnone x k), fun k hk ↦ ?_⟩, h,
    fun x k hk ↦ absurd hk (hnone x k), fun x k _ hk ↦ absurd hk (hnone x k)⟩
  obtain ⟨x, hx⟩ := sounding_iff.mp hk
  exact absurd hx (hnone x k)

end Loop

/-! ### The builder of the export -/

/-- `internal_insert_note`, `src_jni/machine_sequencer.cc:307–345`, on the list of notes: a note goes
behind those that are on at the same time. -/
def insertNote (n : NoteEntry) (note : List NoteEntry) : List NoteEntry :=
  note.orderedInsert (fun a b ↦ a.onAt < b.onAt) n

/-- `PadMidiExportBuilder`, `src_jni/midi_generation.hh:101–122`, with the notes of its loop;
`current_tick` is in `PadExport`. -/
structure PadMidiExportBuilder where
  activeNotes : Int → Option NoteEntry
  exportTick : Int
  note : List NoteEntry

namespace PadMidiExportBuilder

/-- The constructor, `src_jni/midi_generation.hh:130–138`, for a loop without notes. -/
def new : PadMidiExportBuilder := ⟨fun _ ↦ none, 0, []⟩

/-- `queue_note_on`, `src_jni/midi_generation.hh:140–153`. -/
def queueNoteOn (note velocity : Int) (B : PadMidiExportBuilder) : PadMidiExportBuilder :=
  match B.activeNotes note with
  | some _ => B
  | none =>
    let n := ⟨0, UInt8.ofInt velocity, UInt8.ofInt note, B.exportTick, 0⟩
    { B with activeNotes := Function.update B.activeNotes note (some n) }

/-- `queue_note_off`, `src_jni/midi_generation.hh:155–166`. -/
def queueNoteOff (note : Int) (B : PadMidiExportBuilder) : PadMidiExportBuilder :=
  match B.activeNotes note with
  | some n =>
    { B with
      note := insertNote { n with length := B.exportTick - n.onAt } B.note
      activeNotes := Function.update B.activeNotes note none }
  | none => B

/-- The calls; controllers and pitch bend are ignored, `src_jni/midi_generation.hh:168–178`. -/
def queue (B : PadMidiExportBuilder) : PadCall → PadMidiExportBuilder
  | .queueNoteOn note velocity => B.queueNoteOn note velocity
  | .queueNoteOff note _ => B.queueNoteOff note
  | .queueController _ _ => B
  | .queuePitchBend _ _ => B

/-- `step_tick`, `src_jni/midi_generation.hh:180–184`. -/
def stepTick (B : PadMidiExportBuilder) : PadMidiExportBuilder :=
  { B with exportTick := B.exportTick + 1 }

/-- The calls of one tick after the other. -/
def build (calls : List (List PadCall)) (B : PadMidiExportBuilder) : PadMidiExportBuilder :=
  calls.foldl (fun B now ↦ (now.foldl queue B).stepTick) B

/-- The notes end at ticks of some kind, and those that are active have begun. -/
structure EndsAt (tick : Int → Prop) (B : PadMidiExportBuilder) : Prop where
  note : ∀ n ∈ B.note, 0 ≤ n.length ∧ tick (n.onAt + n.length)
  active : ∀ q n, B.activeNotes q = some n → n.onAt ≤ B.exportTick

theorem EndsAt.queue {tick : Int → Prop} {B : PadMidiExportBuilder} (h : B.EndsAt tick)
    {c : PadCall} (hc : ∀ q, c.Ends q → tick B.exportTick) :
    (B.queue c).EndsAt tick ∧ (B.queue c).exportTick = B.exportTick := by
  cases c with
  | queueController | queuePitchBend => exact ⟨h, rfl⟩
  | queueNoteOn note velocity =>
    show (B.queueNoteOn note velocity).EndsAt tick ∧
      (B.queueNoteOn note velocity).exportTick = B.exportTick
    rw [queueNoteOn]
    cases B.activeNotes note with
    | some n => exact ⟨h, rfl⟩
    | none =>
      refine ⟨⟨h.note, fun q n hn ↦ ?_⟩, rfl⟩
      by_cases hq : q = note
      · subst hq
        obtain rfl := Option.some.inj ((Function.update_self q _ B.activeNotes).symm.trans hn)
        exact Int.le_refl _
      · exact h.active q n ((Function.update_of_ne hq _ _).symm.trans hn)
  | queueNoteOff note velocity =>
    show (B.queueNoteOff note).EndsAt tick ∧ (B.queueNoteOff note).exportTick = B.exportTick
    rw [queueNoteOff]
    cases hactive : B.activeNotes note with
    | none => exact ⟨h, rfl⟩
    | some n =>
      have hon := h.active note n hactive
      have htick := hc note (PadCall.ends_queueNoteOff.mpr rfl)
      refine ⟨⟨fun m hm ↦ ?_, fun q m hm ↦ ?_⟩, rfl⟩
      · rcases (List.perm_orderedInsert _ _ _).mem_iff.mp hm |> List.mem_cons.mp with rfl | hm
        · refine ⟨by dsimp only; omega, ?_⟩
          have hend : n.onAt + (B.exportTick - n.onAt) = B.exportTick := by omega
          exact hend.symm ▸ htick
        · exact h.note m hm
      · by_cases hq : q = note
        · subst hq
          cases (Function.update_self q _ B.activeNotes).symm.trans hm
        · exact h.active q m ((Function.update_of_ne hq _ _).symm.trans hm)

theorem EndsAt.build {tick : Int → Prop} {calls : List (List PadCall)} {B : PadMidiExportBuilder}
    (h : B.EndsAt tick) (hcalls : ∀ (t : Nat) now, calls[t]? = some now → ∀ c ∈ now, ∀ q,
      c.Ends q → tick (B.exportTick + t)) : (B.build calls).EndsAt tick := by
  induction calls generalizing B with
  | nil => exact h
  | cons now calls ih =>
    have hnow : ∀ (done : List PadCall) (B' : PadMidiExportBuilder), B'.EndsAt tick →
        B'.exportTick = B.exportTick → (∀ c ∈ done, ∀ q, c.Ends q → tick B.exportTick) →
        (done.foldl PadMidiExportBuilder.queue B').EndsAt tick ∧
          (done.foldl PadMidiExportBuilder.queue B').exportTick = B.exportTick := by
      intro done
      induction done with
      | nil => exact fun B' hB' htick _ ↦ ⟨hB', htick⟩
      | cons c done ihd =>
        intro B' hB' htick hends
        obtain ⟨hnext, htick'⟩ := hB'.queue (c := c) fun q hq ↦
          htick ▸ hends c (List.mem_cons_self ..) q hq
        exact ihd _ hnext (htick'.trans htick) fun c' hc' ↦ hends c' (List.mem_cons_of_mem c hc')
    obtain ⟨hdone, htick⟩ := hnow now B h rfl fun c hc q hq ↦ by
      have := hcalls 0 now rfl c hc q hq
      rwa [Int.natCast_zero, Int.add_zero] at this
    refine ih (B := (now.foldl PadMidiExportBuilder.queue B).stepTick)
      ⟨hdone.note, fun q n hn ↦ ?_⟩ fun t later hlater c hc q hq ↦ ?_
    · exact Int.le_trans (hdone.active q n hn) (Int.le_add_one (Int.le_refl _))
    · have := hcalls (t + 1) later hlater c hc q hq
      rw [stepTick, htick]
      have heq : B.exportTick + 1 + (t : Int) = B.exportTick + ((t + 1 : Nat) : Int) := by omega
      exact heq ▸ this

end PadMidiExportBuilder

/-! ### The pad that is played -/

/-- The pad is played from a tick on: the calls of each tick. -/
def Pad.playTicks (around : PadSurroundings) : Nat → Int → Pad → List (List PadCall)
  | 0, _, _ => []
  | ticks + 1, tick, p =>
    let (calls, p) := p.process false tick around
    calls :: playTicks around ticks (tick + 1) p

/-- The pad as it is before it is played: nothing is in play, touched or recorded. -/
def Pad.atRest (p : Pad) : Pad := { p.reset with padEventQueue := [], doRecord := false }

/-- Where nothing is recorded, it makes no difference if it would be quantized. -/
theorem PadFinger.playMotions_quantize (mute quantize : Bool) (scales : Scales) (l : List Nat)
    (F : PadFinger) : F.playMotions false mute quantize scales l =
      F.playMotions false mute false scales l := by
  induction l generalizing F with
  | nil => rfl
  | cons k rest ih =>
    have hfirst : F.playMotion false mute quantize scales k =
        F.playMotion false mute false scales k := rfl
    rw [PadFinger.playMotions, PadFinger.playMotions, hfirst]
    dsimp only
    rw [ih]

theorem PadSession.processSession_quantize (mute quantize : Bool) (scales : Scales)
    (s : PadSession) : s.processSession false mute quantize scales =
      s.processSession false mute false scales := by
  have hfinger : ∀ position f, (s.finger f).processFingerMotions false mute position quantize
      scales = (s.finger f).processFingerMotions false mute position false scales := by
    intro position f
    exact PadFinger.playMotions_quantize ..
  simp only [PadSession.processSession, hfinger]

namespace PadSession

/-- The session, if it is in play at a tick. -/
def playingAt (tick : Int) (s : PadSession) : Option PadSession :=
  if (s.startPlay tick).inPlay then some (s.startPlay tick) else none

/-- A session of a pad that is played: it comes to an end, and is in play only after its start. -/
structure Listed (tick : Int) (s : PadSession) : Prop where
  terminated : s.terminated = true
  start : 0 ≤ s.startAtTick
  started : s.inPlay = true → s.startAtTick < tick

theorem startPlay_of_not_now {tick : Int} {s : PadSession} (h : s.startAtTick ≠ tick) :
    s.startPlay tick = s := by
  rw [startPlay, if_neg h, ite_self]

theorem static_startPlay (tick : Int) (s : PadSession) :
    (s.startPlay tick).startAtTick = s.startAtTick ∧
      (s.startPlay tick).terminated = s.terminated := by
  rw [startPlay]
  split
  · exact ⟨rfl, rfl⟩
  · split <;> exact ⟨rfl, rfl⟩

/-- The end of a session is seen by the pad and by the export. -/
theorem processSession_eq (quantize : Bool) {scales : Scales} {t : PadSession}
    (hterminated : t.terminated = true) (hstart : 0 ≤ t.startAtTick) :
    ∃ calls delete t', t.processSession false false quantize scales = (calls, delete, t') ∧
      PadExport.processSession scales t = (calls, if t'.inPlay then some t' else none) ∧
      t'.terminated = true ∧ t'.startAtTick = t.startAtTick ∧
      (delete = true → t'.inPlay = false) := by
  rw [processSession_quantize]
  have hnot : (t.processSession false false false scales).2.2.startAtTick ≠ -1 := by
    show t.startAtTick ≠ -1
    omega
  refine ⟨(t.processSession false false false scales).1,
    (t.processSession false false false scales).2.1,
    (t.processSession false false false scales).2.2, rfl, ?_, hterminated, rfl, fun hdelete ↦ ?_⟩
  · rw [PadExport.processSession]
    dsimp only
    rw [startPlay_of_not_now hnot]
  · dsimp only [processSession] at hdelete ⊢
    rw [(Bool.and_eq_true_iff.mp hdelete).1, hterminated]
    rfl

/-- One tick of a session in a pad that is played, and in the export. -/
theorem Listed.play {tick : Int} {s : PadSession} (h : s.Listed tick) (quantize : Bool)
    (scales : Scales) :
    (s.play false false quantize tick scales).1 =
        ((s.playingAt tick).toList.map (PadExport.processSession scales)).flatMap Prod.fst ∧
      (∀ t ∈ (s.play false false quantize tick scales).2, t.Listed (tick + 1)) ∧
      (s.play false false quantize tick scales).2.toList.filter PadSession.inPlay =
        ((s.playingAt tick).toList.map (PadExport.processSession scales)).filterMap Prod.snd ∧
      ((s.play false false quantize tick scales).2.toList.filter fun t ↦
          !t.inPlay && tick + 1 ≤ t.startAtTick) =
        (([s].filter fun t ↦ !t.inPlay && tick ≤ t.startAtTick).map (startPlay tick)).filter
          fun t ↦ !t.inPlay := by
  obtain ⟨hstart, hterminated⟩ := s.static_startPlay tick
  rw [PadSession.play, playingAt]
  by_cases hplay : (s.startPlay tick).inPlay = true
  · have htick : s.startAtTick ≤ tick := by
      by_cases hin : s.inPlay = true
      · exact Int.le_of_lt (h.started hin)
      · by_contra hlate
        rw [startPlay_of_not_now (by omega)] at hplay
        exact hin hplay
    obtain ⟨calls, delete, t', hprocess, hexport, hterminated', hstart', hdelete⟩ :=
      @processSession_eq quantize scales _ (hterminated.trans h.terminated)
        (by rw [hstart]; exact h.start)
    have hlate : ¬ tick + 1 ≤ t'.startAtTick := by omega
    have hleft : (([s].filter fun t ↦ !t.inPlay && tick ≤ t.startAtTick).map
        (startPlay tick)).filter (fun t ↦ !t.inPlay) = [] := by
      refine List.filter_eq_nil_iff.mpr fun t ht ↦ ?_
      obtain ⟨s', hs', rfl⟩ := List.mem_map.mp ht
      obtain rfl := List.mem_singleton.mp (List.mem_filter.mp hs').1
      rw [hplay]
      exact Bool.false_ne_true
    dsimp only
    rw [if_pos hplay, if_pos hplay, hprocess, hleft, Option.toList_some, List.map_singleton, hexport]
    dsimp only
    refine ⟨by simp, fun t ht ↦ ?_, ?_, ?_⟩
    · split at ht
      · cases ht
      · obtain rfl := Option.some.inj ht
        exact ⟨hterminated', by rw [hstart', hstart]; exact h.start, fun _ ↦ by omega⟩
    · cases hd : delete with
      | true => simp [hdelete hd]
      | false => cases hin : t'.inPlay <;> simp [hin]
    · split
      · rfl
      · rw [Option.toList_some, List.filter_cons, decide_eq_false hlate, Bool.and_false]
        rfl
  · have hidle : s.inPlay = false := by
      by_contra hin
      rw [Bool.not_eq_false] at hin
      rw [startPlay, if_pos hin] at hplay
      exact hplay hin
    have hnow : s.startAtTick ≠ tick := by
      intro hnow
      rw [startPlay, hidle, if_neg Bool.false_ne_true, if_pos hnow] at hplay
      exact hplay rfl
    have hlater : decide (tick + 1 ≤ s.startAtTick) = decide (tick ≤ s.startAtTick) :=
      decide_eq_decide.mpr (by omega)
    rw [startPlay_of_not_now hnow]
    dsimp only
    rw [hidle, if_neg Bool.false_ne_true, if_neg Bool.false_ne_true]
    refine ⟨rfl, fun t ht ↦ ?_, ?_, ?_⟩
    · obtain rfl := Option.some.inj ht
      exact ⟨h.terminated, h.start, fun hin ↦ absurd (hidle.symm.trans hin) nofun⟩
    · simp [hidle]
    · rw [Option.toList_some, List.filter_cons, List.filter_cons, hlater, hidle]
      by_cases hlate : tick ≤ s.startAtTick
      · rw [decide_eq_true hlate]
        simp [hidle, startPlay_of_not_now hnow]
      · rw [decide_eq_false hlate]
        rfl

/-- Sessions that are in play, or start, are in play at the tick. -/
theorem toList_playingAt (tick : Int) (s : PadSession) :
    [s].filter PadSession.inPlay ++ (([s].filter fun t ↦
        !t.inPlay && tick ≤ t.startAtTick).map (startPlay tick)).filter PadSession.inPlay =
      (s.playingAt tick).toList := by
  rw [playingAt]
  cases hin : s.inPlay with
  | true =>
    have hsame : s.startPlay tick = s := by rw [startPlay, if_pos hin]
    simp [hin, hsame]
  | false =>
    by_cases hnow : s.startAtTick = tick
    · cases hplay : (s.startPlay tick).inPlay <;> simp [hin, hnow, hplay]
    · simp [hin, startPlay_of_not_now hnow]

end PadSession

namespace PadExport

/-- What one tick does to all sessions, see `PadSession.Listed.play`. -/
theorem play_sessions {tick : Int} (quantize : Bool) (scales : Scales) {sessions : List PadSession}
    (h : ∀ s ∈ sessions, s.Listed tick) :
    let play := PadSession.play false false quantize tick scales
    let inPlay := (sessions.filterMap (PadSession.playingAt tick)).map (processSession scales)
    let waiting tick sessions := List.filter
      (fun s : PadSession ↦ !s.inPlay && decide (tick ≤ s.startAtTick)) sessions
    sessions.flatMap (fun s ↦ (play s).1) = inPlay.flatMap Prod.fst ∧
      (∀ t ∈ sessions.filterMap fun s ↦ (play s).2, t.Listed (tick + 1)) ∧
      (sessions.filterMap fun s ↦ (play s).2).filter PadSession.inPlay =
        inPlay.filterMap Prod.snd ∧
      waiting (tick + 1) (sessions.filterMap fun s ↦ (play s).2) =
        ((waiting tick sessions).map (PadSession.startPlay tick)).filter (fun s ↦ !s.inPlay) ∧
      (sessions.filter PadSession.inPlay ++
          ((waiting tick sessions).map (PadSession.startPlay tick)).filter PadSession.inPlay).Perm
        (sessions.filterMap (PadSession.playingAt tick)) := by
  dsimp only
  induction sessions with
  | nil => simp
  | cons s sessions ih =>
    have hs := h s (List.mem_cons_self ..)
    obtain ⟨hcalls, hlisted, hin, hwaiting⟩ := hs.play quantize scales
    have hplaying := s.toList_playingAt tick
    obtain ⟨ihcalls, ihlisted, ihin, ihwaiting, ihplaying⟩ :=
      ih fun t ht ↦ h t (List.mem_cons_of_mem s ht)
    have hone : ∀ f : PadSession → Option PadSession, [s].filterMap f = (f s).toList := by
      intro f
      cases hf : f s <;> simp [hf]
    rw [← List.singleton_append (l := sessions)]
    simp only [List.flatMap_append, List.filterMap_append, List.filter_append, List.map_append,
      ihcalls, ihin, ihwaiting, hone, hin, hwaiting]
    refine ⟨?_, ?_, trivial, trivial, ?_⟩
    · rw [List.flatMap_singleton, hcalls]
    · intro t ht
      rcases List.mem_append.mp ht with ht | ht
      · exact hlisted t (Option.mem_toList.mp ht)
      · exact ihlisted t ht
    · rw [← hplaying, List.append_assoc, List.append_assoc]
      refine .append_left _ (.trans (List.perm_append_comm_assoc ..) ?_)
      exact .append_left _ ihplaying

/-- The export, and a pad that is played: the same sessions are in play or are to come. -/
structure InStep (E : PadExport) (p : Pad) : Prop where
  sessions : ∀ s ∈ p.sessions, s.Listed E.currentTick
  remaining : E.remainingSessions =
    p.sessions.filter fun s ↦ !s.inPlay && E.currentTick ≤ s.startAtTick
  active : E.activeSessions.Perm (p.sessions.filter PadSession.inPlay)
  untouched : p.padEventQueue = []
  current : p.currentSession = none
  recording : p.doRecord = false

theorem InStep.round {E : PadExport} {p : Pad} (h : InStep E p) (around : PadSurroundings) :
    (E.round around.scales).1.Perm (p.process false E.currentTick around).1 ∧
      InStep (E.round around.scales).2 (p.process false E.currentTick around).2 := by
  obtain ⟨hcalls, hlisted, hin, hwaiting, hplaying⟩ :=
    play_sessions p.doQuantize around.scales h.sessions
  have hprocess : p.process false E.currentTick around =
      p.processSessions false E.currentTick around.scales := by
    rw [Pad.process, Pad.processEvents, h.untouched]
    show Pad.processSessions _ _ _ { p with padEventQueue := [] } = _
    rw [← h.untouched]
  have hactive : E.startSessions.activeSessions.Perm
      (p.sessions.filterMap (PadSession.playingAt E.currentTick)) := by
    refine .trans ?_ hplaying
    rw [startSessions, h.remaining]
    exact .append_right _ h.active
  have hplayed := hactive.map (processSession around.scales)
  rw [hprocess, Pad.processSessions, h.current]
  simp only [Pad.playSession, h.recording, Option.toList_none, List.flatMap_nil, List.append_nil]
  rw [hcalls]
  refine ⟨hplayed.flatMap_right _, ⟨hlisted, ?_, ?_, h.untouched, rfl, rfl⟩⟩
  · refine .trans ?_ hwaiting.symm
    show E.startSessions.remainingSessions = _
    rw [startSessions, h.remaining]
  · rw [hin]
    exact hplayed.filterMap _

/-- Tick by tick the export makes the calls of the pad. -/
theorem InStep.rounds {E : PadExport} {p : Pad} (h : InStep E p) {around : PadSurroundings}
    {stopTick : Int} {fuel ticks : Nat} {calls : List (List PadCall)}
    (hrounds : PadExport.rounds around.scales stopTick fuel E = some calls)
    (hticks : calls.length ≤ ticks) (t : Nat) {now : List PadCall} (hnow : calls[t]? = some now) :
    ∃ played, (p.playTicks around ticks E.currentTick)[t]? = some played ∧ now.Perm played := by
  induction fuel generalizing E p calls ticks t with
  | zero => cases hrounds
  | succ fuel ih =>
    rw [PadExport.rounds] at hrounds
    split at hrounds
    · obtain ⟨later, hlater, rfl⟩ := Option.map_eq_some_iff.mp hrounds
      obtain ⟨hcalls, hnext⟩ := h.round around
      cases ticks with
      | zero => exact absurd hticks (by simp)
      | succ ticks =>
        rw [Pad.playTicks]
        cases t with
        | zero =>
          obtain rfl := Option.some.inj hnow
          exact ⟨_, rfl, hcalls⟩
        | succ t => exact ih hnext hlater (Nat.le_of_succ_le_succ hticks) t hnow
    · obtain rfl := Option.some.inj hrounds
      cases hnow

end PadExport

/-! ### The exported loop -/

/-- Tick by tick the loop starts and ends the pitches that the pad starts and ends. -/
def Reproduces (pad : List (List PadCall)) (loop : List (List LoopEvent)) : Prop :=
  ∀ (t : Nat) pitch,
    ((∃ now, pad[t]? = some now ∧ ∃ c ∈ now, c.Starts pitch) ↔
        ∃ events, loop[t]? = some events ∧ ∃ e ∈ events, e.Starts pitch) ∧
      ((∃ now, pad[t]? = some now ∧ ∃ c ∈ now, c.Ends pitch) ↔
        ∃ events, loop[t]? = some events ∧ ∃ e ∈ events, e.Ends pitch)

/-- The loop that `export_pad_to_loop` makes of the calls, when it starts to play. -/
def exportedLoop (calls : List (List PadCall)) : Loop :=
  (Loop.new (PadMidiExportBuilder.new.build calls).note).startToPlay

/-- The pad ends a pitch at a tick. -/
def EndsIn (calls : List (List PadCall)) (tick : Int) : Prop :=
  ∃ (t : Nat) (now : List PadCall), tick = t ∧ calls[t]? = some now ∧
    ∃ c ∈ now, ∃ pitch, c.Ends pitch

/-- A note of the exported loop has the length from its start to a tick at which the pad ends a
pitch. -/
theorem endsAt_build (calls : List (List PadCall)) :
    (PadMidiExportBuilder.new.build calls).EndsAt (EndsIn calls) := by
  refine PadMidiExportBuilder.EndsAt.build ⟨nofun, nofun⟩ fun t now hnow c hc q hq ↦ ?_
  exact ⟨t, now, Int.zero_add _, hnow, c, hc, q, hq⟩

/-- The loop ends notes only after the pad has ended a pitch. -/
theorem exportedLoop_playTicks {calls : List (List PadCall)} {ticks : Nat}
    {history : List (List LoopEvent)}
    (hplay : (exportedLoop calls).playTicks ticks = some history) {t : Nat}
    {events : List LoopEvent} (hevents : history[t]? = some events) {e : LoopEvent}
    (he : e ∈ events) : (∃ i, EndsIn calls i) ∧
      ((∃ pitch, e.Ends pitch) → ∃ i < (t : Int), EndsIn calls i) := by
  have hnotes := (endsAt_build calls).note
  have htimed : Loop.Timed (List.range maxActiveNotes) (exportedLoop calls) :=
    Loop.timed_new fun n hn ↦ by
      have := (hnotes n hn).1
      omega
  obtain ⟨hmem, hoff⟩ := (htimed.playTicks hplay).2 t events hevents e he
  refine ⟨⟨_, (hnotes _ hmem).2⟩, ?_⟩
  rintro ⟨-, n, rfl, -⟩
  refine ⟨_, ?_, (hnotes n hmem).2⟩
  have hle := hoff n rfl
  have hzero : (exportedLoop calls).loopPosition = 0 := rfl
  omega

/-- In a loop that reproduces the pad the pad has ended nothing: what it ends first, the loop has
not ended at that tick. -/
theorem not_endsIn_of_reproduces {pad calls : List (List PadCall)} {ticks : Nat}
    {history : List (List LoopEvent)}
    (hplay : (exportedLoop calls).playTicks ticks = some history)
    (hcalls : ∀ (t : Nat) now, calls[t]? = some now → ∃ played, pad[t]? = some played ∧
      now.Perm played) (h : Reproduces pad history) (i : Int) : ¬ EndsIn calls i := by
  rintro ⟨t, now, -, hnow, c, hc, pitch, hends⟩
  induction t using Nat.strongRecOn generalizing now c pitch with
  | ind t ih =>
    obtain ⟨played, hplayed, hperm⟩ := hcalls t now hnow
    obtain ⟨events, hevents, e, he, hoff⟩ :=
      (h t pitch).2.mp ⟨played, hplayed, c, hperm.mem_iff.mp hc, hends⟩
    obtain ⟨-, hlt, t', now', rfl, hnow', c', hc', pitch', hends'⟩ :=
      (exportedLoop_playTicks hplay hevents he).2 ⟨pitch, hoff⟩
    exact ih t' (by omega) now' hnow' c' hc' pitch' hends'

/-- A note of the exported loop ends later than the tick at which the pad ended it: the loop does
not reproduce any pad but one that plays no notes. -/
theorem Pad.export_reproduces_iff {p : Pad} {startTick stopTick : Int} {around : PadSurroundings}
    (hstart : 0 ≤ startTick)
    (hsessions : ∀ s ∈ p.sessions, s.terminated = true ∧ startTick ≤ s.startAtTick ∧
      s.startAtTick < exportStop startTick stopTick)
    {fuel ticks : Nat} {calls : List (List PadCall)}
    (hexport : p.exportToLoop fuel startTick stopTick around.scales = some calls)
    (hticks : calls.length ≤ ticks) {history : List (List LoopEvent)}
    (hplay : (exportedLoop calls).playTicks ticks = some history) :
    Reproduces (p.atRest.playTicks around ticks startTick) history ↔
      ∀ now ∈ p.atRest.playTicks around ticks startTick, ∀ c ∈ now, ∀ pitch,
        ¬ c.Starts pitch ∧ ¬ c.Ends pitch := by
  have hstep : PadExport.InStep ⟨p.exported startTick stopTick, [], startTick⟩ p.atRest := by
    have hreset : ∀ s ∈ p.atRest.sessions, s.inPlay = false ∧ s.terminated = true ∧
        startTick ≤ s.startAtTick ∧ s.startAtTick < exportStop startTick stopTick := by
      intro t ht
      obtain ⟨s, hs, rfl⟩ := List.mem_map.mp ht
      exact ⟨rfl, hsessions s hs⟩
    refine ⟨fun s hs ↦ ?_, ?_, ?_, rfl, rfl, rfl⟩
    · obtain ⟨hidle, hterminated, hlow, -⟩ := hreset s hs
      exact ⟨hterminated, Int.le_trans hstart hlow, fun hin ↦ absurd (hidle.symm.trans hin) nofun⟩
    · refine List.filter_congr fun s hs ↦ ?_
      obtain ⟨hidle, -, hlow, hhigh⟩ := hreset s hs
      simp [hidle, hlow, hhigh]
    · have hnone : p.atRest.sessions.filter PadSession.inPlay = [] := by
        refine List.filter_eq_nil_iff.mpr fun s hs ↦ ?_
        rw [(hreset s hs).1]
        exact Bool.false_ne_true
      rw [hnone]
  have hcalls : ∀ (t : Nat) now, calls[t]? = some now →
      ∃ played, (p.atRest.playTicks around ticks startTick)[t]? = some played ∧
        now.Perm played := fun t now hnow ↦ hstep.rounds hexport hticks t hnow
  have hsilent : (∀ i, ¬ EndsIn calls i) → ∀ (t : Nat) events, history[t]? = some events →
      ∀ e ∈ events, False := by
    intro hnone t events hevents e he
    obtain ⟨⟨i, hi⟩, -⟩ := exportedLoop_playTicks hplay hevents he
    exact hnone i hi
  constructor
  · intro h now hnow c hc pitch
    obtain ⟨t, ht⟩ := List.mem_iff_getElem?.mp hnow
    have hquiet := hsilent (not_endsIn_of_reproduces hplay hcalls h)
    refine ⟨fun hc' ↦ ?_, fun hc' ↦ ?_⟩
    · obtain ⟨events, hevents, e, he, -⟩ := (h t pitch).1.mp ⟨now, ht, c, hc, hc'⟩
      exact hquiet t events hevents e he
    · obtain ⟨events, hevents, e, he, -⟩ := (h t pitch).2.mp ⟨now, ht, c, hc, hc'⟩
      exact hquiet t events hevents e he
  · intro h
    have hquiet := hsilent (by
      rintro i ⟨t, now, -, hnow, c, hc, pitch, hends⟩
      obtain ⟨played, hplayed, hperm⟩ := hcalls t now hnow
      exact (h played (List.mem_of_getElem? hplayed) c (hperm.mem_iff.mp hc) pitch).2 hends)
    intro t pitch
    refine ⟨⟨?_, ?_⟩, ⟨?_, ?_⟩⟩
    · rintro ⟨now, hnow, c, hc, hstarts⟩
      exact absurd hstarts (h now (List.mem_of_getElem? hnow) c hc pitch).1
    · rintro ⟨events, hevents, e, he, -⟩
      exact (hquiet t events hevents e he).elim
    · rintro ⟨now, hnow, c, hc, hends⟩
      exact absurd hends (h now (List.mem_of_getElem? hnow) c hc pitch).2
    · rintro ⟨events, hevents, e, he, -⟩
      exact (hquiet t events hevents e he).elim

namespace Pad

/-- A pad with a stroke that is played on the default scale. -/
def stroke (positions : List PadPosition) : Pad :=
  let motion := { PadMotion.new Pad.new.config 0 0 0 0 with
    positions := positions, terminated := true }
  let finger := { PadFinger.new with
    motions := fun _ ↦ motion
    fresh := 1
    recorded := [0]
    links := PadFinger.recordLinks (fun _ ↦ motion) 1 0 .empty
    nextMotionToPlay := some 0 }
  { Pad.new with
    sessions := [⟨0, false, true, fun f ↦ if f = 0 then finger else .new, 0, -1, false⟩], made := 1 }

theorem sessions_stroke (positions : List PadPosition) : ∀ s ∈ (stroke positions).sessions,
    s.terminated = true ∧ 0 ≤ s.startAtTick ∧ s.startAtTick < exportStop 0 16 := by
  intro s hs
  obtain rfl := List.mem_singleton.mp hs
  exact ⟨rfl, Int.le_refl 0, (by decide : (0 : Int) < exportStop 0 16)⟩

/-- A stroke that is over at once is not heard, neither of the pad nor of the loop. -/
theorem export_reproduces_short_stroke :
    ∃ calls history, (stroke [⟨0, 6400, 0, 0⟩]).exportToLoop 20 0 16 none = some calls ∧
      (exportedLoop calls).playTicks 16 = some history ∧
      Reproduces ((stroke [⟨0, 6400, 0, 0⟩]).atRest.playTicks ⟨none, none⟩ 16 0) history := by
  have hexport : (stroke [⟨0, 6400, 0, 0⟩]).exportToLoop 20 0 16 none =
      some (List.replicate 16 []) := by decide +kernel
  have hplay : (exportedLoop (List.replicate 16 [])).playTicks 16 =
      some (List.replicate 16 []) := by decide +kernel
  have hpad : (stroke [⟨0, 6400, 0, 0⟩]).atRest.playTicks ⟨none, none⟩ 16 0 =
      List.replicate 16 [] := by decide +kernel
  refine ⟨_, _, hexport, hplay, ?_⟩
  have hiff := @Pad.export_reproduces_iff _ _ _ ⟨none, none⟩ (Int.le_refl 0) (sessions_stroke _)
    _ _ _ hexport (by decide) _ hplay
  refine hiff.mpr ?_
  rw [hpad]
  intro now hnow c hc
  rw [List.eq_of_mem_replicate hnow] at hc
  cases hc

/-- The pad ends its note at the tick 2, the loop at the tick 3. -/
theorem exported_note_ends_late : ¬ ∀ (p : Pad) (startTick stopTick : Int)
    (around : PadSurroundings) (fuel ticks : Nat) (calls : List (List PadCall))
    (history : List (List LoopEvent)), 0 ≤ startTick →
    (∀ s ∈ p.sessions, s.terminated = true ∧ startTick ≤ s.startAtTick ∧
      s.startAtTick < exportStop startTick stopTick) →
    p.exportToLoop fuel startTick stopTick around.scales = some calls → calls.length ≤ ticks →
    (exportedLoop calls).playTicks ticks = some history →
    Reproduces (p.atRest.playTicks around ticks startTick) history := by
  intro hall
  have hexport : (stroke [⟨0, 6400, 0, 0⟩, ⟨0, 6400, 0, 2⟩]).exportToLoop 20 0 16 none =
      some ([[.queueNoteOn 48 50], [], [.queueNoteOff 48 127]] ++ List.replicate 13 []) := by
    decide +kernel
  have hplay : ((exportedLoop ([[.queueNoteOn 48 50], [], [.queueNoteOff 48 127]] ++
      List.replicate 13 [])).playTicks 16).map (·.take 4) =
        some [[.noteOn ⟨0, 50, 48, 0, 2⟩], [], [], [.noteOff ⟨0, 50, 48, 0, 2⟩]] := by
    decide +kernel
  have hpad : ((stroke [⟨0, 6400, 0, 0⟩, ⟨0, 6400, 0, 2⟩]).atRest.playTicks ⟨none, none⟩
      16 0)[2]? = some [.queueNoteOff 48 127] := by decide +kernel
  obtain ⟨history, hhistory, htake⟩ := Option.map_eq_some_iff.mp hplay
  have hsame := hall _ 0 16 ⟨none, none⟩ 20 16 _ history (Int.le_refl 0) (sessions_stroke _)
    hexport (by decide) hhistory
  obtain ⟨events, hevents, e, he, -⟩ := (hsame 2 48).2.mp
    ⟨_, hpad, _, List.mem_singleton_self _, PadCall.ends_queueNoteOff.mpr rfl⟩
  have hnone : history[2]? = some [] := by
    have := congrArg (fun l ↦ l[2]?) htake
    simpa [List.getElem?_take] using this
  obtain rfl := Option.some.inj (hnone.symm.trans hevents)
  cases he

end Pad

end Vuknob
