import Vuknob.Library.Pairing
import Vuknob.Playback.LoopExport

/-!
# The notes that an export makes

`PadMidiExportBuilder`, `src_jni/midi_generation.hh:100–184`, for any container of notes: it pairs
the calls that start and end a pitch, and hands a note to the container for each pair.
-/

namespace Vuknob

/-- The calls on a builder. -/
inductive ExportCall
  | queueNoteOn (note velocity channel : Int)
  | queueNoteOff (note velocity channel : Int)
  | queueController (controller value channel : Int)
  | queuePitchBend (valueLsb valueMsb channel : Int)
  | stepTick
  deriving DecidableEq

/-- What is assigned to an `ElementT`; the types of its fields are its own. -/
structure ExportedNote where
  channel : Int
  program : Int
  velocity : Int
  note : Int
  onAt : Int
  length : Int
  deriving DecidableEq

/-- `PadMidiExportBuilder`, `src_jni/midi_generation.hh:101–122`. -/
structure ExportBuilder (ContainerT : Type) where
  activeNotes : Int → Option ExportedNote
  cnt : ContainerT
  exportTick : Int
  currentTick : Int

namespace ExportBuilder

variable {ContainerT : Type}

/-- The constructor, `src_jni/midi_generation.hh:130–138`. -/
def new (cnt : ContainerT) (startTick : Int) : ExportBuilder ContainerT :=
  ⟨fun _ ↦ none, cnt, 0, startTick⟩

/-- `queue_note_on`, `src_jni/midi_generation.hh:140–153`. -/
def queueNoteOn (note velocity channel : Int) (B : ExportBuilder ContainerT) :
    ExportBuilder ContainerT :=
  match B.activeNotes note with
  | some _ => B
  | none =>
    let nptr := ⟨channel, 0, velocity, note, B.exportTick, 0⟩
    { B with activeNotes := Function.update B.activeNotes note (some nptr) }

variable (finalizeNote : ExportedNote → ContainerT → ContainerT)

/-- `queue_note_off`, `src_jni/midi_generation.hh:155–166`. -/
def queueNoteOff (note : Int) (B : ExportBuilder ContainerT) : ExportBuilder ContainerT :=
  match B.activeNotes note with
  | some nptr =>
    { B with
      cnt := finalizeNote { nptr with length := B.exportTick - nptr.onAt } B.cnt
      activeNotes := Function.update B.activeNotes note none }
  | none => B

/-- The calls, `src_jni/midi_generation.hh:140–184`; controllers and pitch bend are ignored. -/
def call (B : ExportBuilder ContainerT) : ExportCall → ExportBuilder ContainerT
  | .queueNoteOn note velocity channel => B.queueNoteOn note velocity channel
  | .queueNoteOff note _ _ => B.queueNoteOff finalizeNote note
  | .queueController _ _ _ => B
  | .queuePitchBend _ _ _ => B
  | .stepTick => { B with currentTick := B.currentTick + 1, exportTick := B.exportTick + 1 }

/-- A sequence of calls. -/
def run (calls : List ExportCall) (B : ExportBuilder ContainerT) : ExportBuilder ContainerT :=
  calls.foldl (call finalizeNote) B

end ExportBuilder

namespace ExportCall

/-- The pitch of a `queue_note_on`. -/
def startedPitch : ExportCall → Option Int
  | .queueNoteOn note _ _ => some note
  | _ => none

/-- The pitch of a `queue_note_off`. -/
def endedPitch : ExportCall → Option Int
  | .queueNoteOff note _ _ => some note
  | _ => none

theorem endedPitch_of_startedPitch (c : ExportCall) (pitch : Int)
    (h : c.startedPitch = some pitch) : c.endedPitch = none := by
  cases c with
  | queueNoteOn => rfl
  | queueNoteOff | queueController | queuePitchBend | stepTick => cases h

/-- The number of `step_tick` calls. -/
def steps (calls : List ExportCall) : Int := calls.count .stepTick

theorem steps_append (calls more : List ExportCall) :
    steps (calls ++ more) = steps calls + steps more := by
  rw [steps, List.count_append, Int.natCast_add]
  rfl

theorem steps_snoc {calls : List ExportCall} {c : ExportCall} (hc : c ≠ .stepTick) :
    steps (calls ++ [c]) = steps calls := by
  have hzero : steps [c] = 0 := by
    rw [steps, List.count_singleton, if_neg (by simpa using hc)]
    rfl
  rw [steps_append, hzero, Int.add_zero]

theorem steps_nonneg (calls : List ExportCall) : 0 ≤ steps calls := Int.natCast_nonneg _

/-- The note that is made at a call, with the number of steps before it. -/
def startedNote (calls : List ExportCall) (i : Nat) : Option ExportedNote :=
  match calls[i]? with
  | some (.queueNoteOn note velocity channel) =>
    some ⟨channel, 0, velocity, note, steps (calls.take i), 0⟩
  | _ => none

/-- The note of a pair of calls: its length is the number of steps between the two. -/
def pairedNote (calls : List ExportCall) (pair : Nat × Nat) : Option ExportedNote :=
  (startedNote calls pair.1).map fun n ↦
    { n with length := steps ((calls.take pair.2).drop pair.1) }

/-- Two calls make a note: a `queue_note_on` at which the pitch is not active, and the next
`queue_note_off` of the pitch. -/
abbrev Paired (calls : List ExportCall) (i j : Nat) (pitch : Int) : Prop :=
  Library.Pair startedPitch endedPitch calls i j pitch

variable {calls : List ExportCall} {c : ExportCall} {i j : Nat} {n : ExportedNote}

theorem startedNote_snoc (hi : i < calls.length) :
    startedNote (calls ++ [c]) i = startedNote calls i := by
  rw [startedNote, startedNote, List.getElem?_append_left hi,
    List.take_append_of_le_length (by omega)]

theorem pairedNote_snoc (hi : i < calls.length) (hj : j ≤ calls.length) :
    pairedNote (calls ++ [c]) (i, j) = pairedNote calls (i, j) := by
  rw [pairedNote, pairedNote, startedNote_snoc hi, List.take_append_of_le_length hj]

theorem steps_take_add_steps_drop (calls : List ExportCall) (h : i ≤ j) :
    steps (calls.take i) + steps ((calls.take j).drop i) = steps (calls.take j) := by
  have htake : (calls.take j).take i = calls.take i := by
    rw [List.take_take, Nat.min_eq_left h]
  rw [← htake, ← steps_append, List.take_append_drop]

theorem steps_take_mono (calls : List ExportCall) (h : i ≤ j) :
    steps (calls.take i) ≤ steps (calls.take j) := by
  have hsplit := steps_take_add_steps_drop calls h
  have := steps_nonneg ((calls.take j).drop i)
  omega

theorem exists_of_startedNote (h : startedNote calls i = some n) :
    Library.OpensAt startedPitch calls i n.note ∧ n.onAt = steps (calls.take i) := by
  rw [startedNote] at h
  split at h
  · next note velocity channel hc =>
    obtain rfl := Option.some.inj h
    exact ⟨⟨_, hc, rfl⟩, rfl⟩
  · cases h

theorem startedNote_isSome {pitch : Int} (h : Library.OpensAt startedPitch calls i pitch) :
    ∃ n, startedNote calls i = some n ∧ n.note = pitch := by
  obtain ⟨c, hc, hpitch⟩ := h
  cases c with
  | queueNoteOn note velocity channel =>
    rw [startedNote, hc]
    exact ⟨_, rfl, Option.some.inj hpitch⟩
  | queueNoteOff | queueController | queuePitchBend | stepTick => cases hpitch

/-- A note that ends at the last call. -/
theorem pairedNote_last (h : startedNote calls i = some n) (hi : i < calls.length) :
    pairedNote (calls ++ [c]) (i, calls.length) =
      some { n with length := steps calls - n.onAt } := by
  have hon := (exists_of_startedNote h).2
  have hsplit := steps_take_add_steps_drop calls (Nat.le_of_lt hi)
  rw [List.take_length] at hsplit
  have hlength : steps (calls.drop i) = steps calls - n.onAt := by omega
  rw [pairedNote_snoc hi (Nat.le_refl _), pairedNote, h, Option.map_some, List.take_length, hlength]

/-- The times of the note of a pair, and its pitch. -/
theorem exists_of_pairedNote (h : pairedNote calls (i, j) = some n) (hle : i ≤ j) :
    Library.OpensAt startedPitch calls i n.note ∧ n.onAt = steps (calls.take i) ∧
      0 ≤ n.length ∧ n.onAt + n.length = steps (calls.take j) := by
  obtain ⟨n', hn', rfl⟩ := Option.map_eq_some_iff.mp h
  obtain ⟨hopens, hon⟩ := exists_of_startedNote hn'
  refine ⟨hopens, hon, steps_nonneg _, ?_⟩
  show n'.onAt + steps ((calls.take j).drop i) = steps (calls.take j)
  rw [hon, steps_take_add_steps_drop calls hle]

end ExportCall

namespace ExportBuilder

open ExportCall

variable {ContainerT : Type} {finalizeNote : ExportedNote → ContainerT → ContainerT}
  {cnt : ContainerT} {startTick : Int} {calls : List ExportCall}

/-- The builder after some calls, with their matching and the notes handed to the container. -/
structure Follows (finalizeNote : ExportedNote → ContainerT → ContainerT) (cnt : ContainerT)
    (calls : List ExportCall) (m : Library.Matching Int) (notes : List ExportedNote)
    (B : ExportBuilder ContainerT) : Prop where
  matched : Library.Matches startedPitch endedPitch calls m
  tick : B.exportTick = steps calls
  active : ∀ pitch, B.activeNotes pitch = (m.opened pitch).bind (startedNote calls)
  made : notes.map some = m.pairs.map (pairedNote calls)
  handed : B.cnt = notes.foldl (fun c n ↦ finalizeNote n c) cnt

variable {m : Library.Matching Int} {notes : List ExportedNote} {B : ExportBuilder ContainerT}

theorem Follows.new (finalizeNote : ExportedNote → ContainerT → ContainerT) (cnt : ContainerT)
    (startTick : Int) : Follows finalizeNote cnt [] .empty [] (.new cnt startTick) where
  matched := Library.matches_empty
  tick := rfl
  active _ := rfl
  made := rfl
  handed := rfl

/-- A later call does not change the notes of the earlier ones. -/
theorem Follows.bind_snoc (h : Follows finalizeNote cnt calls m notes B) (c : ExportCall)
    (pitch : Int) : (m.opened pitch).bind (startedNote (calls ++ [c])) = B.activeNotes pitch := by
  rw [h.active]
  cases hopened : m.opened pitch with
  | none => rfl
  | some i =>
    have hopen := (h.matched.opened pitch i).mp hopened
    exact startedNote_snoc hopen.1.1.lt_length

theorem Follows.map_snoc (h : Follows finalizeNote cnt calls m notes B) (c : ExportCall) :
    m.pairs.map (pairedNote (calls ++ [c])) = notes.map some := by
  rw [h.made]
  refine List.map_congr_left fun ⟨i, j⟩ hmem ↦ ?_
  obtain ⟨pitch, hpair⟩ := (h.matched.mem i j).mp hmem
  have hlt := hpair.lt
  have hlen := hpair.lt_length
  exact pairedNote_snoc (by omega) (by omega)

/-- A pitch is active as long as it is open in the matching. -/
theorem Follows.active_cases (h : Follows finalizeNote cnt calls m notes B) (pitch : Int) :
    (m.opened pitch = none ∧ B.activeNotes pitch = none) ∨
      ∃ i n, m.opened pitch = some i ∧ B.activeNotes pitch = some n ∧ i < calls.length ∧
        startedNote calls i = some n := by
  rw [h.active]
  cases hopened : m.opened pitch with
  | none => exact .inl ⟨rfl, rfl⟩
  | some i =>
    have hopens := ((h.matched.opened pitch i).mp hopened).1.1
    obtain ⟨n, hn, -⟩ := startedNote_isSome hopens
    exact .inr ⟨i, n, rfl, hn, hopens.lt_length, hn⟩

theorem Follows.queueNoteOn (h : Follows finalizeNote cnt calls m notes B)
    (note velocity channel : Int) :
    Follows finalizeNote cnt (calls ++ [.queueNoteOn note velocity channel])
      (m.extend startedPitch endedPitch (.queueNoteOn note velocity channel)) notes
      (B.queueNoteOn note velocity channel) := by
  have hmatched := h.matched.extend endedPitch_of_startedPitch
    (.queueNoteOn note velocity channel)
  have htick := h.tick.trans (steps_snoc (c := .queueNoteOn note velocity channel) nofun).symm
  have hsnoc := h.bind_snoc (.queueNoteOn note velocity channel)
  have hpairs := h.map_snoc (.queueNoteOn note velocity channel)
  rw [ExportBuilder.queueNoteOn]
  rcases h.active_cases note with ⟨hopened, hactive⟩ | ⟨i, n, hopened, hactive, -, -⟩
  · rw [hactive]
    refine ⟨hmatched, htick, fun pitch ↦ ?_, hpairs.symm, h.handed⟩
    simp only [Library.Matching.extend, startedPitch, if_pos hopened]
    by_cases hpitch : pitch = note
    · subst hpitch
      rw [Function.update_self, Function.update_self, h.matched.count, Option.bind_some,
        startedNote, List.getElem?_concat_length, List.take_left, h.tick]
    · rw [Function.update_of_ne hpitch, Function.update_of_ne hpitch]
      exact (hsnoc pitch).symm
  · rw [hactive]
    refine ⟨hmatched, htick, fun pitch ↦ ?_, hpairs.symm, h.handed⟩
    have hne : m.opened note ≠ none := hopened ▸ Option.some_ne_none i
    simp only [Library.Matching.extend, startedPitch, if_neg hne]
    exact (hsnoc pitch).symm

theorem Follows.queueNoteOff (h : Follows finalizeNote cnt calls m notes B)
    (note velocity channel : Int) :
    ∃ more, Follows finalizeNote cnt (calls ++ [.queueNoteOff note velocity channel])
      (m.extend startedPitch endedPitch (.queueNoteOff note velocity channel)) (notes ++ more)
      (B.queueNoteOff finalizeNote note) := by
  have hmatched := h.matched.extend endedPitch_of_startedPitch
    (.queueNoteOff note velocity channel)
  have htick := h.tick.trans (steps_snoc (c := .queueNoteOff note velocity channel) nofun).symm
  have hpairs := h.map_snoc (.queueNoteOff note velocity channel)
  -- the other pitches are as they were
  have hother : ∀ pitch, pitch ≠ note → B.activeNotes pitch =
      (Function.update m.opened note none pitch).bind
        (startedNote (calls ++ [.queueNoteOff note velocity channel])) := by
    intro pitch hpitch
    rw [Function.update_of_ne hpitch]
    exact (h.bind_snoc _ pitch).symm
  rw [ExportBuilder.queueNoteOff]
  rcases h.active_cases note with ⟨hopened, hactive⟩ | ⟨i, n, hopened, hactive, hlt, hstarted⟩
  · rw [hactive]
    refine ⟨[], hmatched, htick, fun pitch ↦ ?_, ?_, ?_⟩
    · simp only [Library.Matching.extend, startedPitch, endedPitch]
      by_cases hpitch : pitch = note
      · subst hpitch
        rw [Function.update_self]
        exact hactive
      · exact hother pitch hpitch
    · simp only [Library.Matching.extend, startedPitch, endedPitch, hopened]
      rw [List.append_nil, Option.toList_none, List.map_nil, List.append_nil]
      exact hpairs.symm
    · rw [List.append_nil]
      exact h.handed
  · rw [hactive]
    refine ⟨[{ n with length := B.exportTick - n.onAt }], hmatched, htick, fun pitch ↦ ?_, ?_, ?_⟩
    · simp only [Library.Matching.extend, startedPitch, endedPitch]
      by_cases hpitch : pitch = note
      · subst hpitch
        rw [Function.update_self, Function.update_self]
        rfl
      · rw [Function.update_of_ne hpitch]
        exact hother pitch hpitch
    · simp only [Library.Matching.extend, startedPitch, endedPitch, hopened]
      rw [Option.toList_some, List.map_singleton, List.map_append, List.map_append, hpairs,
        List.map_singleton, List.map_singleton, h.matched.count, pairedNote_last hstarted hlt,
        h.tick]
    · rw [List.foldl_append, ← h.handed]
      rfl

theorem Follows.neither (h : Follows finalizeNote cnt calls m notes B) {c : ExportCall}
    {B' : ExportBuilder ContainerT} (hstarted : c.startedPitch = none)
    (hended : c.endedPitch = none) (htick : B'.exportTick = B.exportTick + steps [c])
    (hactive : B'.activeNotes = B.activeNotes) (hcnt : B'.cnt = B.cnt) :
    Follows finalizeNote cnt (calls ++ [c]) (m.extend startedPitch endedPitch c) notes B' := by
  refine ⟨h.matched.extend endedPitch_of_startedPitch c, ?_, fun pitch ↦ ?_, ?_, hcnt.trans h.handed⟩
  · rw [htick, h.tick, steps_append]
  · simp only [Library.Matching.extend, hstarted, hended, hactive]
    exact (h.bind_snoc c pitch).symm
  · simp only [Library.Matching.extend, hstarted, hended]
    exact (h.map_snoc c).symm

/-- One call. -/
theorem Follows.call (h : Follows finalizeNote cnt calls m notes B) (c : ExportCall) :
    ∃ more, Follows finalizeNote cnt (calls ++ [c]) (m.extend startedPitch endedPitch c)
      (notes ++ more) (B.call finalizeNote c) := by
  cases c with
  | queueNoteOn note velocity channel =>
    refine ⟨[], ?_⟩
    rw [List.append_nil]
    exact h.queueNoteOn note velocity channel
  | queueNoteOff note velocity channel => exact h.queueNoteOff note velocity channel
  | queueController | queuePitchBend =>
    refine ⟨[], ?_⟩
    rw [List.append_nil]
    exact h.neither rfl rfl (Int.add_zero _).symm rfl rfl
  | stepTick =>
    refine ⟨[], ?_⟩
    rw [List.append_nil]
    exact h.neither rfl rfl rfl rfl rfl

theorem Follows.run (finalizeNote : ExportedNote → ContainerT → ContainerT) (cnt : ContainerT)
    (startTick : Int) (calls : List ExportCall) :
    ∃ notes, Follows finalizeNote cnt calls (.ofLog startedPitch endedPitch calls) notes
      ((ExportBuilder.new cnt startTick).run finalizeNote calls) := by
  induction calls using List.reverseRecOn with
  | nil => exact ⟨[], .new finalizeNote cnt startTick⟩
  | append_singleton calls c ih =>
    obtain ⟨notes, h⟩ := ih
    obtain ⟨more, hmore⟩ := h.call c
    refine ⟨notes ++ more, ?_⟩
    rw [Library.Matching.ofLog, ExportBuilder.run, List.foldl_append, List.foldl_append]
    exact hmore

/-- The notes are those of the pairs of calls, in the order in which they end: each has the number
of steps before the one call as its time, and that between the two as its length, and of two notes
of a pitch the one ends before the other is on. -/
theorem run_finalizes_pairs (finalizeNote : ExportedNote → ContainerT → ContainerT)
    (cnt : ContainerT) (startTick : Int) (calls : List ExportCall) :
    ∃ (pairs : List (Nat × Nat)) (notes : List ExportedNote),
      ((new cnt startTick).run finalizeNote calls).cnt =
          notes.foldl (fun c n ↦ finalizeNote n c) cnt ∧
        (∀ i j, (i, j) ∈ pairs ↔ ∃ pitch, Paired calls i j pitch) ∧
        pairs.Pairwise (fun a b ↦ a.2 < b.2) ∧
        notes.map some = pairs.map (pairedNote calls) ∧
        (∀ n ∈ notes, 0 ≤ n.onAt ∧ 0 ≤ n.length ∧ n.onAt + n.length ≤ steps calls) ∧
        notes.Pairwise fun a b ↦ a.note = b.note → a.onAt + a.length ≤ b.onAt := by
  obtain ⟨notes, h⟩ := Follows.run finalizeNote cnt startTick calls
  have hmatched := Library.matches_ofLog endedPitch_of_startedPitch calls
  refine ⟨_, notes, h.handed, hmatched.mem, hmatched.sorted, h.made, fun n hn ↦ ?_, ?_⟩
  · have hmem := List.mem_map_of_mem (f := some) hn
    rw [h.made] at hmem
    obtain ⟨⟨i, j⟩, hmem, hpaired⟩ := List.mem_map.mp hmem
    obtain ⟨pitch, hpair⟩ := (hmatched.mem i j).mp hmem
    obtain ⟨-, hon, hlength, hend⟩ := exists_of_pairedNote hpaired (Nat.le_of_lt hpair.lt)
    have hall := steps_take_mono calls (Nat.le_of_lt hpair.lt_length)
    rw [List.take_length] at hall
    have := steps_nonneg (calls.take i)
    exact ⟨by omega, hlength, by omega⟩
  · have hpairwise : (notes.map some).Pairwise fun x y ↦
        ∀ a ∈ x, ∀ b ∈ y, a.note = b.note → a.onAt + a.length ≤ b.onAt := by
      rw [h.made, List.pairwise_map]
      refine hmatched.sorted.imp_of_mem ?_
      rintro ⟨i, j⟩ ⟨i', j'⟩ hmem hmem' hlt a ha b hb hnote
      obtain ⟨pitch, hpair⟩ := (hmatched.mem i j).mp hmem
      obtain ⟨pitch', hpair'⟩ := (hmatched.mem i' j').mp hmem'
      obtain ⟨hopens, -, -, hend⟩ := exists_of_pairedNote ha (Nat.le_of_lt hpair.lt)
      obtain ⟨hopens', hon, -, -⟩ := exists_of_pairedNote hb (Nat.le_of_lt hpair'.lt)
      have hpitch : pitch' = pitch :=
        (hpair'.counts.1.eq hopens').trans (hnote.symm.trans (hopens.eq hpair.counts.1))
      subst hpitch
      have hbefore := hpair.lt_of_lt endedPitch_of_startedPitch hpair' hlt
      rw [hend, hon]
      exact steps_take_mono calls (Nat.le_of_lt hbefore)
    refine (List.pairwise_map.mp hpairwise).imp fun hab hnote ↦ ?_
    exact hab _ rfl _ rfl hnote

end ExportBuilder

/-! ### The notes of an exported loop -/

/-- The element as a `NoteEntry`. -/
def ExportedNote.entry (n : ExportedNote) : NoteEntry :=
  ⟨UInt8.ofInt n.channel, UInt8.ofInt n.velocity, UInt8.ofInt n.note, n.onAt, n.length⟩

/-- The call of a pad, which leaves the channel to its default. -/
def PadCall.onBuilder : PadCall → ExportCall
  | .queueNoteOn note velocity => .queueNoteOn note velocity 0
  | .queueNoteOff note velocity => .queueNoteOff note velocity 0
  | .queueController controller value => .queueController controller value 0
  | .queuePitchBend valueLsb valueMsb => .queuePitchBend valueLsb valueMsb 0

/-- The calls of an export, with the `step_tick` of each tick. -/
def builderCalls (calls : List (List PadCall)) : List ExportCall :=
  calls.flatMap fun now ↦ now.map PadCall.onBuilder ++ [.stepTick]

namespace PadMidiExportBuilder

/-- The builder of a loop is one whose container is the list of notes. -/
structure Refines (B : PadMidiExportBuilder) (G : ExportBuilder (List NoteEntry)) : Prop where
  active : ∀ pitch, B.activeNotes pitch = (G.activeNotes pitch).map ExportedNote.entry
  tick : B.exportTick = G.exportTick
  note : B.note = G.cnt

variable {B : PadMidiExportBuilder} {G : ExportBuilder (List NoteEntry)}

/-- What the lambda of `export_pad_to_loop` does, `src_jni/machine_sequencer.cc:1080–1085`. -/
def finalizeNote (n : ExportedNote) (note : List NoteEntry) : List NoteEntry :=
  insertNote n.entry note

theorem Refines.queue (h : Refines B G) (c : PadCall) :
    Refines (B.queue c) (G.call finalizeNote c.onBuilder) := by
  have hupdate : ∀ (note : Int) (n : Option ExportedNote) pitch,
      Function.update B.activeNotes note (n.map ExportedNote.entry) pitch =
        (Function.update G.activeNotes note n pitch).map ExportedNote.entry := by
    intro note n pitch
    by_cases hpitch : pitch = note
    · subst hpitch
      rw [Function.update_self, Function.update_self]
    · rw [Function.update_of_ne hpitch, Function.update_of_ne hpitch, h.active]
  cases c with
  | queueController | queuePitchBend => exact h
  | queueNoteOn note velocity =>
    show Refines (B.queueNoteOn note velocity) (G.queueNoteOn note velocity 0)
    rw [queueNoteOn, ExportBuilder.queueNoteOn, h.active]
    cases G.activeNotes note with
    | some n => exact h
    | none =>
      have hmade := hupdate note (some ⟨0, 0, velocity, note, G.exportTick, 0⟩)
      rw [h.tick]
      exact ⟨hmade, rfl, h.note⟩
  | queueNoteOff note velocity =>
    show Refines (B.queueNoteOff note) (G.queueNoteOff finalizeNote note)
    rw [queueNoteOff, ExportBuilder.queueNoteOff, h.active]
    cases G.activeNotes note with
    | none => exact h
    | some n =>
      refine ⟨hupdate note none, h.tick, ?_⟩
      show insertNote { n.entry with length := B.exportTick - n.onAt } B.note = _
      rw [h.tick, h.note]
      rfl

theorem Refines.build (h : Refines B G) (calls : List (List PadCall)) :
    Refines (B.build calls) (G.run finalizeNote (builderCalls calls)) := by
  induction calls generalizing B G with
  | nil => exact h
  | cons now calls ih =>
    have hnow : ∀ (now : List PadCall) B G, Refines B G →
        Refines (now.foldl PadMidiExportBuilder.queue B)
          ((now.map PadCall.onBuilder).foldl (ExportBuilder.call finalizeNote) G) := by
      intro now
      induction now with
      | nil => exact fun B G hB ↦ hB
      | cons c now ihnow => exact fun B G hB ↦ ihnow _ _ (hB.queue c)
    have hdone := hnow now B G h
    have hstep : Refines (now.foldl PadMidiExportBuilder.queue B).stepTick
        (G.run finalizeNote (now.map PadCall.onBuilder ++ [.stepTick])) := by
      rw [ExportBuilder.run, List.foldl_append]
      exact ⟨hdone.active, congrArg (· + 1) hdone.tick, hdone.note⟩
    have hrest := ih hstep
    rw [builderCalls, List.flatMap_cons, ExportBuilder.run, List.foldl_append]
    exact hrest

/-- The notes of an exported loop are those of the pairs of calls of the pad. -/
theorem build_perm (calls : List (List PadCall)) :
    ∃ (pairs : List (Nat × Nat)) (notes : List ExportedNote),
      (∀ i j, (i, j) ∈ pairs ↔ ∃ pitch, ExportCall.Paired (builderCalls calls) i j pitch) ∧
        notes.map some = pairs.map (ExportCall.pairedNote (builderCalls calls)) ∧
        (new.build calls).note.Perm (notes.map ExportedNote.entry) := by
  obtain ⟨notes, h⟩ := ExportBuilder.Follows.run finalizeNote [] 0 (builderCalls calls)
  have hrefines := Refines.build (B := .new) (G := .new [] 0) ⟨fun _ ↦ rfl, rfl, rfl⟩ calls
  have hinsert : ∀ (notes : List ExportedNote) (note : List NoteEntry),
      (notes.foldl (fun c n ↦ finalizeNote n c) note).Perm
        (notes.map ExportedNote.entry ++ note) := by
    intro notes
    induction notes with
    | nil => exact fun note ↦ .refl note
    | cons n notes ih =>
      intro note
      refine (ih (finalizeNote n note)).trans ?_
      have hfirst : (finalizeNote n note).Perm (n.entry :: note) := List.perm_orderedInsert ..
      exact (hfirst.append_left _).trans List.perm_middle
  refine ⟨_, notes, h.matched.mem, h.made, ?_⟩
  have hperm := hinsert notes []
  rw [← h.handed, ← hrefines.note, List.append_nil] at hperm
  exact hperm

end PadMidiExportBuilder

end Vuknob
