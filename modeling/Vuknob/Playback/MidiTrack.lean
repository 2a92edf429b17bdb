import Vuknob.Playback.LoopEdit

/-!
# Tracks of an exported file

`MachineSequencer::export_sequence2midi_file`, `src_jni/machine_sequencer.cc:1504–1609`, walks over
the lines of a sequence. A note entry that is reached is copied, and the copy is chained to those
that are to be stopped at the same line; the walk goes on until the last of these lines, and ends
before it.
-/

namespace Vuknob

/-- `PAD_TIME_LINE`, `src_jni/machine_sequencer.hh:68`. -/
def padTimeLine (time : Int) : Int := time >>> (4 : Nat)

/-- A copy of a note entry, `src_jni/machine_sequencer.cc:1542`, known by the line at which its loop
begins and its place in the list of this loop. -/
structure TrackNote where
  start : Nat
  index : Nat
  entry : NoteEntry
  deriving DecidableEq

/-- A note-on or note-off message of a track, with the time since the last one. -/
structure TrackMessage where
  on : Bool
  offset : Nat
  note : TrackNote
  deriving DecidableEq

/-- The variables of `export_sequence2midi_file`, `src_jni/machine_sequencer.cc:1521–1532`, and what
has been written. A chain of `notes_to_off` is empty where the map has no entry. -/
structure TrackExport where
  lS : Nat
  lP : Nat
  lastP : Nat
  highestOffP : Int
  ndata : List (NoteEntry × Nat)
  notesToOff : Int → List TrackNote
  wasDropped : Bool
  written : List TrackMessage

/-- `off_position`, `src_jni/machine_sequencer.cc:1543`. -/
def TrackNote.offPosition (e : TrackNote) : Option Int := do
  let line ← int (e.start + padTimeLine e.entry.onAt)
  let last ← int (line + e.entry.length)
  int (last + 1)

namespace TrackExport

/-- The variables at the start. -/
def new : TrackExport where
  lS := 0
  lP := 0
  lastP := 0
  highestOffP := -1
  ndata := []
  notesToOff := fun _ ↦ []
  wasDropped := true
  written := []

/-- `offset`, `src_jni/machine_sequencer.cc:1572,1588`. -/
def offset (sP : Nat) (x : TrackExport) : Option Nat :=
  (int (((sP : Int) - x.lastP) * 16)).map fun offset ↦ (offset % 2 ^ 32).toNat

/-- A round of the inner loop, `src_jni/machine_sequencer.cc:1542–1577`. -/
def startNote (sP : Nat) (e : TrackNote) (x : TrackExport) : Option TrackExport := do
  let offPosition ← e.offPosition
  let offset ← x.offset sP
  some { x with
    lastP := sP
    highestOffP := max x.highestOffP offPosition
    notesToOff :=
      Function.update x.notesToOff offPosition (e :: x.notesToOff offPosition)
    wasDropped := false
    written := x.written ++ [⟨true, offset, e⟩] }

/-- The inner loop, `src_jni/machine_sequencer.cc:1540–1579`. -/
def startNotes (sP : Nat) : List (NoteEntry × Nat) → TrackExport → Option TrackExport
  | [], x => some x
  | (n, k) :: rest, x =>
    if n.onAt ≤ padTime x.lP 0 then
      (startNote sP ⟨x.lS, k, n⟩ { x with ndata := rest }).bind (startNotes sP rest)
    else some x

/-- The loop over a chain, `src_jni/machine_sequencer.cc:1587–1598`. -/
def stopNotes (sP : Nat) : List TrackNote → TrackExport → Option TrackExport
  | [], x => some x
  | tip :: rest, x => do
    let offset ← x.offset sP
    stopNotes sP rest { x with lastP := sP, written := x.written ++ [⟨false, offset, tip⟩] }

end TrackExport

namespace LoopPlayer

/-- The loop that begins at a line, `src_jni/machine_sequencer.cc:1533`. -/
def loopIdAt (p : LoopPlayer) (sP : Nat) : Option Nat := p.loopSequence[sP]?.join

/-- `src_jni/machine_sequencer.cc:1533–1538`. -/
def enterLoop (p : LoopPlayer) (sP : Nat) (x : TrackExport) : Option TrackExport :=
  match p.loopIdAt sP with
  | none => some x
  | some loopId =>
    (p.loop loopId).map fun L ↦ { x with lP := 0, lS := sP, ndata := L.note.zipIdx }

/-- A round of the outer loop, `src_jni/machine_sequencer.cc:1532–1600`. -/
def exportLine (p : LoopPlayer) (sP : Nat) (x : TrackExport) : Option TrackExport := do
  let x ← p.enterLoop sP x
  let x ← x.startNotes sP x.ndata
  let x ← { x with notesToOff := Function.update x.notesToOff sP [] }.stopNotes sP (x.notesToOff sP)
  some { x with lP := x.lP + 1 }

/-- The outer loop, `src_jni/machine_sequencer.cc:1532`, for at most so many rounds. -/
def exportLines (p : LoopPlayer) : Nat → Nat → TrackExport → Option TrackExport
  | 0, _, _ => none
  | rounds + 1, sP, x =>
    if sP < p.loopSequence.length ∨ (sP : Int) < x.highestOffP then
      (p.exportLine sP x).bind (p.exportLines rounds (sP + 1))
    else some x

/-- The notes that `export_sequence2midi_file` writes, `src_jni/machine_sequencer.cc:1521–1600`. A
line is an `int`, so there are not more rounds. -/
def exportNotes (p : LoopPlayer) : Option TrackExport := p.exportLines (2 ^ 31) 0 .new

end LoopPlayer

/-! ### Times of lines -/

/-- `PAD_TIME` of a line wraps around. -/
theorem padTime_line (line : Nat) : padTime line 0 = (16 * (line : Int)).bmod (2 ^ 32) := by
  have hmask : ∀ i < 32, (0xfffffff0#32).getLsbD i = decide (4 ≤ i) := by decide
  have hbits : ∀ x : BitVec 32, (x <<< 4) &&& 0xfffffff0#32 ||| BitVec.ofInt 32 0 = x <<< 4 := by
    intro x
    apply BitVec.eq_of_getLsbD_eq
    intro i hi
    have := hmask i hi
    by_cases h : 4 ≤ i <;> simp_all
  rw [padTime, hbits, BitVec.toInt_shiftLeft, BitVec.toNat_ofInt, Nat.shiftLeft_eq,
    Int.bmod_def, Int.bmod_def]
  omega

theorem padTime_of_lt {line : Nat} (h : line < 2 ^ 27) : padTime line 0 = 16 * line := by
  rw [padTime_line, Int.bmod_def]
  omega

theorem padTime_le (line : Nat) : padTime line 0 ≤ 2 ^ 31 - 16 := by
  rw [padTime_line, Int.bmod_def]
  omega

theorem padTimeLine_eq (time : Int) : padTimeLine time = time / 16 :=
  Int.shiftRight_eq_div_pow time 4

/-- The line at which a note is stopped. -/
def TrackNote.off (e : TrackNote) : Int :=
  e.start + padTimeLine e.entry.onAt + e.entry.length + 1

theorem TrackNote.offPosition_eq_some {e : TrackNote} {position : Int}
    (h : e.offPosition = some position) : position = e.off ∧ position < 2 ^ 31 := by
  simp only [offPosition, Option.bind_eq_bind, Option.bind_eq_some_iff, int_eq_some_iff] at h
  obtain ⟨line, ⟨-, rfl⟩, last, ⟨-, rfl⟩, hfits, rfl⟩ := h
  exact ⟨rfl, hfits.2⟩

theorem TrackNote.offPosition_eq {e : TrackNote} (hon : 0 ≤ e.entry.onAt)
    (hlength : 0 ≤ e.entry.length) (h : e.off < 2 ^ 31) : e.offPosition = some e.off := by
  have hline : 0 ≤ padTimeLine e.entry.onAt := by
    rw [padTimeLine_eq]
    omega
  rw [off] at h
  rw [offPosition, int_of_fits (by omega)]
  simp only [Option.bind_eq_bind, Option.bind_some]
  rw [int_of_fits (by omega), Option.bind_some, int_of_fits (by omega)]
  rfl

/-- A note is stopped not before the line at which it is started: that is the first one whose time
reaches the note. -/
theorem TrackNote.le_off {e : TrackNote} {lP : Nat} (hon : 0 ≤ e.entry.onAt)
    (hlength : 0 ≤ e.entry.length) (hreached : e.entry.onAt ≤ padTime lP 0)
    (hfirst : ∀ line < lP, padTime line 0 < e.entry.onAt) :
    ((e.start + lP : Nat) : Int) ≤ e.off := by
  have hlt : lP < 2 ^ 27 := by
    by_contra hge
    have hlast := hfirst (2 ^ 27 - 1) (by omega)
    rw [padTime_of_lt (by omega)] at hlast
    have := padTime_le lP
    omega
  rw [off, padTimeLine_eq]
  rcases Nat.eq_zero_or_pos lP with rfl | hpos
  · omega
  · have hbefore := hfirst (lP - 1) (by omega)
    rw [padTime_of_lt (by omega)] at hbefore
    omega

/-! ### The books of the export -/

/-- Which messages there are for a note: a note-on is `true`. -/
def messagesOf (e : TrackNote) (written : List TrackMessage) : List Bool :=
  (written.filter fun m ↦ m.note = e).map (·.on)

theorem messagesOf_append (e : TrackNote) (before after : List TrackMessage) :
    messagesOf e (before ++ after) = messagesOf e before ++ messagesOf e after := by
  simp only [messagesOf, List.filter_append, List.map_append]

theorem messagesOf_singleton (e : TrackNote) (m : TrackMessage) :
    messagesOf e [m] = if m.note = e then [m.on] else [] := by
  by_cases h : m.note = e <;> simp [messagesOf, h]

theorem messagesOf_eq_nil_iff {e : TrackNote} {written : List TrackMessage} :
    messagesOf e written = [] ↔ ∀ m ∈ written, m.note ≠ e := by
  simp [messagesOf]

namespace TrackExport

/-- The books: which notes are started and not stopped, and when they are to be. -/
structure Booked (x : TrackExport) : Prop where
  pending : ∀ q e, e ∈ x.notesToOff q → q = e.off ∧ messagesOf e x.written = [true]
  nodup : ∀ q, (x.notesToOff q).Nodup
  known : ∀ e, messagesOf e x.written = [] ∨
    messagesOf e x.written = [true] ∧ e ∈ x.notesToOff e.off ∨
      messagesOf e x.written = [true, false]
  below : ∀ m ∈ x.written, m.note.off ≤ x.highestOffP
  top : x.highestOffP = -1 ∨ ∃ m ∈ x.written, m.note.off = x.highestOffP

/-- No line is passed at which a note is to be stopped. -/
structure Ahead (s : Nat) (x : TrackExport) : Prop where
  future : ∀ q, x.notesToOff q ≠ [] → (s : Int) ≤ q ∧ q ≤ x.highestOffP
  highest : (s : Int) ≤ x.highestOffP → x.notesToOff x.highestOffP ≠ []

/-- The note entries that are still to come. -/
structure Waiting (s : Nat) (x : TrackExport) : Prop where
  place : s = x.lS + x.lP
  sorted : x.ndata.Pairwise fun a b ↦ a.1.onAt ≤ b.1.onAt
  once : (x.ndata.map (·.2)).Nodup
  new : ∀ nk ∈ x.ndata, ∀ m ∈ x.written, m.note.start = x.lS → m.note.index ≠ nk.2
  later : ∀ nk ∈ x.ndata, ∀ line < x.lP, padTime line 0 < nk.1.onAt
  last : x.lastP ≤ s

/-- The time since the last message, where it fits. -/
theorem offset_eq {s : Nat} {x : TrackExport} (hlast : x.lastP ≤ s) (hs : s < 2 ^ 27) :
    x.offset s = some (16 * (s - x.lastP)) := by
  rw [offset, int_of_fits (by omega), Option.map_some]
  congr 1
  omega

/-- What `startNote` does. -/
theorem startNote_eq_some {s : Nat} {e : TrackNote} {x y : TrackExport}
    (h : x.startNote s e = some y) : e.off < 2 ^ 31 ∧ ∃ offset, x.offset s = some offset ∧
      y = { x with
        lastP := s
        highestOffP := max x.highestOffP e.off
        notesToOff := Function.update x.notesToOff e.off (e :: x.notesToOff e.off)
        wasDropped := false
        written := x.written ++ [⟨true, offset, e⟩] } := by
  simp only [startNote, Option.bind_eq_bind, Option.bind_eq_some_iff, Option.some.injEq] at h
  obtain ⟨position, hposition, offset, hoffset, rfl⟩ := h
  obtain ⟨rfl, hlt⟩ := TrackNote.offPosition_eq_some hposition
  exact ⟨hlt, offset, hoffset, rfl⟩

theorem startNote_isSome {s : Nat} {e : TrackNote} {x : TrackExport}
    (hoff : e.offPosition = some e.off) (hlast : x.lastP ≤ s) (hs : s < 2 ^ 27) :
    ∃ y, x.startNote s e = some y := by
  simp only [startNote, hoff, offset_eq hlast hs, Option.bind_eq_bind, Option.bind_some]
  exact ⟨_, rfl⟩

theorem messagesOf_written {x : TrackExport} (e e' : TrackNote) (on : Bool) (offset : Nat) :
    messagesOf e' (x.written ++ [⟨on, offset, e⟩]) =
      messagesOf e' x.written ++ if e = e' then [on] else [] := by
  rw [messagesOf_append, messagesOf_singleton]

theorem Booked.startNote {s : Nat} {e : TrackNote} {x y : TrackExport} (h : x.Booked)
    (hnew : messagesOf e x.written = []) (hs : x.startNote s e = some y) : y.Booked := by
  obtain ⟨-, offset, -, rfl⟩ := startNote_eq_some hs
  have hother : ∀ q e', e' ∈ x.notesToOff q → e ≠ e' := by
    rintro q e' he' rfl
    rw [(h.pending q e he').2] at hnew
    cases hnew
  have hmem : ∀ q e', e' ∈ Function.update x.notesToOff e.off (e :: x.notesToOff e.off) q ↔
      (q = e.off ∧ e' = e) ∨ e' ∈ x.notesToOff q := by
    intro q e'
    by_cases hq : q = e.off
    · subst hq
      simp
    · simp [hq]
  refine ⟨fun q e' he' ↦ ?_, fun q ↦ ?_, fun e' ↦ ?_, fun m hm ↦ ?_, ?_⟩
  · rw [hmem] at he'
    rw [messagesOf_written]
    rcases he' with ⟨rfl, rfl⟩ | he'
    · rw [if_pos rfl, hnew]
      exact ⟨rfl, rfl⟩
    · rw [if_neg (hother q e' he'), List.append_nil]
      exact h.pending q e' he'
  · by_cases hq : q = e.off
    · subst hq
      simp only [Function.update_self, List.nodup_cons]
      exact ⟨fun he ↦ hother _ e he rfl, h.nodup _⟩
    · simp only [Function.update_of_ne hq]
      exact h.nodup q
  · rw [messagesOf_written, hmem]
    by_cases he : e = e'
    · subst he
      rw [if_pos rfl, hnew]
      exact .inr (.inl ⟨rfl, .inl ⟨rfl, rfl⟩⟩)
    · rw [if_neg he, List.append_nil]
      exact (h.known e').imp_right (Or.imp_left fun hk ↦ ⟨hk.1, .inr hk.2⟩)
  · show m.note.off ≤ max x.highestOffP e.off
    rcases List.mem_append.mp hm with hm | hm
    · have := h.below m hm
      omega
    · obtain rfl := List.mem_singleton.mp hm
      exact le_max_right _ _
  · show max x.highestOffP e.off = -1 ∨ ∃ m ∈ x.written ++ [⟨true, offset, e⟩],
      m.note.off = max x.highestOffP e.off
    rcases le_total e.off x.highestOffP with hle | hle
    · rw [max_eq_left hle]
      refine h.top.imp_right ?_
      rintro ⟨m, hm, heq⟩
      exact ⟨m, List.mem_append_left _ hm, heq⟩
    · rw [max_eq_right hle]
      exact .inr ⟨_, List.mem_append_right _ (List.mem_singleton_self _), rfl⟩

theorem Ahead.startNote {s : Nat} {e : TrackNote} {x y : TrackExport} (h : x.Ahead s)
    (hoff : (s : Int) ≤ e.off) (hs : x.startNote s e = some y) : y.Ahead s := by
  obtain ⟨-, offset, -, rfl⟩ := startNote_eq_some hs
  constructor
  · intro q hq
    show (s : Int) ≤ q ∧ q ≤ max x.highestOffP e.off
    by_cases hqe : q = e.off
    · omega
    · simp only [Function.update_of_ne hqe] at hq
      have := h.future q hq
      omega
  · intro _
    show Function.update x.notesToOff e.off (e :: x.notesToOff e.off) (max x.highestOffP e.off) ≠ []
    by_cases hle : e.off < x.highestOffP
    · rw [max_eq_left (by omega), Function.update_of_ne (by omega)]
      exact h.highest (by omega)
    · rw [max_eq_right (by omega), Function.update_self]
      exact List.cons_ne_nil _ _

theorem Waiting.startNote {s k : Nat} {n : NoteEntry} {rest : List (NoteEntry × Nat)}
    {x y : TrackExport} (h : x.Waiting s) (hnk : x.ndata = (n, k) :: rest)
    (hs : startNote s ⟨x.lS, k, n⟩ { x with ndata := rest } = some y) : y.Waiting s := by
  obtain ⟨-, offset, -, rfl⟩ := startNote_eq_some hs
  have hsorted := h.sorted
  have honce := h.once
  have hnew := h.new
  have hlater := h.later
  rw [hnk] at hsorted honce hnew hlater
  rw [List.map_cons, List.nodup_cons] at honce
  refine ⟨h.place, hsorted.tail, honce.2, fun nk hmem m hm hstart ↦ ?_,
    fun nk hmem ↦ hlater nk (List.mem_cons_of_mem _ hmem), le_rfl⟩
  rcases List.mem_append.mp hm with hm | hm
  · exact hnew nk (List.mem_cons_of_mem _ hmem) m hm hstart
  · obtain rfl := List.mem_singleton.mp hm
    intro heq
    have hindex : nk.2 ∈ rest.map (·.2) := List.mem_map_of_mem hmem
    rw [← heq] at hindex
    exact honce.1 hindex

/-- What every round keeps holds after the inner loop, and the entries that are left are not yet
reached. -/
theorem startNotes_induction {P : TrackExport → Prop} {s : Nat}
    (hstep : ∀ {x y : TrackExport} {n : NoteEntry} {k : Nat} {rest : List (NoteEntry × Nat)}, P x →
      x.ndata = (n, k) :: rest → n.onAt ≤ padTime x.lP 0 →
        startNote s ⟨x.lS, k, n⟩ { x with ndata := rest } = some y → P y)
    {x y : TrackExport} (hx : P x) (h : x.startNotes s x.ndata = some y) :
    P y ∧ y.lS = x.lS ∧ y.lP = x.lP ∧
      ∀ nk, y.ndata.head? = some nk → padTime y.lP 0 < nk.1.onAt := by
  generalize hrest : x.ndata = rest at h
  induction rest generalizing x with
  | nil =>
    obtain rfl := Option.some.inj h
    rw [hrest]
    exact ⟨hx, rfl, rfl, nofun⟩
  | cons nk rest ih =>
    rw [TrackExport.startNotes] at h
    split at h
    · next hreached =>
      obtain ⟨z, hz, h⟩ := Option.bind_eq_some_iff.mp h
      have hnext := hstep hx hrest hreached hz
      obtain ⟨-, offset, -, rfl⟩ := startNote_eq_some hz
      have hrest := ih hnext rfl h
      exact hrest
    · next hreached =>
      obtain rfl := Option.some.inj h
      rw [hrest]
      refine ⟨hx, rfl, rfl, fun nk hnk ↦ ?_⟩
      obtain rfl := Option.some.inj hnk
      omega

/-- What the loop over a chain does. -/
theorem stopNotes_eq_some {s : Nat} {chain : List TrackNote} {x y : TrackExport}
    (h : x.stopNotes s chain = some y) : ∃ lastP messages, lastP ≤ max s x.lastP ∧
      (∀ m ∈ messages, m.on = false) ∧ messages.map (·.note) = chain ∧
        y = { x with lastP := lastP, written := x.written ++ messages } := by
  induction chain generalizing x with
  | nil =>
    obtain rfl := Option.some.inj h
    exact ⟨x.lastP, [], le_max_right _ _, nofun, rfl, by rw [List.append_nil]⟩
  | cons tip rest ih =>
    simp only [TrackExport.stopNotes, Option.bind_eq_bind, Option.bind_eq_some_iff] at h
    obtain ⟨offset, -, h⟩ := h
    obtain ⟨lastP, messages, hlast, hoff, hchain, rfl⟩ := ih h
    refine ⟨lastP, ⟨false, offset, tip⟩ :: messages, ?_, ?_, by rw [List.map_cons, hchain], ?_⟩
    · have : lastP ≤ max s s := hlast
      omega
    · intro m hm
      rcases List.mem_cons.mp hm with rfl | hm
      · rfl
      · exact hoff m hm
    · simp only [List.append_assoc, List.singleton_append]

/-- The messages of a chain that are about a note. -/
theorem messagesOf_chain {e : TrackNote} {messages : List TrackMessage}
    (hoff : ∀ m ∈ messages, m.on = false) :
    messagesOf e messages = List.replicate ((messages.map (·.note)).count e) false := by
  induction messages with
  | nil => rfl
  | cons m messages ih =>
    rw [← List.singleton_append, messagesOf_append, messagesOf_singleton,
      ih fun m hm ↦ hoff m (List.mem_cons_of_mem _ hm), hoff m (List.mem_cons_self ..),
      List.singleton_append, List.map_cons, List.count_cons]
    by_cases he : m.note = e
    · rw [if_pos he, he, beq_self_eq_true, if_pos rfl, List.replicate_succ, List.singleton_append]
    · rw [if_neg he, if_neg (by simpa using he), Nat.add_zero, List.nil_append]

/-- The notes that are to be stopped have been started. -/
theorem Booked.written {x : TrackExport} (h : x.Booked) {q : Int} {e : TrackNote}
    (he : e ∈ x.notesToOff q) : ∃ m ∈ x.written, m.note = e := by
  have hone := (h.pending q e he).2
  by_contra hno
  rw [messagesOf_eq_nil_iff.mpr fun m hm heq ↦ hno ⟨m, hm, heq⟩] at hone
  cases hone

/-- The notes that are to be stopped at a line are stopped there. -/
theorem Booked.stopNotes {s : Nat} {x y : TrackExport} (h : x.Booked)
    (hs : { x with notesToOff := Function.update x.notesToOff s [] }.stopNotes s (x.notesToOff s) =
      some y) : y.Booked := by
  obtain ⟨lastP, messages, -, hfalse, hchain, rfl⟩ := stopNotes_eq_some hs
  have hmessages : ∀ e, messagesOf e (x.written ++ messages) = messagesOf e x.written ++
      List.replicate ((x.notesToOff s).count e) false := by
    intro e
    rw [messagesOf_append, messagesOf_chain hfalse, hchain]
  have hnone : ∀ e, e ∉ x.notesToOff s →
      messagesOf e (x.written ++ messages) = messagesOf e x.written := by
    intro e he
    rw [hmessages, List.count_eq_zero_of_not_mem he, List.replicate_zero, List.append_nil]
  refine ⟨fun q e he ↦ ?_, fun q ↦ ?_, fun e ↦ ?_, fun m hm ↦ ?_, ?_⟩
  · by_cases hq : q = s
    · subst hq
      simp at he
    · simp only [Function.update_of_ne hq] at he
      obtain ⟨hoff, hone⟩ := h.pending q e he
      refine ⟨hoff, ?_⟩
      show messagesOf e (x.written ++ messages) = [true]
      rw [hnone e, hone]
      intro hmem
      exact hq (hoff.trans (h.pending s e hmem).1.symm)
  · by_cases hq : q = s
    · subst hq
      simp
    · simp only [Function.update_of_ne hq]
      exact h.nodup q
  · show messagesOf e (x.written ++ messages) = [] ∨
      messagesOf e (x.written ++ messages) = [true] ∧
        e ∈ Function.update x.notesToOff s [] e.off ∨
      messagesOf e (x.written ++ messages) = [true, false]
    by_cases he : e ∈ x.notesToOff s
    · rw [hmessages, (h.pending s e he).2, List.count_eq_one_of_mem (h.nodup s) he]
      exact .inr (.inr rfl)
    · rw [hnone e he]
      refine (h.known e).imp_right (Or.imp_left ?_)
      rintro ⟨hone, hmem⟩
      refine ⟨hone, ?_⟩
      rw [Function.update_of_ne]
      · exact hmem
      · intro heq
        rw [heq] at hmem
        exact he hmem
  · show m.note.off ≤ x.highestOffP
    rcases List.mem_append.mp hm with hm | hm
    · exact h.below m hm
    · obtain ⟨m', hm', heq⟩ := h.written (hchain ▸ List.mem_map_of_mem hm)
      rw [← heq]
      exact h.below m' hm'
  · refine h.top.imp_right ?_
    rintro ⟨m, hm, heq⟩
    exact ⟨m, List.mem_append_left _ hm, heq⟩

theorem Ahead.stopNotes {s : Nat} {x y : TrackExport} (h : x.Ahead s)
    (hs : { x with notesToOff := Function.update x.notesToOff s [] }.stopNotes s (x.notesToOff s) =
      some y) : y.Ahead (s + 1) := by
  obtain ⟨lastP, messages, -, -, -, rfl⟩ := stopNotes_eq_some hs
  constructor
  · intro q hq
    have hne : q ≠ s := by
      rintro rfl
      simp at hq
    simp only [Function.update_of_ne hne] at hq
    have := h.future q hq
    push_cast
    exact ⟨by omega, this.2⟩
  · intro hle
    have hle' : (s : Int) + 1 ≤ x.highestOffP := by exact_mod_cast hle
    show Function.update x.notesToOff s [] x.highestOffP ≠ []
    rw [Function.update_of_ne (by omega)]
    exact h.highest (by omega)

theorem Waiting.stopNotes {s : Nat} {x y : TrackExport} (h : x.Waiting s) (hbooked : x.Booked)
    (hleft : ∀ nk ∈ x.ndata, padTime x.lP 0 < nk.1.onAt)
    (hs : { x with notesToOff := Function.update x.notesToOff s [] }.stopNotes s (x.notesToOff s) =
      some y) : Waiting (s + 1) { y with lP := y.lP + 1 } := by
  obtain ⟨lastP, messages, hlast, -, hchain, rfl⟩ := stopNotes_eq_some hs
  have hplace := h.place
  refine ⟨?_, h.sorted, h.once, fun nk hnk m hm hstart ↦ ?_, fun nk hnk line hline ↦ ?_, ?_⟩
  · show s + 1 = x.lS + (x.lP + 1)
    omega
  · rcases List.mem_append.mp hm with hm | hm
    · exact h.new nk hnk m hm hstart
    · obtain ⟨m₁, hm₁, heq⟩ := hbooked.written (hchain ▸ List.mem_map_of_mem hm)
      rw [← heq] at hstart ⊢
      exact h.new nk hnk m₁ hm₁ hstart
  · by_cases hlt : line < x.lP
    · exact h.later nk hnk line hlt
    · have hline' : line < x.lP + 1 := hline
      obtain rfl : line = x.lP := by omega
      exact hleft nk hnk
  · show lastP ≤ s + 1
    have := h.last
    have : lastP ≤ max s x.lastP := hlast
    omega

/-- Where the first of the note entries that are left is not reached, none of them is. -/
theorem Waiting.left {s : Nat} {x : TrackExport} (h : x.Waiting s)
    (hhead : ∀ nk, x.ndata.head? = some nk → padTime x.lP 0 < nk.1.onAt) :
    ∀ nk ∈ x.ndata, padTime x.lP 0 < nk.1.onAt := by
  intro nk hnk
  have hsorted := h.sorted
  cases hdata : x.ndata with
  | nil =>
    rw [hdata] at hnk
    cases hnk
  | cons first rest =>
    rw [hdata] at hnk hsorted
    have hfirst := hhead first (by rw [hdata, List.head?_cons])
    rcases List.mem_cons.mp hnk with rfl | hnk
    · exact hfirst
    · have := (List.pairwise_cons.mp hsorted).1 nk hnk
      omega

end TrackExport

namespace LoopPlayer

/-! ### The notes that are reached -/

/-- The note is in the loop that begins at its start. -/
def Holds (p : LoopPlayer) (e : TrackNote) : Prop :=
  ∃ loopId L, p.loopIdAt e.start = some loopId ∧ p.loop loopId = some L ∧
    L.note[e.index]? = some e.entry

/-- The line is in the part of the sequence where the loop of the note goes on, and its time reaches
the note. -/
structure Reaches (p : LoopPlayer) (e : TrackNote) (line : Nat) : Prop where
  holds : p.Holds e
  begun : e.start ≤ line
  same : ∀ q, e.start < q → q ≤ line → p.loopIdAt q = none
  reached : e.entry.onAt ≤ padTime (line - e.start : Nat) 0

/-- The notes that are written are those that are reached: `s` is the next line to be done, and the
loop is known of the lines before `b`. -/
structure Seen (p : LoopPlayer) (b s : Nat) (x : TrackExport) : Prop where
  sound : ∀ m ∈ x.written, ∃ line < b, p.Reaches m.note line
  complete : ∀ e, ∀ line < s, p.Reaches e line → ∃ m ∈ x.written, m.note = e
  current : ∀ nk ∈ x.ndata, p.Holds ⟨x.lS, nk.2, nk.1⟩ ∧
    ∀ q, x.lS < q → q < b → p.loopIdAt q = none
  rest : ∀ e, p.Holds e → e.start < b → (∀ q, e.start < q → q < b → p.loopIdAt q = none) →
    (e.start = x.lS ∧ (e.entry, e.index) ∈ x.ndata) ∨ ∃ m ∈ x.written, m.note = e

/-- All loops have their notes in order of time. -/
def Sorted (p : LoopPlayer) : Prop :=
  ∀ loopId L, p.loop loopId = some L → L.note.Pairwise fun a b ↦ a.onAt ≤ b.onAt

/-- What `enterLoop` does. -/
theorem enterLoop_eq_some {p : LoopPlayer} {s : Nat} {x y : TrackExport}
    (h : p.enterLoop s x = some y) :
    (p.loopIdAt s = none ∧ y = x) ∨ ∃ loopId L, p.loopIdAt s = some loopId ∧
      p.loop loopId = some L ∧ y = { x with lP := 0, lS := s, ndata := L.note.zipIdx } := by
  rw [enterLoop] at h
  split at h
  · next hnone => exact .inl ⟨hnone, (Option.some.inj h).symm⟩
  · next loopId hid =>
    obtain ⟨L, hL, rfl⟩ := Option.map_eq_some_iff.mp h
    exact .inr ⟨loopId, L, hid, hL, rfl⟩

theorem Seen.enterLoop {p : LoopPlayer} {s : Nat} {x y : TrackExport} (h : p.Seen s s x)
    (hy : p.enterLoop s x = some y) : p.Seen (s + 1) s y := by
  have hsound : ∀ m ∈ x.written, ∃ line < s + 1, p.Reaches m.note line := by
    intro m hm
    obtain ⟨line, hlt, hreached⟩ := h.sound m hm
    exact ⟨line, by omega, hreached⟩
  rcases enterLoop_eq_some hy with ⟨hnone, rfl⟩ | ⟨loopId, L, hid, hL, rfl⟩
  · refine ⟨hsound, h.complete, fun nk hnk ↦ ?_, fun e he hstart hsame ↦ ?_⟩
    · obtain ⟨hholds, hsame⟩ := h.current nk hnk
      refine ⟨hholds, fun q hlt hq ↦ ?_⟩
      by_cases hqs : q = s
      · rw [hqs, hnone]
      · exact hsame q hlt (by omega)
    · have hne : e.start ≠ s := by
        rintro rfl
        obtain ⟨loopId, -, hid, -⟩ := he
        rw [hnone] at hid
        cases hid
      exact h.rest e he (by omega) fun q hlt hq ↦ hsame q hlt (by omega)
  · refine ⟨hsound, h.complete, fun nk hnk ↦ ?_, fun e he hstart hsame ↦ .inl ?_⟩
    · rw [List.mem_zipIdx_iff_getElem?] at hnk
      exact ⟨⟨loopId, L, hid, hL, hnk⟩, fun q (hlt : s < q) hq ↦ by omega⟩
    · have heq : e.start = s := by
        by_contra hne
        have := hsame s (by omega) (by omega)
        rw [hid] at this
        cases this
      obtain ⟨loopId', L', hid', hL', hentry⟩ := he
      rw [heq, hid] at hid'
      obtain rfl := Option.some.inj hid'
      rw [hL] at hL'
      obtain rfl := Option.some.inj hL'
      exact ⟨heq, List.mem_zipIdx_iff_getElem?.mpr hentry⟩

theorem Seen.waiting {p : LoopPlayer} (hsorted : p.Sorted) {s : Nat} {x y : TrackExport}
    (h : p.Seen s s x) (hx : x.Waiting s) (hy : p.enterLoop s x = some y) : y.Waiting s := by
  rcases enterLoop_eq_some hy with ⟨-, rfl⟩ | ⟨loopId, L, hid, hL, rfl⟩
  · exact hx
  · refine ⟨rfl, ?_, ?_, fun nk _ m hm hstart ↦ ?_, fun nk _ line hline ↦ ?_, hx.last⟩
    · have hmap : (L.note.zipIdx.map Prod.fst).Pairwise fun a b ↦ a.onAt ≤ b.onAt := by
        rw [List.zipIdx_map_fst]
        exact hsorted loopId L hL
      exact hmap.of_map Prod.fst fun _ _ hle ↦ hle
    · show (L.note.zipIdx.map Prod.snd).Nodup
      rw [List.zipIdx_map_snd]
      exact List.nodup_range'
    · obtain ⟨line, hlt, hreached⟩ := h.sound m hm
      have := hreached.begun
      have : m.note.start = s := hstart
      omega
    · exact absurd hline (Nat.not_lt_zero _)

/-- A note that is due is reached. -/
theorem Seen.reaches {p : LoopPlayer} {s k : Nat} {n : NoteEntry}
    {rest : List (NoteEntry × Nat)} {x : TrackExport} (h : p.Seen (s + 1) s x)
    (hx : x.Waiting s) (hnk : x.ndata = (n, k) :: rest) (hreached : n.onAt ≤ padTime x.lP 0) :
    p.Reaches ⟨x.lS, k, n⟩ s := by
  have hplace := hx.place
  obtain ⟨hholds, hsame⟩ := h.current (n, k) (hnk ▸ List.mem_cons_self ..)
  refine ⟨hholds, ?_, fun q hlt hle ↦ hsame q hlt (by omega), ?_⟩
  · show x.lS ≤ s
    omega
  · show n.onAt ≤ padTime (s - x.lS : Nat) 0
    rw [hplace, Nat.add_sub_cancel_left]
    exact hreached

theorem Seen.startNote {p : LoopPlayer} {s k : Nat} {n : NoteEntry}
    {rest : List (NoteEntry × Nat)} {x y : TrackExport} (h : p.Seen (s + 1) s x)
    (hx : x.Waiting s) (hnk : x.ndata = (n, k) :: rest) (hreached : n.onAt ≤ padTime x.lP 0)
    (hs : TrackExport.startNote s ⟨x.lS, k, n⟩ { x with ndata := rest } = some y) :
    p.Seen (s + 1) s y := by
  obtain ⟨-, offset, -, rfl⟩ := TrackExport.startNote_eq_some hs
  have hkept : ∀ e, (∃ m ∈ x.written, m.note = e) →
      ∃ m ∈ x.written ++ [⟨true, offset, ⟨x.lS, k, n⟩⟩], m.note = e := by
    rintro e ⟨m, hm, rfl⟩
    exact ⟨m, List.mem_append_left _ hm, rfl⟩
  refine ⟨fun m hm ↦ ?_, fun e line hline hr ↦ hkept e (h.complete e line hline hr),
    fun nk hmem ↦ h.current nk (hnk ▸ List.mem_cons_of_mem _ hmem), fun e he hstart hq ↦ ?_⟩
  · rcases List.mem_append.mp hm with hm | hm
    · exact h.sound m hm
    · obtain rfl := List.mem_singleton.mp hm
      exact ⟨s, by omega, h.reaches hx hnk hreached⟩
  · rcases h.rest e he hstart hq with ⟨heq, hmem⟩ | hwritten
    · rw [hnk] at hmem
      rcases List.mem_cons.mp hmem with hhead | hmem
      · refine .inr ⟨_, List.mem_append_right _ (List.mem_singleton_self _), ?_⟩
        obtain ⟨rfl, rfl⟩ := Prod.mk.inj hhead
        show (⟨x.lS, e.index, e.entry⟩ : TrackNote) = e
        rw [← heq]
      · exact .inl ⟨heq, hmem⟩
    · exact .inr (hkept e hwritten)

theorem Seen.stopNotes {p : LoopPlayer} {s : Nat} {x y : TrackExport} (h : p.Seen (s + 1) s x)
    (hx : x.Waiting s) (hbooked : x.Booked) (hleft : ∀ nk ∈ x.ndata, padTime x.lP 0 < nk.1.onAt)
    (hs : { x with notesToOff := Function.update x.notesToOff s [] }.stopNotes s (x.notesToOff s) =
      some y) : p.Seen (s + 1) (s + 1) { y with lP := y.lP + 1 } := by
  obtain ⟨lastP, messages, -, -, hchain, rfl⟩ := TrackExport.stopNotes_eq_some hs
  have hkept : ∀ e, (∃ m ∈ x.written, m.note = e) → ∃ m ∈ x.written ++ messages, m.note = e := by
    rintro e ⟨m, hm, rfl⟩
    exact ⟨m, List.mem_append_left _ hm, rfl⟩
  refine ⟨fun m hm ↦ ?_, fun e line hline hreaches ↦ ?_, h.current,
    fun e he hstart hq ↦ (h.rest e he hstart hq).imp_right (hkept e)⟩
  · rcases List.mem_append.mp hm with hm | hm
    · exact h.sound m hm
    · obtain ⟨m₁, hm₁, heq⟩ := hbooked.written (hchain ▸ List.mem_map_of_mem hm)
      rw [← heq]
      exact h.sound m₁ hm₁
  · by_cases hlt : line < s
    · exact hkept e (h.complete e line hlt hreaches)
    · obtain rfl : line = s := by omega
      have hbegun := hreaches.begun
      rcases h.rest e hreaches.holds (by omega)
        (fun q hlt hq ↦ hreaches.same q hlt (by omega)) with ⟨hlS, hmem⟩ | hwritten
      · have hafter : padTime x.lP 0 < e.entry.onAt := hleft _ hmem
        have hreached := hreaches.reached
        rw [hlS, hx.place, Nat.add_sub_cancel_left] at hreached
        omega
      · exact hkept e hwritten

/-! ### The walk over the lines -/

/-- No note begins before its loop, or ends before it begins. -/
def Sane (p : LoopPlayer) : Prop :=
  ∀ loopId L, p.loop loopId = some L → ∀ n ∈ L.note, 0 ≤ n.onAt ∧ 0 ≤ n.length

/-- The walk has come to a line. -/
structure Walk (p : LoopPlayer) (b s : Nat) (x : TrackExport) : Prop where
  booked : x.Booked
  waiting : x.Waiting s
  seen : p.Seen b s x
  ahead : p.Sane → x.Ahead s

theorem walk_new (p : LoopPlayer) : p.Walk 0 0 .new where
  booked := ⟨nofun, fun _ ↦ List.nodup_nil, fun _ ↦ .inl rfl, nofun, .inl rfl⟩
  waiting := ⟨rfl, .nil, List.nodup_nil, nofun, nofun, le_rfl⟩
  seen := ⟨nofun, fun _ _ hline ↦ absurd hline (Nat.not_lt_zero _), nofun,
    fun _ _ hstart ↦ absurd hstart (Nat.not_lt_zero _)⟩
  ahead _ := ⟨fun _ hq ↦ absurd rfl hq, fun hle ↦ absurd hle (by decide)⟩

theorem Walk.enterLoop {p : LoopPlayer} (hsorted : p.Sorted) {s : Nat} {x y : TrackExport}
    (h : p.Walk s s x) (hy : p.enterLoop s x = some y) : p.Walk (s + 1) s y := by
  refine ⟨?_, h.seen.waiting hsorted h.waiting hy, h.seen.enterLoop hy, fun hsane ↦ ?_⟩
  · rcases enterLoop_eq_some hy with ⟨-, rfl⟩ | ⟨loopId, L, -, -, rfl⟩
    · exact h.booked
    · exact ⟨h.booked.pending, h.booked.nodup, h.booked.known, h.booked.below, h.booked.top⟩
  · rcases enterLoop_eq_some hy with ⟨-, rfl⟩ | ⟨loopId, L, -, -, rfl⟩
    · exact h.ahead hsane
    · exact ⟨(h.ahead hsane).future, (h.ahead hsane).highest⟩

theorem Sane.of_holds {p : LoopPlayer} (h : p.Sane) {e : TrackNote} (he : p.Holds e) :
    0 ≤ e.entry.onAt ∧ 0 ≤ e.entry.length := by
  obtain ⟨loopId, L, -, hL, hentry⟩ := he
  exact h loopId L hL e.entry (List.mem_of_getElem? hentry)

theorem Walk.startNote {p : LoopPlayer} {s k : Nat} {n : NoteEntry}
    {rest : List (NoteEntry × Nat)} {x y : TrackExport} (h : p.Walk (s + 1) s x)
    (hnk : x.ndata = (n, k) :: rest) (hreached : n.onAt ≤ padTime x.lP 0)
    (hs : TrackExport.startNote s ⟨x.lS, k, n⟩ { x with ndata := rest } = some y) :
    p.Walk (s + 1) s y := by
  have hmem : (n, k) ∈ x.ndata := hnk ▸ List.mem_cons_self ..
  refine ⟨?_, h.waiting.startNote hnk hs, h.seen.startNote h.waiting hnk hreached hs,
    fun hsane ↦ ?_⟩
  · have hbooked : TrackExport.Booked { x with ndata := rest } :=
      ⟨h.booked.pending, h.booked.nodup, h.booked.known, h.booked.below, h.booked.top⟩
    refine hbooked.startNote ?_ hs
    rw [messagesOf_eq_nil_iff]
    intro m hm heq
    exact h.waiting.new (n, k) hmem m hm (by rw [heq]) (by rw [heq])
  · have hahead : TrackExport.Ahead s { x with ndata := rest } :=
      ⟨(h.ahead hsane).future, (h.ahead hsane).highest⟩
    refine hahead.startNote ?_ hs
    obtain ⟨hon, hlength⟩ := hsane.of_holds (h.seen.current (n, k) hmem).1
    have hle := TrackNote.le_off hon hlength hreached (h.waiting.later (n, k) hmem)
    rw [h.waiting.place]
    exact hle

/-- The last line at which a note is to be stopped only moves on. -/
theorem exportLine_highest {p : LoopPlayer} {s : Nat} {x y : TrackExport}
    (h : p.exportLine s x = some y) : x.highestOffP ≤ y.highestOffP := by
  simp only [exportLine, Option.bind_eq_bind, Option.bind_eq_some_iff, Option.some.injEq] at h
  obtain ⟨x₁, henter, x₂, hstart, x₃, hstop, rfl⟩ := h
  have henter : x.highestOffP ≤ x₁.highestOffP := by
    rcases enterLoop_eq_some henter with ⟨-, rfl⟩ | ⟨loopId, L, -, -, rfl⟩ <;> exact le_rfl
  have hstart := (TrackExport.startNotes_induction (P := fun y ↦ x.highestOffP ≤ y.highestOffP)
    (fun hx _ _ hs ↦ by
      obtain ⟨-, offset, -, rfl⟩ := TrackExport.startNote_eq_some hs
      exact le_trans hx (le_max_left _ _)) henter hstart).1
  obtain ⟨lastP, messages, -, -, -, rfl⟩ := TrackExport.stopNotes_eq_some hstop
  exact hstart

/-- One line of the walk. -/
theorem Walk.exportLine {p : LoopPlayer} (hsorted : p.Sorted) {s : Nat} {x y : TrackExport}
    (h : p.Walk s s x) (hy : p.exportLine s x = some y) : p.Walk (s + 1) (s + 1) y := by
  simp only [LoopPlayer.exportLine, Option.bind_eq_bind, Option.bind_eq_some_iff,
    Option.some.injEq] at hy
  obtain ⟨x₁, henter, x₂, hstart, x₃, hstop, rfl⟩ := hy
  obtain ⟨hwalk, -, -, hhead⟩ := TrackExport.startNotes_induction
    (fun hx hnk hreached hs ↦ Walk.startNote hx hnk hreached hs) (h.enterLoop hsorted henter) hstart
  have hleft := hwalk.waiting.left hhead
  have hbooked := hwalk.booked.stopNotes hstop
  refine ⟨⟨hbooked.pending, hbooked.nodup, hbooked.known, hbooked.below, hbooked.top⟩,
    hwalk.waiting.stopNotes hwalk.booked hleft hstop,
    hwalk.seen.stopNotes hwalk.waiting hwalk.booked hleft hstop, fun hsane ↦ ?_⟩
  have hahead := (hwalk.ahead hsane).stopNotes hstop
  exact ⟨hahead.future, hahead.highest⟩

/-- The notes that are reached within the sequence are stopped within the sequence. -/
def StopsInside (p : LoopPlayer) : Prop :=
  ∀ e, ∀ line < p.loopSequence.length, p.Reaches e line → e.off < p.loopSequence.length

/-- As long as notes are stopped within the sequence, the walk does not go beyond it. -/
theorem StopsInside.highest {p : LoopPlayer} (h : p.StopsInside) {s : Nat} {x : TrackExport}
    (hx : p.Walk s s x) (hs : s ≤ p.loopSequence.length) :
    x.highestOffP < p.loopSequence.length := by
  rcases hx.booked.top with htop | ⟨m, hm, htop⟩
  · omega
  · obtain ⟨line, hline, hreaches⟩ := hx.seen.sound m hm
    have := h m.note line (by omega) hreaches
    omega

/-- The walk to its end: it goes on while the sequence does or a note is to be stopped later. -/
theorem Walk.exportLines {p : LoopPlayer} (hsorted : p.Sorted) {rounds s : Nat}
    {x y : TrackExport} (h : p.Walk s s x)
    (hs : (s : Int) ≤ max (p.loopSequence.length : Int) x.highestOffP)
    (hy : p.exportLines rounds s x = some y) :
    ∃ t, p.Walk t t y ∧ (t : Int) = max (p.loopSequence.length : Int) y.highestOffP ∧
      (p.StopsInside → s ≤ p.loopSequence.length → t ≤ p.loopSequence.length) := by
  induction rounds generalizing s x with
  | zero => cases hy
  | succ rounds ih =>
    rw [LoopPlayer.exportLines] at hy
    split at hy
    · next hbound =>
      obtain ⟨z, hz, hy⟩ := Option.bind_eq_some_iff.mp hy
      have hhigher := exportLine_highest hz
      obtain ⟨t, hwalk, ht, hinside⟩ := ih (h.exportLine hsorted hz) (by push_cast; omega) hy
      refine ⟨t, hwalk, ht, fun hstops hle ↦ hinside hstops ?_⟩
      have := hstops.highest h hle
      omega
    · next hbound =>
      obtain rfl := Option.some.inj hy
      exact ⟨s, h, by omega, fun _ hle ↦ hle⟩

/-! ### Notes that are stopped -/

/-- Every note of the track has a note-on message and after it a note-off message, and no other. -/
def Paired (written : List TrackMessage) : Prop :=
  ∀ e, messagesOf e written = [] ∨ messagesOf e written = [true, false]

theorem Walk.paired_iff {p : LoopPlayer} {s : Nat} {x : TrackExport} (h : p.Walk s s x) :
    Paired x.written ↔ ∀ q, x.notesToOff q = [] := by
  constructor
  · intro hpaired q
    rw [List.eq_nil_iff_forall_not_mem]
    intro e he
    have hone := (h.booked.pending q e he).2
    rcases hpaired e with hnone | htwo
    · rw [hnone] at hone
      cases hone
    · rw [htwo] at hone
      cases hone
  · intro hnone e
    refine (h.booked.known e).imp_right (Or.resolve_left · ?_)
    rintro ⟨-, hmem⟩
    rw [hnone] at hmem
    cases hmem

/-- At the end of the walk. -/
theorem Walk.paired_iff_stopsInside {p : LoopPlayer} (hsane : p.Sane) {t : Nat} {x : TrackExport}
    (h : p.Walk t t x) (ht : (t : Int) = max (p.loopSequence.length : Int) x.highestOffP)
    (hinside : p.StopsInside → t ≤ p.loopSequence.length) :
    Paired x.written ↔ p.StopsInside := by
  rw [h.paired_iff]
  constructor
  · intro hnone e line hline hreaches
    obtain ⟨m, hm, rfl⟩ := h.seen.complete e line (by omega) hreaches
    by_contra hge
    have hbelow := h.booked.below m hm
    exact (h.ahead hsane).highest (by omega) (hnone _)
  · intro hends q
    by_contra hq
    obtain ⟨hle, hle'⟩ := (h.ahead hsane).future q hq
    have := hends.highest h (hinside hends)
    omega

theorem stopNotes_isSome {s : Nat} (hs : s < 2 ^ 27) {chain : List TrackNote} {x : TrackExport}
    (hlast : x.lastP ≤ s) : ∃ y, x.stopNotes s chain = some y := by
  induction chain generalizing x with
  | nil => exact ⟨x, rfl⟩
  | cons tip rest ih =>
    obtain ⟨y, hy⟩ := ih (x := { x with
      lastP := s
      written := x.written ++ [⟨false, 16 * (s - x.lastP), tip⟩] }) le_rfl
    refine ⟨y, ?_⟩
    rw [TrackExport.stopNotes, TrackExport.offset_eq hlast hs]
    exact hy

theorem Walk.startNotes_isSome {p : LoopPlayer} (hsane : p.Sane) (hstops : p.StopsInside) {s : Nat}
    (hs : s < p.loopSequence.length) (hlength : p.loopSequence.length ≤ 2 ^ 27) {x : TrackExport}
    (h : p.Walk (s + 1) s x) : ∃ y, x.startNotes s x.ndata = some y := by
  generalize hrest : x.ndata = rest
  induction rest generalizing x with
  | nil => exact ⟨x, rfl⟩
  | cons nk rest ih =>
    obtain ⟨n, k⟩ := nk
    rw [TrackExport.startNotes]
    split
    · next hreached =>
      have hreaches := h.seen.reaches h.waiting hrest hreached
      obtain ⟨hon, hlen⟩ := hsane.of_holds hreaches.holds
      have hoff := TrackNote.offPosition_eq hon hlen (by have := hstops _ s hs hreaches; omega)
      obtain ⟨y, hy⟩ := TrackExport.startNote_isSome (x := { x with ndata := rest }) hoff
        h.waiting.last (s := s) (by omega)
      have hwalk := h.startNote hrest hreached hy
      have hdata : y.ndata = rest := by
        obtain ⟨-, offset, -, rfl⟩ := TrackExport.startNote_eq_some hy
        rfl
      rw [hy]
      exact ih hwalk hdata
    · exact ⟨x, rfl⟩

theorem enterLoop_isSome {p : LoopPlayer}
    (hloops : ∀ s loopId, p.loopIdAt s = some loopId → (p.loop loopId).isSome) (s : Nat)
    (x : TrackExport) : ∃ y, p.enterLoop s x = some y := by
  rw [enterLoop]
  split
  · exact ⟨x, rfl⟩
  · next loopId hid =>
    obtain ⟨L, hL⟩ := Option.isSome_iff_exists.mp (hloops s loopId hid)
    exact ⟨_, by rw [hL, Option.map_some]⟩

/-- The lines of the sequence are exported. -/
theorem Walk.exportLine_isSome {p : LoopPlayer} (hsorted : p.Sorted) (hsane : p.Sane)
    (hloops : ∀ s loopId, p.loopIdAt s = some loopId → (p.loop loopId).isSome)
    (hstops : p.StopsInside) {s : Nat} (hs : s < p.loopSequence.length)
    (hlength : p.loopSequence.length ≤ 2 ^ 27) {x : TrackExport} (h : p.Walk s s x) :
    ∃ y, p.exportLine s x = some y := by
  obtain ⟨x₁, hx₁⟩ := enterLoop_isSome hloops s x
  have hwalk := h.enterLoop hsorted hx₁
  obtain ⟨x₂, hx₂⟩ := hwalk.startNotes_isSome hsane hstops hs hlength
  have hwalk₂ := (TrackExport.startNotes_induction
    (fun hx hnk hreached hs ↦ Walk.startNote hx hnk hreached hs) hwalk hx₂).1
  obtain ⟨x₃, hx₃⟩ := @stopNotes_isSome s (by omega) (x₂.notesToOff s)
    { x₂ with notesToOff := Function.update x₂.notesToOff s [] } hwalk₂.waiting.last
  refine ⟨{ x₃ with lP := x₃.lP + 1 }, ?_⟩
  simp only [LoopPlayer.exportLine, hx₁, hx₂, hx₃, Option.bind_eq_bind, Option.bind_some]

/-- The walk ends with the sequence where every line is exported and every note is stopped within
the sequence. -/
theorem Walk.exportLines_isSome {p : LoopPlayer} (hsorted : p.Sorted) (hstops : p.StopsInside)
    (hline : ∀ s x, s < p.loopSequence.length → p.Walk s s x → ∃ y, p.exportLine s x = some y)
    {rounds s : Nat} {x : TrackExport} (h : p.Walk s s x) (hs : s ≤ p.loopSequence.length)
    (hrounds : p.loopSequence.length < s + rounds) : ∃ y, p.exportLines rounds s x = some y := by
  induction rounds generalizing s x with
  | zero => omega
  | succ rounds ih =>
    rw [LoopPlayer.exportLines]
    split
    · next hbound =>
      have := hstops.highest h hs
      obtain ⟨y, hy⟩ := hline s x (by omega) h
      rw [hy]
      exact ih (h.exportLine hsorted hy) (by omega) (by omega)
    · exact ⟨x, rfl⟩

/-- Every note-on message of an exported track has its note-off message exactly if every note that
is reached within the sequence is stopped at a line before its end: the notes with the last line are
left behind where this line is not one of the sequence. -/
theorem exported_notes_stop_iff {p : LoopPlayer} (hsorted : p.Sorted) (hsane : p.Sane)
    (hloops : ∀ s loopId, p.loopIdAt s = some loopId → (p.loop loopId).isSome) :
    (∀ x, p.exportNotes = some x → (Paired x.written ↔ p.StopsInside)) ∧
      (p.loopSequence.length ≤ 2 ^ 27 →
        ((∃ x, p.exportNotes = some x ∧ Paired x.written) ↔ p.StopsInside)) := by
  have hiff : ∀ x, p.exportNotes = some x → (Paired x.written ↔ p.StopsInside) := by
    intro x hx
    obtain ⟨t, hwalk, ht, hinside⟩ :=
      (walk_new p).exportLines hsorted (by show (0 : Int) ≤ max _ (-1); omega) hx
    exact hwalk.paired_iff_stopsInside hsane ht fun hstops ↦ hinside hstops (Nat.zero_le _)
  refine ⟨hiff, fun hlength ↦ ⟨?_, fun hstops ↦ ?_⟩⟩
  · rintro ⟨x, hx, hpaired⟩
    exact (hiff x hx).mp hpaired
  · have hsome : ∃ x, p.exportLines (2 ^ 31) 0 .new = some x :=
      (walk_new p).exportLines_isSome hsorted hstops
        (fun s x hs h ↦ h.exportLine_isSome hsorted hsane hloops hstops hs hlength)
        (Nat.zero_le _) (by omega)
    obtain ⟨x, hx⟩ := hsome
    exact ⟨x, hx, (hiff x hx).mpr hstops⟩

/-- A sequence of 16 lines with a loop of one note at its first line. -/
def oneNote (length : Int) : LoopPlayer where
  loopStore :=
    [some ⟨[⟨0, 127, 60, 0, length⟩], 0, 0, List.replicate maxActiveNotes none, fun _ ↦ 0⟩]
  loopSequence := some 0 :: List.replicate 15 none
  currentLoop := none

theorem loop_oneNote {length : Int} {loopId : Nat} {L : Loop}
    (h : (oneNote length).loop loopId = some L) :
    loopId = 0 ∧ L.note = [⟨0, 127, 60, 0, length⟩] := by
  cases loopId with
  | zero =>
    obtain rfl := Option.some.inj h
    exact ⟨rfl, rfl⟩
  | succ loopId => cases h

theorem loopIdAt_oneNote {length : Int} {s loopId : Nat}
    (h : (oneNote length).loopIdAt s = some loopId) : s = 0 ∧ loopId = 0 := by
  cases s with
  | zero => exact ⟨rfl, (Option.some.inj h).symm⟩
  | succ s =>
    have hnone : (oneNote length).loopIdAt (s + 1) = none := by
      simp only [loopIdAt, oneNote, List.getElem?_cons_succ, List.getElem?_replicate]
      split <;> rfl
    rw [hnone] at h
    cases h

theorem sorted_oneNote (length : Int) : (oneNote length).Sorted := by
  intro loopId L hL
  rw [(loop_oneNote hL).2]
  exact List.pairwise_singleton _ _

theorem sane_oneNote {length : Int} (h : 0 ≤ length) : (oneNote length).Sane := by
  intro loopId L hL n hn
  rw [(loop_oneNote hL).2] at hn
  obtain rfl := List.mem_singleton.mp hn
  exact ⟨le_rfl, h⟩

theorem loops_oneNote (length : Int) : ∀ s loopId, (oneNote length).loopIdAt s = some loopId →
    ((oneNote length).loop loopId).isSome := by
  intro s loopId h
  obtain ⟨-, rfl⟩ := loopIdAt_oneNote h
  rfl

/-- A note that is stopped at the last line. -/
theorem exported_notes_stop_iff_inside :
    ∃ x, (oneNote 14).exportNotes = some x ∧ Paired x.written := by
  refine ((exported_notes_stop_iff (sorted_oneNote 14) (sane_oneNote (by decide))
    (loops_oneNote 14)).2 (by decide)).mpr ?_
  rintro ⟨start, index, entry⟩ line - ⟨⟨loopId, L, hid, hL, hentry⟩, -, -, -⟩
  obtain ⟨rfl, -⟩ := loopIdAt_oneNote hid
  rw [(loop_oneNote hL).2] at hentry
  obtain rfl := List.mem_singleton.mp (List.mem_of_getElem? hentry)
  show (0 : Int) + padTimeLine 0 + 14 + 1 < 16
  decide

/-- The note is to be stopped at the line behind the last one, where the walk has ended. -/
theorem last_note_not_stopped : ¬ ∀ p : LoopPlayer, p.Sorted → p.Sane →
    (∀ s loopId, p.loopIdAt s = some loopId → (p.loop loopId).isSome) →
      ∃ x, p.exportNotes = some x ∧ Paired x.written := by
  intro h
  obtain ⟨x, hx, hpaired⟩ :=
    h (oneNote 15) (sorted_oneNote 15) (sane_oneNote (by decide)) (loops_oneNote 15)
  have hwritten : (oneNote 15).exportNotes.map (·.written) =
      some [⟨true, 0, ⟨0, 0, ⟨0, 127, 60, 0, 15⟩⟩⟩] := by decide +kernel
  rw [hx, Option.map_some, Option.some.injEq] at hwritten
  have := hpaired ⟨0, 0, ⟨0, 127, 60, 0, 15⟩⟩
  rw [hwritten] at this
  exact absurd this (by decide)

end LoopPlayer

end Vuknob
