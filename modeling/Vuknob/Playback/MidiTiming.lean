import Mathlib.Data.Nat.Find
import Vuknob.Playback.LoopNotes
import Vuknob.Playback.MidiTrack

/-!
# Time in exported tracks and in playback

A track counts lines of 16 ticks, and so does it with the length of a note, which is in ticks:
`off_position` adds it to a line, `src_jni/machine_sequencer.cc:1543`, where playback counts ticks,
`src_jni/machine_sequencer.cc:200,211–212`.
-/

namespace Vuknob

/-! ### Time in a track -/

/-- The messages of a track with their times, the sums of the offsets. -/
def times : Nat → List TrackMessage → List (Nat × TrackMessage)
  | _, [] => []
  | t, m :: messages => (t + m.offset, m) :: times (t + m.offset) messages

theorem times_append (t : Nat) (before after : List TrackMessage) :
    times t (before ++ after) =
      times t before ++ times (t + (before.map (·.offset)).sum) after := by
  induction before generalizing t with
  | nil => rfl
  | cons m before ih =>
    rw [List.cons_append, times, times, ih, List.map_cons, List.sum_cons, Nat.add_assoc]
    rfl

/-- Every message has a time. -/
theorem exists_mem_times {t : Nat} {m : TrackMessage} {messages : List TrackMessage}
    (h : m ∈ messages) : ∃ u, (u, m) ∈ times t messages := by
  obtain ⟨before, after, rfl⟩ := List.append_of_mem h
  rw [times_append]
  exact ⟨_, List.mem_append_right _ (List.mem_cons_self ..)⟩

theorem mem_of_mem_times {t u : Nat} {m : TrackMessage} {messages : List TrackMessage}
    (h : (u, m) ∈ times t messages) : m ∈ messages := by
  induction messages generalizing t with
  | nil => cases h
  | cons first messages ih =>
    rw [times, List.mem_cons] at h
    rcases h with heq | h
    · rw [(Prod.mk.inj heq).2]
      exact List.mem_cons_self ..
    · exact List.mem_cons_of_mem _ (ih h)

/-- Messages are at their lines: note-on messages where the note is reached, note-off messages where
the note is to be stopped. -/
structure LoopPlayer.OnTime (p : LoopPlayer) (x : TrackExport) : Prop where
  total : (x.written.map (·.offset)).sum = 16 * x.lastP
  ons : ∀ t m, (t, m) ∈ times 0 x.written → m.on = true →
    ∃ line, t = 16 * line ∧ p.Reaches m.note line
  offs : ∀ t m, (t, m) ∈ times 0 x.written → m.on = false → (t : Int) = 16 * m.note.off

namespace TrackExport

theorem offset_eq_some {s offset : Nat} {x : TrackExport} (hlast : x.lastP ≤ s)
    (h : x.offset s = some offset) : offset = 16 * (s - x.lastP) := by
  rw [TrackExport.offset, Option.map_eq_some_iff] at h
  obtain ⟨value, hvalue, rfl⟩ := h
  obtain ⟨hfits, rfl⟩ := int_eq_some_iff.mp hvalue
  omega

/-- The loop over a chain writes its messages at the time of the line. -/
theorem stopNotes_times {s : Nat} {chain : List TrackNote} {x y : TrackExport}
    (hlast : x.lastP ≤ s) (h : x.stopNotes s chain = some y) :
    ∃ messages, y.written = x.written ++ messages ∧ messages.map (·.note) = chain ∧
      (∀ m ∈ messages, m.on = false) ∧
      (∀ t m, (t, m) ∈ times (16 * x.lastP) messages → t = 16 * s) ∧
        16 * x.lastP + (messages.map (·.offset)).sum = 16 * y.lastP := by
  induction chain generalizing x with
  | nil =>
    obtain rfl := Option.some.inj h
    exact ⟨[], (List.append_nil _).symm, rfl, nofun, nofun, rfl⟩
  | cons tip rest ih =>
    simp only [TrackExport.stopNotes, Option.bind_eq_bind, Option.bind_eq_some_iff] at h
    obtain ⟨offset, hoffset, h⟩ := h
    obtain rfl := offset_eq_some hlast hoffset
    obtain ⟨messages, hwritten, hchain, hfalse, htimes, hsum⟩ := ih le_rfl h
    have hnow : 16 * x.lastP + 16 * (s - x.lastP) = 16 * s := by omega
    refine ⟨⟨false, 16 * (s - x.lastP), tip⟩ :: messages, ?_, by rw [List.map_cons, hchain],
      ?_, ?_, ?_⟩
    · rw [hwritten, List.append_assoc, List.singleton_append]
    · intro m hm
      rcases List.mem_cons.mp hm with rfl | hm
      · rfl
      · exact hfalse m hm
    · intro t m hm
      rw [times, List.mem_cons] at hm
      rcases hm with heq | hm
      · rw [(Prod.mk.inj heq).1]
        exact hnow
      · refine htimes t m ?_
        rw [← hnow]
        exact hm
    · rw [List.map_cons, List.sum_cons, ← Nat.add_assoc, hnow]
      exact hsum

end TrackExport

namespace LoopPlayer

theorem OnTime.startNote {p : LoopPlayer} {s k : Nat} {n : NoteEntry}
    {rest : List (NoteEntry × Nat)} {x y : TrackExport} (h : p.OnTime x) (hx : p.Walk (s + 1) s x)
    (hnk : x.ndata = (n, k) :: rest) (hreached : n.onAt ≤ padTime x.lP 0)
    (hs : TrackExport.startNote s ⟨x.lS, k, n⟩ { x with ndata := rest } = some y) : p.OnTime y := by
  have hreaches := hx.seen.reaches hx.waiting hnk hreached
  have hlast := hx.waiting.last
  obtain ⟨-, offset, hoffset, rfl⟩ := TrackExport.startNote_eq_some hs
  obtain rfl : offset = 16 * (s - x.lastP) := TrackExport.offset_eq_some hlast hoffset
  have htimes : ∀ t m,
      (t, m) ∈ times 0 (x.written ++ [⟨true, 16 * (s - x.lastP), ⟨x.lS, k, n⟩⟩]) →
      (t, m) ∈ times 0 x.written ∨ t = 16 * s ∧ m.on = true ∧ m.note = ⟨x.lS, k, n⟩ := by
    intro t m hm
    rw [times_append, h.total, List.mem_append] at hm
    refine hm.imp_right fun hm ↦ ?_
    obtain ⟨rfl, rfl⟩ := Prod.mk.inj (List.mem_singleton.mp hm)
    refine ⟨?_, rfl, rfl⟩
    show 0 + 16 * x.lastP + 16 * (s - x.lastP) = 16 * s
    omega
  refine ⟨?_, fun t m hm hon ↦ ?_, fun t m hm hoff ↦ ?_⟩
  · show ((x.written ++ [(⟨true, 16 * (s - x.lastP), ⟨x.lS, k, n⟩⟩ : TrackMessage)]).map
      (·.offset)).sum = 16 * s
    rw [List.map_append, List.sum_append, h.total]
    show 16 * x.lastP + (16 * (s - x.lastP) + 0) = 16 * s
    omega
  · rcases htimes t m hm with hm | ⟨rfl, -, hnote⟩
    · exact h.ons t m hm hon
    · exact ⟨s, rfl, hnote ▸ hreaches⟩
  · rcases htimes t m hm with hm | ⟨-, htrue, -⟩
    · exact h.offs t m hm hoff
    · rw [hoff] at htrue
      cases htrue

/-- One line of the walk. -/
theorem OnTime.exportLine {p : LoopPlayer} (hsorted : p.Sorted) {s : Nat} {x y : TrackExport}
    (h : p.OnTime x) (hx : p.Walk s s x) (hy : p.exportLine s x = some y) : p.OnTime y := by
  simp only [LoopPlayer.exportLine, Option.bind_eq_bind, Option.bind_eq_some_iff,
    Option.some.injEq] at hy
  obtain ⟨x₁, henter, x₂, hstart, x₃, hstop, rfl⟩ := hy
  have hwalk₁ := hx.enterLoop hsorted henter
  have htime₁ : p.OnTime x₁ := by
    rcases enterLoop_eq_some henter with ⟨-, rfl⟩ | ⟨loopId, L, -, -, rfl⟩
    · exact h
    · exact ⟨h.total, h.ons, h.offs⟩
  obtain ⟨⟨hwalk, htime⟩, -, -, -⟩ := TrackExport.startNotes_induction
    (P := fun x ↦ p.Walk (s + 1) s x ∧ p.OnTime x)
    (fun hx hnk hreached hs ↦
      ⟨hx.1.startNote hnk hreached hs, hx.2.startNote hx.1 hnk hreached hs⟩) ⟨hwalk₁, htime₁⟩ hstart
  obtain ⟨messages, hwritten, hchain, hfalse, htimes, hsum⟩ :=
    TrackExport.stopNotes_times (x := { x₂ with notesToOff := Function.update x₂.notesToOff s [] })
      hwalk.waiting.last hstop
  have hsplit : ∀ t m, (t, m) ∈ times 0 x₃.written →
      (t, m) ∈ times 0 x₂.written ∨ t = 16 * s ∧ m ∈ messages := by
    intro t m hm
    rw [hwritten, times_append, List.mem_append] at hm
    refine hm.imp_right fun hm ↦ ?_
    have htotal : (x₂.written.map (·.offset)).sum = 16 * x₂.lastP := htime.total
    rw [Nat.zero_add, htotal] at hm
    exact ⟨htimes t m hm, mem_of_mem_times hm⟩
  refine ⟨?_, fun t m hm hon ↦ ?_, fun t m hm hoff ↦ ?_⟩
  · show (x₃.written.map (·.offset)).sum = 16 * x₃.lastP
    rw [hwritten, List.map_append, List.sum_append, ← hsum]
    exact congrArg (· + _) htime.total
  · rcases hsplit t m hm with hm | ⟨-, hm⟩
    · exact htime.ons t m hm hon
    · rw [hfalse m hm] at hon
      cases hon
  · rcases hsplit t m hm with hm | ⟨rfl, hstopped⟩
    · exact htime.offs t m hm hoff
    · have hmem : m.note ∈ x₂.notesToOff s := hchain ▸ List.mem_map_of_mem hstopped
      rw [← (hwalk.booked.pending s m.note hmem).1]
      push_cast
      rfl

theorem OnTime.exportLines {p : LoopPlayer} (hsorted : p.Sorted) {rounds s : Nat}
    {x y : TrackExport} (h : p.OnTime x) (hx : p.Walk s s x)
    (hy : p.exportLines rounds s x = some y) : p.OnTime y := by
  induction rounds generalizing s x with
  | zero => cases hy
  | succ rounds ih =>
    rw [LoopPlayer.exportLines] at hy
    split at hy
    · obtain ⟨z, hz, hy⟩ := Option.bind_eq_some_iff.mp hy
      exact ih (h.exportLine hsorted hx hz) (hx.exportLine hsorted hz) hy
    · obtain rfl := Option.some.inj hy
      exact h

end LoopPlayer

/-! ### Time in playback -/

namespace Loop

/-- The note at place `k` is in a slot and passed, and its count is at most `count`. -/
structure Holding (k : Nat) (n : NoteEntry) (count : Int) (L : Loop) : Prop where
  slot : ∃ x : Nat, x < maxActiveNotes ∧ L.activeNote[x]? = some (some k)
  entry : L.note[k]? = some n
  passed : k < L.nextNoteToPlay
  counted : L.ticks2off k ≤ count

/-- `endNote` changes slots and counts only. -/
theorem endNote_fields (x : Nat) (L : Loop) :
    (L.endNote x).2.note = L.note ∧ (L.endNote x).2.loopPosition = L.loopPosition ∧
      (L.endNote x).2.nextNoteToPlay = L.nextNoteToPlay ∧
        (L.endNote x).2.activeNote.length = L.activeNote.length := by
  unfold endNote
  split
  · split
    · exact ⟨rfl, rfl, rfl, rfl⟩
    · exact ⟨rfl, rfl, rfl, List.length_set⟩
  · exact ⟨rfl, rfl, rfl, rfl⟩

/-- A round of `process_note_off`: a note in a slot is ended, or stays in the slot and is counted
down if the round is about it. -/
theorem endNote_holding {x y k : Nat} {n : NoteEntry} {L : Loop}
    (hx : L.activeNote[x]? = some (some k)) (hn : L.note[k]? = some n) :
    .noteOff n ∈ (L.endNote y).1 ∨ (L.endNote y).2.activeNote[x]? = some (some k) ∧
      (L.endNote y).2.ticks2off k ≤ L.ticks2off k ∧
        (x = y → 0 < L.ticks2off k ∧ (L.endNote y).2.ticks2off k < L.ticks2off k) := by
  unfold endNote
  split
  · next j hj =>
    by_cases hjk : j = k
    · subst hjk
      split
      · next hpos =>
        refine .inr ⟨hx, ?_, fun _ ↦ ⟨hpos, ?_⟩⟩
        · simp only [Function.update_self]
          omega
        · simp only [Function.update_self]
          omega
      · rw [hn]
        exact .inl (List.mem_singleton_self _)
    · have hne : x ≠ y := by
        rintro rfl
        rw [hx] at hj
        exact hjk (Option.some.inj (Option.some.inj hj)).symm
      split
      · refine .inr ⟨hx, ?_, fun he ↦ absurd he hne⟩
        simp only [Function.update_of_ne (Ne.symm hjk)]
        exact le_rfl
      · refine .inr ⟨?_, le_rfl, fun he ↦ absurd he hne⟩
        show (L.activeNote.set (L.activeNote.idxOf (some j)) none)[x]? = some (some k)
        rw [List.getElem?_set_ne, hx]
        intro he
        have hlt : L.activeNote.idxOf (some j) < L.activeNote.length := by
          rw [he]
          exact (List.getElem?_eq_some_iff.mp hx).1
        have hget : L.activeNote[L.activeNote.idxOf (some j)]? = some (some j) := by
          rw [List.getElem?_eq_getElem hlt, List.getElem_idxOf]
        rw [he, hx] at hget
        exact hjk (Option.some.inj (Option.some.inj hget)).symm
  · next hno =>
    refine .inr ⟨hx, le_rfl, fun he ↦ absurd hx ?_⟩
    rw [he]
    exact hno k

theorem endNotes_fields (slots : List Nat) (L : Loop) :
    (L.endNotes slots).2.note = L.note ∧ (L.endNotes slots).2.loopPosition = L.loopPosition ∧
      (L.endNotes slots).2.nextNoteToPlay = L.nextNoteToPlay ∧
        (L.endNotes slots).2.activeNote.length = L.activeNote.length := by
  induction slots generalizing L with
  | nil => exact ⟨rfl, rfl, rfl, rfl⟩
  | cons x slots ih =>
    obtain ⟨hnote, hposition, hnext, hlength⟩ := endNote_fields x L
    obtain ⟨hnote', hposition', hnext', hlength'⟩ := ih (L.endNote x).2
    rw [endNotes_cons]
    exact ⟨hnote'.trans hnote, hposition'.trans hposition, hnext'.trans hnext,
      hlength'.trans hlength⟩

theorem processNoteOff_fields (L : Loop) :
    L.processNoteOff.2.note = L.note ∧ L.processNoteOff.2.loopPosition = L.loopPosition ∧
      L.processNoteOff.2.nextNoteToPlay = L.nextNoteToPlay ∧
        L.processNoteOff.2.activeNote.length = L.activeNote.length := by
  rw [processNoteOff]
  exact endNotes_fields _ L

theorem noteOn_not_mem_endNotes (n : NoteEntry) (slots : List Nat) (L : Loop) :
    .noteOn n ∉ (L.endNotes slots).1 := by
  induction slots generalizing L with
  | nil => exact List.not_mem_nil
  | cons x slots ih =>
    rw [endNotes_cons, List.mem_append]
    rintro (hmem | hmem)
    · unfold endNote at hmem
      split at hmem
      · split at hmem
        · cases hmem
        · obtain ⟨m, -, heq⟩ := List.mem_map.mp hmem
          cases heq
      · cases hmem
    · exact ih _ hmem

theorem endNotes_holding {x k : Nat} {n : NoteEntry} {slots : List Nat} {L : Loop}
    (hx : L.activeNote[x]? = some (some k)) (hn : L.note[k]? = some n) :
    .noteOff n ∈ (L.endNotes slots).1 ∨ (L.endNotes slots).2.activeNote[x]? = some (some k) ∧
      (L.endNotes slots).2.ticks2off k ≤ L.ticks2off k ∧
        (x ∈ slots → 0 < L.ticks2off k ∧ (L.endNotes slots).2.ticks2off k < L.ticks2off k) := by
  induction slots generalizing L with
  | nil => exact .inr ⟨hx, le_rfl, nofun⟩
  | cons y slots ih =>
    simp only [endNotes_cons]
    rcases endNote_holding (y := y) hx hn with hoff | ⟨hx', hle, hown⟩
    · exact .inl (List.mem_append_left _ hoff)
    · rw [← (endNote_fields y L).1] at hn
      rcases ih hx' hn with hoff | ⟨hx'', hle', hown'⟩
      · exact .inl (List.mem_append_right _ hoff)
      · refine .inr ⟨hx'', by omega, fun hmem ↦ ?_⟩
        rcases List.mem_cons.mp hmem with rfl | hmem
        · have := hown rfl
          omega
        · have := hown' hmem
          omega

/-- A round of `process_note_on`. -/
theorem startNote_holding {n : NoteEntry} {L L' : Loop} {events : List LoopEvent}
    (hn : L.note[L.nextNoteToPlay]? = some n) (hslots : L.activeNote.length = maxActiveNotes)
    (h : L.startNote true n = some (events, L')) :
    L'.note = L.note ∧ L'.loopPosition = L.loopPosition ∧
      L'.nextNoteToPlay = L.nextNoteToPlay + 1 ∧ L'.activeNote.length = maxActiveNotes ∧
      (∀ k m count, L.Holding k m count → L'.Holding k m count) ∧
        ∀ e ∈ events, e = .noteOn n ∧ L'.Holding L.nextNoteToPlay n (n.length + 1) := by
  rcases activateNote_cases L L.nextNoteToPlay with ⟨x, hx, hactivate⟩ | ⟨-, hactivate⟩
  · simp only [Loop.startNote, hactivate] at h
    obtain ⟨ticks, hticks, heq⟩ := Option.map_eq_some_iff.mp h
    obtain ⟨rfl, rfl⟩ := Prod.mk.inj heq
    obtain ⟨-, rfl⟩ := int_eq_some_iff.mp hticks
    have hlt : x < L.activeNote.length := (List.getElem?_eq_some_iff.mp hx).1
    refine ⟨rfl, rfl, rfl, List.length_set.trans hslots, fun k m count hk ↦ ?_, fun e he ↦ ?_⟩
    · obtain ⟨⟨y, hy, hslot⟩, hentry, hpassed, hcounted⟩ := hk
      have hne : x ≠ y := by
        rintro rfl
        rw [hx] at hslot
        cases hslot
      refine ⟨⟨y, hy, ?_⟩, hentry, Nat.lt_succ_of_lt hpassed, ?_⟩
      · show (L.activeNote.set x (some L.nextNoteToPlay))[y]? = some (some k)
        rw [List.getElem?_set_ne hne, hslot]
      · show Function.update L.ticks2off L.nextNoteToPlay (n.length + 1) k ≤ count
        rw [Function.update_of_ne (by omega)]
        exact hcounted
    · refine ⟨List.mem_singleton.mp he, ⟨x, hslots ▸ hlt, ?_⟩, hn, Nat.lt_succ_self _, ?_⟩
      · show (L.activeNote.set x (some L.nextNoteToPlay))[x]? = some (some L.nextNoteToPlay)
        rw [List.getElem?_set_self hlt]
      · show Function.update L.ticks2off L.nextNoteToPlay (n.length + 1) L.nextNoteToPlay ≤ _
        rw [Function.update_self]
  · simp only [Loop.startNote, hactivate] at h
    obtain ⟨rfl, rfl⟩ := Prod.mk.inj (Option.some.inj h)
    exact ⟨rfl, rfl, rfl, hslots, fun k m count hk ↦
      ⟨hk.slot, hk.entry, Nat.lt_succ_of_lt hk.passed, hk.counted⟩, nofun⟩

theorem startNotes_holding {rest : List NoteEntry} {L L' : Loop} {events : List LoopEvent}
    (hrest : L.note.drop L.nextNoteToPlay = rest) (hslots : L.activeNote.length = maxActiveNotes)
    (h : L.startNotes true rest = some (events, L')) :
    L'.note = L.note ∧ L'.loopPosition = L.loopPosition ∧
      L'.activeNote.length = maxActiveNotes ∧
      (∀ k m count, L.Holding k m count → L'.Holding k m count) ∧
        ∀ e ∈ events, ∃ n, e = .noteOn n ∧ n.onAt = L.loopPosition ∧
          ∃ k, L'.Holding k n (n.length + 1) := by
  induction rest generalizing L events with
  | nil =>
    obtain ⟨rfl, rfl⟩ := Prod.mk.inj (Option.some.inj h)
    exact ⟨rfl, rfl, hslots, fun _ _ _ hk ↦ hk, nofun⟩
  | cons n rest ih =>
    rw [Loop.startNotes] at h
    split at h
    · next hon =>
      simp only [Option.bind_eq_bind, Option.bind_eq_some_iff, Option.some.injEq] at h
      obtain ⟨⟨first, L₁⟩, hfirst, ⟨more, L₂⟩, hmore, heq⟩ := h
      obtain ⟨rfl, rfl⟩ := Prod.mk.inj heq
      have hn : L.note[L.nextNoteToPlay]? = some n := by
        rw [← List.head?_drop, hrest, List.head?_cons]
      obtain ⟨hnote, hposition, hnext, hlength, hkeep, hevents⟩ :=
        startNote_holding hn hslots hfirst
      have hdrop : L₁.note.drop L₁.nextNoteToPlay = rest := by
        rw [hnote, hnext, ← List.drop_drop, hrest]
        rfl
      obtain ⟨hnote', hposition', hlength', hkeep', hevents'⟩ := ih hdrop hlength hmore
      refine ⟨hnote'.trans hnote, hposition'.trans hposition, hlength',
        fun k m count hk ↦ hkeep' k m count (hkeep k m count hk), fun e he ↦ ?_⟩
      rcases List.mem_append.mp he with he | he
      · obtain ⟨rfl, hk⟩ := hevents e he
        exact ⟨n, rfl, hon, L.nextNoteToPlay, hkeep' _ _ _ hk⟩
      · obtain ⟨m, rfl, hm, hk⟩ := hevents' e he
        exact ⟨m, rfl, hm.trans hposition, hk⟩
    · obtain ⟨rfl, rfl⟩ := Prod.mk.inj (Option.some.inj h)
      exact ⟨rfl, rfl, hslots, fun _ _ _ hk ↦ hk, nofun⟩

/-- A note in a slot is ended in `process_note_off`, or counted down. -/
theorem Holding.processNoteOff {k : Nat} {n : NoteEntry} {count : Int} {L : Loop}
    (h : L.Holding k n count) :
    .noteOff n ∈ L.processNoteOff.1 ∨ 0 < count ∧ L.processNoteOff.2.Holding k n (count - 1) := by
  obtain ⟨⟨x, hlt, hx⟩, hentry, hpassed, hcounted⟩ := h
  obtain ⟨hnote, -, hnext, -⟩ := L.processNoteOff_fields
  have hended := @endNotes_holding x k n (List.range maxActiveNotes) L hx hentry
  rw [← Loop.processNoteOff] at hended
  generalize L.processNoteOff = r at hnote hnext hended ⊢
  have hmem : x ∈ List.range maxActiveNotes := List.mem_range.mpr hlt
  rcases hended with hoff | ⟨hx', -, hown⟩
  · exact .inl hoff
  · obtain ⟨hpos, hless⟩ := hown hmem
    exact .inr ⟨by omega, ⟨x, hlt, hx'⟩, hnote ▸ hentry, hnext ▸ hpassed, by omega⟩

/-- One tick of a loop: notes are started at their position, and a note that is held is ended or
counted down. -/
theorem process_holding {L L' : Loop} {events : List LoopEvent}
    (hslots : L.activeNote.length = maxActiveNotes) (h : L.process true = some (events, L')) :
    L'.note = L.note ∧ L'.loopPosition = L.loopPosition + 1 ∧
      L'.activeNote.length = maxActiveNotes ∧
      (∀ k n count, L.Holding k n count →
        .noteOff n ∈ events ∨ 0 < count ∧ L'.Holding k n (count - 1)) ∧
      ∀ n, .noteOn n ∈ events → n.onAt = L.loopPosition ∧
        (.noteOff n ∈ events ∨ ∃ k, L'.Holding k n n.length) := by
  simp only [Loop.process, Option.bind_eq_some_iff, Option.map_eq_some_iff, Prod.mk.injEq] at h
  obtain ⟨⟨started, L₁⟩, hon, position, hposition, rfl, rfl⟩ := h
  obtain ⟨hnote₁, hposition₁, hlength₁, hkeep, hons⟩ := startNotes_holding rfl hslots hon
  obtain ⟨hnote₂, hposition₂, -, hlength₂⟩ := L₁.processNoteOff_fields
  have honly := fun n ↦ noteOn_not_mem_endNotes n (List.range maxActiveNotes) L₁
  have hheld := fun k n count (hk : L₁.Holding k n count) ↦ hk.processNoteOff
  rw [← processNoteOff] at honly
  generalize L₁.processNoteOff = r at hposition hnote₂ hposition₂ hlength₂ honly hheld ⊢
  obtain ⟨-, rfl⟩ := int_eq_some_iff.mp hposition
  have hheld' : ∀ k n count, L₁.Holding k n count → .noteOff n ∈ started ++ r.1 ∨
      0 < count ∧ Holding k n (count - 1) { r.2 with loopPosition := r.2.loopPosition + 1 } := by
    intro k n count hk
    rcases hheld k n count hk with hoff | ⟨hpos, hk'⟩
    · exact .inl (List.mem_append_right _ hoff)
    · exact .inr ⟨hpos, hk'.slot, hk'.entry, hk'.passed, hk'.counted⟩
  refine ⟨hnote₂.trans hnote₁, ?_, hlength₂.trans hlength₁,
    fun k n count hk ↦ hheld' k n count (hkeep k n count hk), fun n hn ↦ ?_⟩
  · show r.2.loopPosition + 1 = L.loopPosition + 1
    rw [hposition₂, hposition₁]
  · rcases List.mem_append.mp hn with hn | hn
    · obtain ⟨m, heq, hm, k, hk⟩ := hons _ hn
      obtain rfl := LoopEvent.noteOn.inj heq
      refine ⟨hm, (hheld' k n _ hk).imp_right ?_⟩
      rintro ⟨-, hk'⟩
      rw [Int.add_sub_cancel] at hk'
      exact ⟨k, hk'⟩
    · exact absurd hn (honly n)

end Loop

namespace LoopPlayer

/-- The player after some ticks of playback from the start of the sequence, unmuted and without a
loop region, `src_jni/machine_sequencer.cc:734–762`. -/
def played (p : LoopPlayer) : Nat → Option LoopPlayer
  | 0 => some p
  | tick + 1 => do
    let q ← p.played tick
    let (_, q) ← q.tick (tick / 16 : Nat) (tick % 16 : Nat) false
    some q

/-- The loop that a tick of playback processes, and what is queued. -/
def queuedAt (p : LoopPlayer) (tick : Nat) : Option (Option Nat × List LoopEvent) := do
  let q ← p.played tick
  let (events, q) ← q.tick (tick / 16 : Nat) (tick % 16 : Nat) false
  some (q.currentLoop, events)

/-- The loop that begins at a tick. -/
def beginsAt (p : LoopPlayer) (tick : Nat) : Option Nat :=
  if tick % 16 = 0 then p.loopIdAt (tick / 16) else none

theorem begins_eq (p : LoopPlayer) (tick : Nat) :
    p.begins (tick / 16 : Nat) (tick % 16 : Nat) = p.beginsAt tick := by
  rw [begins, beginsAt, internalGetLoopIdAt, if_pos (Int.natCast_nonneg _), Int.toNat_natCast,
    loopIdAt]
  by_cases h : tick % 16 = 0
  · rw [if_pos h, if_pos (by omega)]
  · rw [if_neg h, if_neg (by omega)]

/-- What a tick does: a loop begins or the current one goes on, and it is processed. -/
theorem tick_eq_some {q q' : LoopPlayer} {tick : Nat} {events : List LoopEvent}
    (h : q.tick (tick / 16 : Nat) (tick % 16 : Nat) false = some (events, q')) :
    (q.beginsAt tick = none ∧ q.currentLoop = none ∧ events = [] ∧ q' = q) ∨
      ∃ loopId L L', q'.currentLoop = some loopId ∧ q'.loopSequence = q.loopSequence ∧
        (∀ other, q'.loop other = if other = loopId then some L' else q.loop other) ∧
        L.process true = some (events, L') ∧
          ((q.beginsAt tick = some loopId ∧ ∃ M, q.loop loopId = some M ∧ L = M.startToPlay) ∨
            (q.beginsAt tick = none ∧ q.currentLoop = some loopId ∧ q.loop loopId = some L)) := by
  rw [LoopPlayer.tick, Option.bind_eq_some_iff] at h
  obtain ⟨q₁, hstart, h⟩ := h
  rw [startLoop, begins_eq] at hstart
  split at hstart
  · next hnone =>
    obtain rfl := Option.some.inj hstart
    rw [processLoop] at h
    split at h
    · next hcurrent =>
      obtain ⟨rfl, rfl⟩ := Prod.mk.inj (Option.some.inj h)
      exact .inl ⟨hnone, hcurrent, rfl, rfl⟩
    · next loopId hcurrent =>
      split at h
      · cases h
      next L hL =>
      obtain ⟨⟨_, L'⟩, hprocess, heq⟩ := Option.map_eq_some_iff.mp h
      obtain ⟨rfl, rfl⟩ := Prod.mk.inj heq
      exact .inr ⟨loopId, L, L', hcurrent, rfl, loop_setLoop hL L', hprocess,
        .inr ⟨hnone, hcurrent, hL⟩⟩
  · next loopId hbegins =>
    obtain ⟨M, hM, rfl⟩ := Option.map_eq_some_iff.mp hstart
    have hget := loop_setLoop hM M.startToPlay
    rw [processLoop] at h
    have hL : { q.setLoop loopId M.startToPlay with currentLoop := some loopId }.loop loopId =
        some M.startToPlay := by
      show (q.setLoop loopId M.startToPlay).loop loopId = _
      rw [hget, if_pos rfl]
    simp only [hL] at h
    obtain ⟨⟨_, L'⟩, hprocess, heq⟩ := Option.map_eq_some_iff.mp h
    obtain ⟨rfl, rfl⟩ := Prod.mk.inj heq
    refine .inr ⟨loopId, M.startToPlay, L', rfl, rfl, fun other ↦ ?_, hprocess,
      .inl ⟨hbegins, M, hM, rfl⟩⟩
    rw [loop_setLoop hL]
    by_cases hother : other = loopId
    · rw [if_pos hother, if_pos hother]
    · rw [if_neg hother, if_neg hother]
      show (q.setLoop loopId M.startToPlay).loop other = _
      rw [hget, if_neg hother]

/-- All loops have their slots. -/
def Slots (p : LoopPlayer) : Prop :=
  ∀ loopId L, p.loop loopId = some L → L.activeNote.length = maxActiveNotes

/-- Playback is at a tick: the loop that began last is the current one, at its position. -/
structure PlayedTo (p : LoopPlayer) (tick : Nat) (q : LoopPlayer) : Prop where
  sequence : q.loopSequence = p.loopSequence
  slots : q.Slots
  current : ∀ start loopId, 16 * start < tick → p.loopIdAt start = some loopId →
    (∀ line, start < line → 16 * line < tick → p.loopIdAt line = none) →
      q.currentLoop = some loopId ∧
        ∃ L, q.loop loopId = some L ∧ L.loopPosition = tick - 16 * start

theorem PlayedTo.beginsAt {p q : LoopPlayer} {tick : Nat} (h : p.PlayedTo tick q) :
    q.beginsAt tick = p.beginsAt tick := by
  rw [LoopPlayer.beginsAt, LoopPlayer.beginsAt, loopIdAt, loopIdAt, h.sequence]

/-- While a loop goes on, no other one begins. -/
theorem beginsAt_eq_none {p : LoopPlayer} {start tick : Nat} (hlt : 16 * start < tick)
    (hsame : ∀ line, start < line → 16 * line ≤ tick → p.loopIdAt line = none) :
    p.beginsAt tick = none := by
  rw [beginsAt]
  split
  · exact hsame _ (by omega) (by omega)
  · rfl

theorem PlayedTo.tick {p q q' : LoopPlayer} {tick : Nat} {events : List LoopEvent}
    (h : p.PlayedTo tick q)
    (ht : q.tick (tick / 16 : Nat) (tick % 16 : Nat) false = some (events, q')) :
    p.PlayedTo (tick + 1) q' := by
  rcases tick_eq_some ht with ⟨hbegins, hcurrent, rfl, rfl⟩ |
    ⟨loopId, L, L', hcurrent, hsequence, hloops, hprocess, hbegan⟩
  · refine ⟨h.sequence, h.slots, fun start loopId hlt hid hsame ↦ ?_⟩
    rcases Nat.lt_or_ge (16 * start) tick with hlt' | hge
    · have := (h.current start loopId hlt' hid fun line hl ht ↦ hsame line hl (by omega)).1
      rw [hcurrent] at this
      cases this
    · obtain rfl : tick = 16 * start := by omega
      rw [h.beginsAt, LoopPlayer.beginsAt, if_pos (by omega),
        Nat.mul_div_cancel_left _ (by decide), hid] at hbegins
      cases hbegins
  · have hslots : L.activeNote.length = maxActiveNotes := by
      rcases hbegan with ⟨-, M, hM, rfl⟩ | ⟨-, -, hL⟩
      · exact h.slots loopId M hM
      · exact h.slots loopId L hL
    obtain ⟨-, hposition, hlength, -, -⟩ := Loop.process_holding hslots hprocess
    refine ⟨hsequence.trans h.sequence, fun other M hM ↦ ?_, fun start id hlt hid hsame ↦ ?_⟩
    · rw [hloops] at hM
      split at hM
      · obtain rfl := Option.some.inj hM
        exact hlength
      · exact h.slots other M hM
    · rw [h.beginsAt] at hbegan
      rcases Nat.lt_or_ge (16 * start) tick with hlt' | hge
      · have hnone := beginsAt_eq_none hlt' fun line hl ht ↦ hsame line hl (by omega)
        obtain ⟨hcur, M, hM, hat⟩ :=
          h.current start id hlt' hid fun line hl ht ↦ hsame line hl (by omega)
        rcases hbegan with ⟨hsome, -⟩ | ⟨-, hcur', hL⟩
        · rw [hnone] at hsome
          cases hsome
        · obtain rfl : loopId = id := Option.some.inj (hcur'.symm.trans hcur)
          obtain rfl : L = M := Option.some.inj (hL.symm.trans hM)
          refine ⟨hcurrent, L', by rw [hloops, if_pos rfl], ?_⟩
          rw [hposition, hat]
          push_cast
          omega
      · obtain rfl : tick = 16 * start := by omega
        have hbegin : p.beginsAt (16 * start) = some id := by
          rw [LoopPlayer.beginsAt, if_pos (by omega), Nat.mul_div_cancel_left _ (by decide), hid]
        rcases hbegan with ⟨hsome, M, -, rfl⟩ | ⟨hnone, -⟩
        · obtain rfl : id = loopId := Option.some.inj (hbegin.symm.trans hsome)
          refine ⟨hcurrent, L', by rw [hloops, if_pos rfl], ?_⟩
          rw [hposition]
          show (0 : Int) + 1 = _
          push_cast
          omega
        · rw [hbegin] at hnone
          cases hnone

theorem playedTo {p : LoopPlayer} (hslots : p.Slots) {tick : Nat} {q : LoopPlayer}
    (h : p.played tick = some q) : p.PlayedTo tick q := by
  induction tick generalizing q with
  | zero =>
    obtain rfl := Option.some.inj h
    exact ⟨rfl, hslots, fun _ _ hlt ↦ absurd hlt (Nat.not_lt_zero _)⟩
  | succ tick ih =>
    simp only [played, Option.bind_eq_bind, Option.bind_eq_some_iff, Option.some.injEq] at h
    obtain ⟨q₀, hq₀, ⟨events, q₁⟩, ht, rfl⟩ := h
    exact (ih hq₀).tick ht

/-- Playback up to a tick has come through the ticks before it. -/
theorem queuedAt_of_played {p q : LoopPlayer} {tick u : Nat} (h : p.played tick = some q)
    (hlt : u < tick) : (p.queuedAt u).isSome := by
  induction tick generalizing q with
  | zero => omega
  | succ tick ih =>
    simp only [played, Option.bind_eq_bind, Option.bind_eq_some_iff, Option.some.injEq] at h
    obtain ⟨q₀, hq₀, ⟨events, q₁⟩, ht, rfl⟩ := h
    by_cases hu : u = tick
    · rw [hu, queuedAt, hq₀]
      simp only [Option.bind_eq_bind, Option.bind_some, ht, Option.isSome_some]
    · exact ih hq₀ (by omega)

theorem queuedAt_eq_some {p : LoopPlayer} {tick : Nat} {r : Option Nat × List LoopEvent}
    (h : p.queuedAt tick = some r) : ∃ q q', p.played tick = some q ∧
      q.tick (tick / 16 : Nat) (tick % 16 : Nat) false = some (r.2, q') ∧
        q'.currentLoop = r.1 ∧ p.played (tick + 1) = some q' := by
  simp only [queuedAt, Option.bind_eq_bind, Option.bind_eq_some_iff, Option.some.injEq] at h
  obtain ⟨q, hq, ⟨events, q'⟩, ht, rfl⟩ := h
  refine ⟨q, q', hq, ht, rfl, ?_⟩
  simp only [played, hq, Option.bind_eq_bind, Option.bind_some, ht]

/-- A tick in which no loop begins, while a note is held. -/
theorem held_tick {p : LoopPlayer} (hslots : p.Slots) {tick loopId k : Nat} {count : Int}
    {n : NoteEntry} {q : LoopPlayer} {L : Loop} {c : Option Nat} {events : List LoopEvent}
    (hq : p.played tick = some q) (hcurrent : q.currentLoop = some loopId)
    (hL : q.loop loopId = some L) (hk : L.Holding k n count) (hnone : p.beginsAt tick = none)
    (hr : p.queuedAt tick = some (c, events)) :
    c = some loopId ∧ (.noteOff n ∈ events ∨ 0 < count ∧ ∃ q' L', p.played (tick + 1) = some q' ∧
      q'.currentLoop = some loopId ∧ q'.loop loopId = some L' ∧ L'.Holding k n (count - 1)) := by
  obtain ⟨q₀, q', hq₀, ht, hc, hnext⟩ := queuedAt_eq_some hr
  obtain rfl : q = q₀ := Option.some.inj (hq.symm.trans hq₀)
  have hat := playedTo hslots hq
  rw [← hat.beginsAt] at hnone
  rcases tick_eq_some ht with ⟨-, hidle, -, -⟩ |
    ⟨id, M, M', hcurrent', -, hloops, hprocess, ⟨hsome, -⟩ | ⟨-, hcur, hM⟩⟩
  · rw [hcurrent] at hidle
    cases hidle
  · rw [hnone] at hsome
    cases hsome
  · obtain rfl : loopId = id := Option.some.inj (hcurrent.symm.trans hcur)
    obtain rfl : L = M := Option.some.inj (hL.symm.trans hM)
    refine ⟨hc.symm.trans hcurrent', ?_⟩
    obtain ⟨-, -, -, hheld, -⟩ := Loop.process_holding (hat.slots loopId L hL) hprocess
    refine (hheld k n count hk).imp_right ?_
    rintro ⟨hpos, hk'⟩
    exact ⟨hpos, q', M', hnext, hcurrent', by rw [hloops, if_pos rfl], hk'⟩

/-- A note that is held is ended before its count is over, as long as no loop begins. -/
theorem ends_within {p : LoopPlayer} (hslots : p.Slots) {tick count loopId k : Nat}
    {n : NoteEntry} {q : LoopPlayer} {L : Loop} (hq : p.played tick = some q)
    (hcurrent : q.currentLoop = some loopId) (hL : q.loop loopId = some L)
    (hk : L.Holding k n count) (hnone : ∀ d ≤ count, p.beginsAt (tick + d) = none)
    (hdefined : ∀ d ≤ count, (p.queuedAt (tick + d)).isSome) :
    ∃ d ≤ count, ∃ events, p.queuedAt (tick + d) = some (some loopId, events) ∧
      .noteOff n ∈ events := by
  induction count generalizing tick q L with
  | zero =>
    obtain ⟨⟨c, events⟩, hr⟩ := Option.isSome_iff_exists.mp (hdefined 0 le_rfl)
    obtain ⟨rfl, hoff | ⟨hpos, -⟩⟩ := held_tick hslots hq hcurrent hL hk (hnone 0 le_rfl) hr
    · exact ⟨0, le_rfl, events, hr, hoff⟩
    · exact absurd hpos (by decide)
  | succ count ih =>
    obtain ⟨⟨c, events⟩, hr⟩ := Option.isSome_iff_exists.mp (hdefined 0 (Nat.zero_le _))
    obtain ⟨rfl, hoff | ⟨-, q', L', hq', hcurrent', hL', hk'⟩⟩ :=
      held_tick hslots hq hcurrent hL hk (hnone 0 (Nat.zero_le _)) hr
    · exact ⟨0, Nat.zero_le _, events, hr, hoff⟩
    · have hcount : ((count + 1 : Nat) : Int) - 1 = count := by
        push_cast
        omega
      have hshift : ∀ d, tick + 1 + d = tick + (d + 1) := fun d ↦ by omega
      obtain ⟨d, hd, hends⟩ := ih hq' hcurrent' hL' (hcount ▸ hk')
        (fun d hd ↦ hshift d ▸ hnone (d + 1) (by omega))
        (fun d hd ↦ hshift d ▸ hdefined (d + 1) (by omega))
      exact ⟨d + 1, by omega, hshift d ▸ hends⟩

/-- Playback starts a note at a tick, and the next time that its loop stops it is `duration` ticks
later. -/
structure Sounds (p : LoopPlayer) (e : TrackNote) (tick duration : Nat) : Prop where
  starts : ∃ events, p.queuedAt tick = some (p.loopIdAt e.start, events) ∧ .noteOn e.entry ∈ events
  stops : ∃ events, p.queuedAt (tick + duration) = some (p.loopIdAt e.start, events) ∧
    .noteOff e.entry ∈ events
  next : ∀ d < duration, ∀ events,
    p.queuedAt (tick + d) = some (p.loopIdAt e.start, events) → .noteOff e.entry ∉ events

/-- A note that playback starts at a tick is at this time of its loop. It is stopped within its
length and one more tick, unless another loop begins before. -/
theorem stops_within {p : LoopPlayer} (hslots : p.Slots) {e : TrackNote} {tick start loopId : Nat}
    {events : List LoopEvent} (hid : p.loopIdAt start = some loopId) (hle : 16 * start ≤ tick)
    (hsame : ∀ line, start < line → 16 * line ≤ tick → p.loopIdAt line = none)
    (hr : p.queuedAt tick = some (some loopId, events)) (hon : .noteOn e.entry ∈ events) :
    e.entry.onAt = tick - 16 * start ∧ ∀ length : Nat, e.entry.length = length →
      (∀ line, start < line → 16 * line ≤ tick + length + 1 → p.loopIdAt line = none) →
      (∀ d ≤ length + 1, (p.queuedAt (tick + d)).isSome) →
        ∃ d ≤ length + 1, ∃ events, p.queuedAt (tick + d) = some (some loopId, events) ∧
          .noteOff e.entry ∈ events := by
  obtain ⟨q, q', hq, ht, hc, hnext⟩ := queuedAt_eq_some hr
  have hat := playedTo hslots hq
  have hafter := playedTo hslots hnext
  rcases tick_eq_some ht with ⟨-, -, hnil, -⟩ | ⟨id, L, L', hcurrent, -, hloops, hprocess, hbegan⟩
  · rw [show events = [] from hnil] at hon
    cases hon
  obtain rfl : id = loopId := Option.some.inj (hcurrent.symm.trans hc)
  have hL' : q'.loop id = some L' := by rw [hloops, if_pos rfl]
  obtain ⟨-, M, hM, hposition⟩ := hafter.current start id (by omega) hid
    fun line hlt htick ↦ hsame line hlt (by omega)
  obtain rfl : L' = M := Option.some.inj (hL'.symm.trans hM)
  have hL : L.activeNote.length = maxActiveNotes := by
    rcases hbegan with ⟨-, N, hN, rfl⟩ | ⟨-, -, hL⟩
    · exact hat.slots id N hN
    · exact hat.slots id L hL
  obtain ⟨-, hposition', -, -, hstarted⟩ := Loop.process_holding hL hprocess
  obtain ⟨honAt, hheld⟩ := hstarted e.entry hon
  refine ⟨?_, fun length hlength hcut hdefined ↦ ?_⟩
  · push_cast at hposition
    omega
  · rcases hheld with hoff | ⟨k, hk⟩
    · exact ⟨0, Nat.zero_le _, events, hr, hoff⟩
    · rw [hlength] at hk
      have hshift : ∀ d, tick + 1 + d = tick + (d + 1) := fun d ↦ by omega
      obtain ⟨d, hd, hends⟩ := ends_within hslots hnext hcurrent hL' hk
        (fun d hd ↦ @beginsAt_eq_none p start _ (by omega)
          fun line hlt htick ↦ hcut line hlt (by omega))
        (fun d hd ↦ hshift d ▸ hdefined (d + 1) (by omega))
      exact ⟨d + 1, by omega, hshift d ▸ hends⟩

end LoopPlayer

/-! ### Tracks and playback -/

namespace LoopPlayer

/-- The exported notes begin at the times at which playback starts them, and last as long. -/
def Agrees (p : LoopPlayer) : Prop :=
  ∃ x, p.exportNotes = some x ∧ ∀ t m, (t, m) ∈ times 0 x.written → m.on = true →
    ∃ duration m', (t + duration, m') ∈ times 0 x.written ∧ m'.on = false ∧ m'.note = m.note ∧
      p.Sounds m.note t duration

/-- The loop that is processed at a tick is the one that began last. -/
theorem queuedAt_current {p : LoopPlayer} (hslots : p.Slots) {tick last loopId : Nat}
    {c : Option Nat} {events : List LoopEvent} (hr : p.queuedAt tick = some (c, events))
    (hid : p.loopIdAt last = some loopId) (hle : 16 * last ≤ tick)
    (hlast : ∀ line, last < line → 16 * line ≤ tick → p.loopIdAt line = none) :
    c = some loopId := by
  obtain ⟨q, q', -, -, hc, hnext⟩ := queuedAt_eq_some hr
  obtain ⟨hcurrent, -⟩ := (playedTo hslots hnext).current last loopId (by omega) hid
    fun line hlt htick ↦ hlast line hlt (by omega)
  exact hc.symm.trans hcurrent

/-- The last loop that begins up to a tick. -/
theorem exists_last {p : LoopPlayer} {tick first : Nat} (hfirst : (p.loopIdAt first).isSome)
    (hle : 16 * first ≤ tick) : ∃ last loopId, first ≤ last ∧ 16 * last ≤ tick ∧
      p.loopIdAt last = some loopId ∧
        ∀ line, last < line → 16 * line ≤ tick → p.loopIdAt line = none := by
  have hbound : first ≤ tick / 16 := by omega
  have hspec :=
    Nat.findGreatest_spec (P := fun line ↦ (p.loopIdAt line).isSome = true) hbound hfirst
  have hge := Nat.le_findGreatest (P := fun line ↦ (p.loopIdAt line).isSome = true) hbound hfirst
  have hup := Nat.findGreatest_le (P := fun line ↦ (p.loopIdAt line).isSome = true) (tick / 16)
  obtain ⟨loopId, hid⟩ := Option.isSome_iff_exists.mp hspec
  refine ⟨_, loopId, hge, by omega, hid, fun line hlt htick ↦ ?_⟩
  have hno := Nat.findGreatest_is_greatest hlt (by omega)
  rwa [Option.not_isSome_iff_eq_none] at hno

/-- Where a track agrees with playback, every note of it is cut off by a loop that begins before the
note ends, and its own loop begins again. -/
theorem Agrees.cut {p : LoopPlayer} (hsorted : p.Sorted) (hslots : p.Slots) (h : p.Agrees)
    {e : TrackNote} {line : Nat} (hline : line < p.loopSequence.length)
    (hreaches : p.Reaches e line) (hlength : 0 ≤ e.entry.length) :
    16 ∣ e.entry.onAt ∧ ∃ cut again, e.start < cut ∧ cut ≤ again ∧ (p.loopIdAt cut).isSome ∧
      p.loopIdAt again = p.loopIdAt e.start ∧
      (16 * cut : Int) ≤ 16 * e.start + e.entry.onAt + e.entry.length + 1 ∧
        (16 * again : Int) ≤ 16 * e.start + e.entry.onAt + 16 * (e.entry.length + 1) := by
  obtain ⟨x, hx, hagrees⟩ := h
  obtain ⟨s, hwalk, hs, -⟩ :=
    (walk_new p).exportLines hsorted (by show (0 : Int) ≤ max _ (-1); omega) hx
  have htime := (⟨rfl, nofun, nofun⟩ : p.OnTime .new).exportLines hsorted (walk_new p) hx
  obtain ⟨m, hm, hnote, hon⟩ : ∃ m ∈ x.written, m.note = e ∧ m.on = true := by
    have hsome : true ∈ messagesOf e x.written := by
      obtain ⟨m, hm, hnote⟩ := hwalk.seen.complete e line (by omega) hreaches
      rcases hwalk.booked.known e with hnone | ⟨hone, -⟩ | htwo
      · exact absurd hnote (messagesOf_eq_nil_iff.mp hnone m hm)
      · rw [hone]
        exact List.mem_cons_self ..
      · rw [htwo]
        exact List.mem_cons_self ..
    obtain ⟨m, hm, hon⟩ := List.mem_map.mp hsome
    rw [List.mem_filter, decide_eq_true_eq] at hm
    exact ⟨m, hm.1, hm.2, hon⟩
  obtain ⟨t, ht⟩ := exists_mem_times (t := 0) hm
  obtain ⟨on, rfl, hreached⟩ := htime.ons t m ht hon
  obtain ⟨duration, m', hm', hoff, hsame, hsounds⟩ := hagrees _ m ht hon
  have hend := htime.offs _ m' hm' hoff
  rw [hnote] at hreached hsame hsounds
  rw [hsame] at hend
  obtain ⟨loopId, L, hid, -, -⟩ := hreached.holds
  have hbegun := hreached.begun
  obtain ⟨⟨events, hr, honEvent⟩, ⟨events', hr', -⟩, hnext⟩ := hsounds
  rw [hid] at hr hr' hnext
  obtain ⟨honAt, hstops⟩ := stops_within hslots hid (by omega)
    (fun q hlt hq ↦ hreached.same q hlt (by omega)) hr honEvent
  rw [TrackNote.off, padTimeLine_eq] at hend
  obtain ⟨length, hlen⟩ := Int.eq_ofNat_of_zero_le hlength
  have hduration : duration = 16 * (length + 1) := by
    push_cast at honAt hend
    omega
  have hdefined : ∀ d ≤ length + 1, (p.queuedAt (16 * on + d)).isSome := by
    obtain ⟨q, -, hq, -⟩ := queuedAt_eq_some hr'
    exact fun d hd ↦ queuedAt_of_played hq (by omega)
  obtain ⟨cut, hcut, hcutLe, hcutSome⟩ : ∃ cut, e.start < cut ∧ 16 * cut ≤ 16 * on + length + 1 ∧
      (p.loopIdAt cut).isSome := by
    by_contra hno
    have hnone : ∀ q, e.start < q → 16 * q ≤ 16 * on + length + 1 → p.loopIdAt q = none := by
      intro q hlt hq
      rw [← Option.not_isSome_iff_eq_none]
      exact fun hsome ↦ hno ⟨q, hlt, hq, hsome⟩
    obtain ⟨d, hd, events, hd', hoffEvent⟩ := hstops length hlen hnone hdefined
    exact hnext d (by omega) events hd' hoffEvent
  obtain ⟨again, id, hge, hagain, hidAgain, hlast⟩ :=
    @exists_last p (16 * on + duration) cut hcutSome (by omega)
  have hc := queuedAt_current hslots hr' hidAgain hagain hlast
  push_cast at honAt
  refine ⟨by omega, cut, again, hcut, hge, hcutSome, ?_, by omega, by omega⟩
  rw [hidAgain, hid, hc]

/-- No line of the sequence reaches a note. -/
def ReachesNone (p : LoopPlayer) : Prop := ∀ e, ∀ line < p.loopSequence.length, ¬ p.Reaches e line

theorem ReachesNone.stopsInside {p : LoopPlayer} (h : p.ReachesNone) : p.StopsInside :=
  fun e line hline hreaches ↦ absurd hreaches (h e line hline)

/-- Where no note is reached, a line writes nothing. -/
theorem ReachesNone.exportLine_isSome {p : LoopPlayer} (h : p.ReachesNone) (hsorted : p.Sorted)
    (hloops : ∀ s loopId, p.loopIdAt s = some loopId → (p.loop loopId).isSome) {s : Nat}
    {x : TrackExport} (hs : s < p.loopSequence.length) (hx : p.Walk s s x) :
    ∃ y, p.exportLine s x = some y := by
  obtain ⟨x₁, hx₁⟩ := enterLoop_isSome hloops s x
  have hwalk := hx.enterLoop hsorted hx₁
  have hstart : x₁.startNotes s x₁.ndata = some x₁ := by
    cases hdata : x₁.ndata with
    | nil => rfl
    | cons nk rest =>
      rw [TrackExport.startNotes, if_neg]
      intro hreached
      exact h _ s hs (hwalk.seen.reaches hwalk.waiting hdata hreached)
  have hchain : x₁.notesToOff s = [] := by
    rw [List.eq_nil_iff_forall_not_mem]
    intro e he
    obtain ⟨m, hm, -⟩ := hwalk.booked.written he
    obtain ⟨line, hline, hreaches⟩ := hwalk.seen.sound m hm
    exact h m.note line (by omega) hreaches
  refine ⟨{ x₁ with notesToOff := Function.update x₁.notesToOff s [], lP := x₁.lP + 1 }, ?_⟩
  simp only [LoopPlayer.exportLine, hx₁, hstart, hchain, TrackExport.stopNotes, Option.bind_eq_bind,
    Option.bind_some]

theorem ReachesNone.agrees {p : LoopPlayer} (h : p.ReachesNone) (hsorted : p.Sorted)
    (hloops : ∀ s loopId, p.loopIdAt s = some loopId → (p.loop loopId).isSome)
    (hint : p.loopSequence.length < 2 ^ 31) : p.Agrees := by
  have hsome : ∃ x, p.exportLines (2 ^ 31) 0 .new = some x :=
    (walk_new p).exportLines_isSome hsorted h.stopsInside
      (fun s x hs hx ↦ h.exportLine_isSome hsorted hloops hs hx) (Nat.zero_le _) (by omega)
  obtain ⟨x, hx⟩ := hsome
  obtain ⟨s, hwalk, -, hinside⟩ :=
    (walk_new p).exportLines hsorted (by show (0 : Int) ≤ max _ (-1); omega) hx
  have hle := hinside h.stopsInside (Nat.zero_le _)
  refine ⟨x, hx, fun t m hm hon ↦ ?_⟩
  obtain ⟨line, hline, hreaches⟩ := hwalk.seen.sound m (mem_of_mem_times hm)
  exact absurd hreaches (h m.note line (by omega))

/-- A sequence that reaches no note is exported as it is played. Where a track does agree with
playback, every note that is reached is cut off by a loop that begins before its end, and its own
loop begins again and counts on before the time at which the track stops it: a note that is not cut
off lasts 16 times too long in the track. -/
theorem export_agrees {p : LoopPlayer} (hsorted : p.Sorted) (hslots : p.Slots)
    (hlengths : ∀ loopId L, p.loop loopId = some L → ∀ n ∈ L.note, 0 ≤ n.length)
    (hloops : ∀ s loopId, p.loopIdAt s = some loopId → (p.loop loopId).isSome)
    (hint : p.loopSequence.length < 2 ^ 31) :
    (p.ReachesNone → p.Agrees) ∧
      (p.Agrees → ∀ e, ∀ line < p.loopSequence.length, p.Reaches e line →
        16 ∣ e.entry.onAt ∧ ∃ cut again, e.start < cut ∧ cut ≤ again ∧ (p.loopIdAt cut).isSome ∧
          p.loopIdAt again = p.loopIdAt e.start ∧
          (16 * cut : Int) ≤ 16 * e.start + e.entry.onAt + e.entry.length + 1 ∧
            (16 * again : Int) ≤ 16 * e.start + e.entry.onAt + 16 * (e.entry.length + 1)) := by
  refine ⟨fun h ↦ h.agrees hsorted hloops hint, fun h e line hline hreaches ↦ ?_⟩
  obtain ⟨loopId, L, -, hL, hentry⟩ := hreaches.holds
  exact h.cut hsorted hslots hline hreaches (hlengths loopId L hL _ (List.mem_of_getElem? hentry))

theorem slots_oneNote (length : Int) : (oneNote length).Slots := by
  intro loopId L hL
  cases loopId with
  | zero =>
    obtain rfl := Option.some.inj hL
    rfl
  | succ loopId => cases hL

theorem lengths_oneNote {length : Int} (h : 0 ≤ length) : ∀ loopId L,
    (oneNote length).loop loopId = some L → ∀ n ∈ L.note, 0 ≤ n.length :=
  fun loopId L hL n hn ↦ (sane_oneNote h loopId L hL n hn).2

/-- A sequence without loops. -/
def noLoops : LoopPlayer := ⟨[], List.replicate 16 none, none⟩

/-- A sequence without loops agrees; one whose only note lasts a tick does not. -/
theorem export_agrees_noLoops : noLoops.Agrees ∧ ¬ (oneNote 0).Agrees := by
  constructor
  · have hloop : ∀ loopId L, noLoops.loop loopId ≠ some L := fun _ _ h ↦ by cases h
    have hid : ∀ s loopId, noLoops.loopIdAt s ≠ some loopId := by
      intro s loopId
      simp only [loopIdAt, noLoops, List.getElem?_replicate]
      split <;> simp
    refine (export_agrees (fun loopId L hL ↦ absurd hL (hloop loopId L))
      (fun loopId L hL ↦ absurd hL (hloop loopId L)) (fun loopId L hL ↦ absurd hL (hloop loopId L))
      (fun s loopId h ↦ absurd h (hid s loopId)) (by decide)).1 ?_
    rintro e line - hreaches
    obtain ⟨loopId, L, h, -⟩ := hreaches.holds
    exact hid _ _ h
  · intro h
    have hreaches : (oneNote 0).Reaches ⟨0, 0, ⟨0, 127, 60, 0, 0⟩⟩ 0 :=
      ⟨⟨0, _, rfl, rfl, rfl⟩, le_rfl, fun q hlt hle ↦ absurd hlt (by omega), by decide⟩
    obtain ⟨-, cut, -, hcut, -, hsome, -⟩ := (export_agrees (sorted_oneNote 0) (slots_oneNote 0)
      (lengths_oneNote le_rfl) (loops_oneNote 0) (by decide)).2 h _ 0 (by decide) hreaches
    obtain ⟨loopId, hid⟩ := Option.isSome_iff_exists.mp hsome
    obtain ⟨rfl, -⟩ := loopIdAt_oneNote hid
    exact absurd hcut (Nat.lt_irrefl 0)

/-- A note of one tick lasts a line in the track. -/
theorem note_lasts_a_line : ¬ ∀ p : LoopPlayer, p.Sorted → p.Slots →
    (∀ loopId L, p.loop loopId = some L → ∀ n ∈ L.note, 0 ≤ n.length) →
    (∀ s loopId, p.loopIdAt s = some loopId → (p.loop loopId).isSome) →
      p.loopSequence.length < 2 ^ 31 → p.Agrees := by
  intro h
  obtain ⟨x, hx, hagrees⟩ := h (oneNote 0) (sorted_oneNote 0) (slots_oneNote 0)
    (lengths_oneNote le_rfl) (loops_oneNote 0) (by decide)
  have hwritten : (oneNote 0).exportNotes.map (·.written) =
      some [⟨true, 0, ⟨0, 0, ⟨0, 127, 60, 0, 0⟩⟩⟩, ⟨false, 16, ⟨0, 0, ⟨0, 127, 60, 0, 0⟩⟩⟩] := by
    decide +kernel
  rw [hx, Option.map_some, Option.some.injEq] at hwritten
  rw [hwritten] at hagrees
  obtain ⟨duration, m', hm', hoff, -, hsounds⟩ := hagrees 0 _ (List.mem_cons_self ..) rfl
  have hduration : duration = 16 := by
    simp only [times, List.mem_cons, Prod.mk.injEq, List.not_mem_nil, or_false] at hm'
    rcases hm' with ⟨-, rfl⟩ | ⟨hd, -⟩
    · cases hoff
    · omega
  have hsecond : (oneNote 0).queuedAt 1 = some (some 0, [.noteOff ⟨0, 127, 60, 0, 0⟩]) := by
    decide +kernel
  exact hsounds.next 1 (by omega) _ hsecond (List.mem_singleton_self _)

end LoopPlayer

end Vuknob
