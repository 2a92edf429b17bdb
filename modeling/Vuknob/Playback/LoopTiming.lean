import Vuknob.Library.Timetable
import Vuknob.Playback.LoopExport

/-!
# The ticks at which a loop plays

`MachineSequencer::Loop::process`, `src_jni/machine_sequencer.cc:194–226`, call by call: the notes
of a sorted list are started in the call with their number and ended in the call with the number of
their end, where there is a slot for each of them.
-/

namespace Vuknob

open Library

namespace NoteEntry

/-- The call after the one in which the count of the note is zero, if the first call is number 0. -/
def endsAt (n : NoteEntry) : Int := n.onAt + n.length + 1

/-- The note needs a slot in a call: it has started then, and it is ended in that call or later. -/
def activeAt (t : Nat) (n : NoteEntry) : Bool := n.onAt ≤ t && t ≤ n.endsAt

end NoteEntry

/-- What the notes of a list have to do with a call: its note-ons, and its note-offs. -/
def eventsAt (notes : List NoteEntry) (t : Nat) : List LoopEvent :=
  (notes.filter fun n ↦ n.onAt = (t : Int)).map .noteOn ++
    (notes.filter fun n ↦ n.endsAt = (t : Int)).map .noteOff

namespace Loop

/-! ### Slots -/

/-- The notes in the slots. -/
def inSlots (L : Loop) : List Nat := L.activeNote.filterMap id

theorem mem_inSlots {L : Loop} {k : Nat} : k ∈ L.inSlots ↔ L.Sounding k := by
  simp [inSlots, Sounding]

theorem Tidy.nodup_inSlots {L : Loop} (h : L.Tidy) : L.inSlots.Nodup := by
  refine List.pairwise_filterMap.mpr (List.pairwise_iff_getElem.mpr ?_)
  rintro x y hx hy hlt k hk k' hk' rfl
  have heq := h.once x y k (List.getElem?_eq_some_iff.mpr ⟨hx, hk⟩)
    (List.getElem?_eq_some_iff.mpr ⟨hy, hk'⟩)
  omega

/-- A slot is free, or there is a note in it. -/
theorem Tidy.count_none {L : Loop} (h : L.Tidy) :
    L.activeNote.count none + L.inSlots.length = maxActiveNotes := by
  rw [← h.slots, inSlots]
  generalize L.activeNote = slots
  induction slots with
  | nil => rfl
  | cons slot slots ih =>
    cases slot with
    | none =>
      rw [List.count_cons_self, List.filterMap_cons_none rfl, List.length_cons]
      omega
    | some k =>
      have hcons : (some k :: slots).filterMap id = k :: slots.filterMap id := rfl
      rw [List.count_cons_of_ne (Option.some_ne_none k), hcons, List.length_cons, List.length_cons]
      omega

/-! ### Starting notes -/

/-- The notes `due` have been started, which stand from the cursor on. -/
structure Begun (due : List NoteEntry) (L L' : Loop) : Prop where
  tidy : L'.Tidy
  note : L'.note = L.note
  loopPosition : L'.loopPosition = L.loopPosition
  nextNoteToPlay : L'.nextNoteToPlay = L.nextNoteToPlay + due.length
  sounding : ∀ k, L'.Sounding k ↔
    L.Sounding k ∨ L.nextNoteToPlay ≤ k ∧ k < L.nextNoteToPlay + due.length
  before : ∀ k, k < L.nextNoteToPlay → L'.ticks2off k = L.ticks2off k
  started : ∀ k n, L.nextNoteToPlay ≤ k → k < L.nextNoteToPlay + due.length →
    L.note[k]? = some n → L'.ticks2off k = n.length + 1

theorem Begun.nil {L : Loop} (h : L.Tidy) : Begun [] L L where
  tidy := h
  note := rfl
  loopPosition := rfl
  nextNoteToPlay := rfl
  sounding k := by
    rw [List.length_nil]
    exact ⟨.inl, fun hk ↦ hk.resolve_right (by omega)⟩
  before _ _ := rfl
  started k n hle hlt := by
    rw [List.length_nil] at hlt
    omega

theorem Begun.trans {n : NoteEntry} {due : List NoteEntry} {L L₁ L₂ : Loop}
    (h₁ : Begun [n] L L₁) (h₂ : Begun due L₁ L₂) : Begun (n :: due) L L₂ := by
  have hnext : L₁.nextNoteToPlay = L.nextNoteToPlay + 1 := h₁.nextNoteToPlay
  have hone : [n].length = 1 := rfl
  refine ⟨h₂.tidy, h₂.note.trans h₁.note, h₂.loopPosition.trans h₁.loopPosition, ?_, ?_, ?_, ?_⟩
  · rw [h₂.nextNoteToPlay, hnext, List.length_cons]
    omega
  · intro k
    rw [h₂.sounding, h₁.sounding, hnext, hone, List.length_cons, or_assoc]
    refine or_congr_right ?_
    omega
  · intro k hk
    rw [h₂.before k (by omega), h₁.before k hk]
  · intro k m hle hlt hm
    rw [List.length_cons] at hlt
    by_cases hfirst : k = L.nextNoteToPlay
    · rw [h₂.before k (by omega), h₁.started k m hle (by omega) hm]
    · exact h₂.started k m (by omega) (by omega) (h₁.note ▸ hm)

/-- A note finds a free slot. -/
theorem startNote_free {L : Loop} {n : NoteEntry} (h : L.Tidy)
    (hn : L.note[L.nextNoteToPlay]? = some n) (hlength : 0 ≤ n.length)
    (hbefore : ∀ k, L.Sounding k → k < L.nextNoteToPlay) (hfree : 0 < L.activeNote.count none) :
    if n.length + 1 < 2 ^ 31 then
      ∃ L', L.startNote true n = some ([.noteOn n], L') ∧ Begun [n] L L' ∧
        L'.activeNote.count none + 1 = L.activeNote.count none
    else L.startNote true n = none := by
  have hfresh : ¬L.Sounding L.nextNoteToPlay := fun hk ↦ Nat.lt_irrefl _ (hbefore _ hk)
  rcases activateNote_cases L L.nextNoteToPlay with ⟨x, hx, hact⟩ | ⟨hfull, -⟩
  · have hstart := h.activate hx hfresh hn (by omega)
    simp only [startNote, hact]
    split
    · next hfits =>
      rw [int_of_fits ⟨by omega, hfits⟩]
      refine ⟨_, rfl, ⟨hstart.tidy, rfl, rfl, rfl, fun k ↦ ?_, fun k hk ↦ ?_, ?_⟩,
        count_none_set _ hx⟩
      · constructor
        · intro hk
          rcases List.mem_or_eq_of_mem_set hk with hk | hk
          · exact .inl hk
          · obtain rfl := Option.some.inj hk
            exact .inr ⟨Nat.le_refl _, Nat.lt_succ_self _⟩
        · rintro (hk | ⟨hle, hlt⟩)
          · exact (hstart.others k hk).1
          · obtain rfl : k = L.nextNoteToPlay := by
              rw [List.length_singleton] at hlt
              omega
            exact (hstart.started _ (List.mem_singleton_self _)).1
      · exact Function.update_of_ne (Nat.ne_of_lt hk) _ _
      · intro k m hle hlt hm
        obtain rfl : k = L.nextNoteToPlay := by
          rw [List.length_singleton] at hlt
          omega
        exact ((hstart.started _ (List.mem_singleton_self _)).2 m hm).2
    · next hlarge =>
      rw [int, if_neg (by omega)]
      rfl
  · omega

/-- The notes that are due are started, where there are slots for all of them and no length is too
large. -/
theorem startNotes_due {L : Loop} {due later : List NoteEntry} (h : L.Tidy)
    (hrest : L.note.drop L.nextNoteToPlay = due ++ later)
    (hdue : ∀ n ∈ due, n.onAt = L.loopPosition ∧ 0 ≤ n.length)
    (hlater : ∀ n ∈ later, n.onAt ≠ L.loopPosition)
    (hbefore : ∀ k, L.Sounding k → k < L.nextNoteToPlay)
    (hfree : due.length ≤ L.activeNote.count none) :
    if ∀ n ∈ due, n.length + 1 < 2 ^ 31 then
      ∃ L', startNotes true (due ++ later) L = some (due.map .noteOn, L') ∧ Begun due L L'
    else startNotes true (due ++ later) L = none := by
  induction due generalizing L with
  | nil =>
    rw [if_pos nofun]
    refine ⟨L, ?_, .nil h⟩
    cases later with
    | nil => rfl
    | cons n later => exact if_neg (hlater n List.mem_cons_self)
  | cons n due ih =>
    obtain ⟨hon, hlength⟩ := hdue n List.mem_cons_self
    have hn : L.note[L.nextNoteToPlay]? = some n := by
      rw [← List.head?_drop, hrest]
      rfl
    rw [List.length_cons] at hfree
    have hfirst := startNote_free h hn hlength hbefore (by omega)
    rw [List.cons_append, startNotes, if_pos hon]
    by_cases hfits : n.length + 1 < 2 ^ 31
    · rw [if_pos hfits] at hfirst
      obtain ⟨L₁, hstart, hbegun, hcount⟩ := hfirst
      have hnext : L₁.nextNoteToPlay = L.nextNoteToPlay + 1 := hbegun.nextNoteToPlay
      have hrest₁ : L₁.note.drop L₁.nextNoteToPlay = due ++ later := by
        rw [hbegun.note, hnext, ← List.drop_drop, hrest]
        rfl
      have hbefore₁ : ∀ k, L₁.Sounding k → k < L₁.nextNoteToPlay := by
        intro k hk
        rcases (hbegun.sounding k).mp hk with hk | ⟨-, hlt⟩
        · have := hbefore k hk
          omega
        · rw [List.length_singleton] at hlt
          omega
      have hgo := ih hbegun.tidy hrest₁
        (fun m hm ↦ hbegun.loopPosition ▸ hdue m (List.mem_cons_of_mem n hm))
        (fun m hm ↦ hbegun.loopPosition ▸ hlater m hm) hbefore₁ (by omega)
      rw [hstart]
      have hall : (∀ m ∈ n :: due, m.length + 1 < 2 ^ 31) ↔ ∀ m ∈ due, m.length + 1 < 2 ^ 31 := by
        rw [List.forall_mem_cons, and_iff_right hfits]
      rw [if_congr hall rfl rfl]
      split at hgo
      · next hothers =>
        obtain ⟨L₂, hstarts, hbegun₂⟩ := hgo
        rw [if_pos hothers]
        refine ⟨L₂, ?_, hbegun.trans hbegun₂⟩
        simp only [Option.bind_eq_bind, Option.bind_some, hstarts]
        rfl
      · next hothers =>
        rw [if_neg hothers]
        simp only [Option.bind_eq_bind, Option.bind_some, hgo, Option.bind_none]
    · rw [if_neg hfits] at hfirst
      rw [if_neg fun hall ↦ hfits (hall n List.mem_cons_self), hfirst]
      rfl

/-! ### Ending notes -/

/-- Rounds of `process_note_off` for some slots have ended the notes `ended`, whose count was up. -/
structure Over (slots ended : List Nat) (L L' : Loop) (events : List LoopEvent) : Prop where
  nodup : ended.Nodup
  events : events = (ended.filterMap fun k ↦ L.note[k]?).map .noteOff
  mem : ∀ k, k ∈ ended ↔ ∃ x ∈ slots, L.activeNote[x]? = some (some k) ∧ L.ticks2off k ≤ 0
  sounding : ∀ k, L'.Sounding k ↔ L.Sounding k ∧ k ∉ ended
  others : ∀ y, y ∉ slots → ∀ k, L'.activeNote[y]? = some (some k) ∧ L'.ticks2off k ≤ 0 ↔
    L.activeNote[y]? = some (some k) ∧ L.ticks2off k ≤ 0
  note : L'.note = L.note
  nextNoteToPlay : L'.nextNoteToPlay = L.nextNoteToPlay
  loopPosition : L'.loopPosition = L.loopPosition

theorem Over.nil (L : Loop) : Over [] [] L L [] :=
  ⟨.nil, rfl, fun k ↦ by simp, fun k ↦ by simp, fun _ _ _ ↦ Iff.rfl, rfl, rfl, rfl⟩

/-- One round. -/
theorem Over.endNote {L : Loop} (h : L.Tidy) (x : Nat) :
    ∃ ended, Over [x] ended L (L.endNote x).2 (L.endNote x).1 := by
  rcases endNote_cases h x with ⟨k, hx, hpos, heq⟩ | ⟨k, hx, hle, heq⟩ | ⟨hno, heq⟩
  · rw [heq]
    have hslot : ∀ j, L.activeNote[x]? = some (some j) → j = k :=
      fun j hj ↦ Option.some.inj (Option.some.inj (hj.symm.trans hx))
    refine ⟨[], .nil, rfl, fun j ↦ ?_, fun j ↦ by simp [Sounding], fun y hy j ↦ ?_, rfl, rfl, rfl⟩
    · refine iff_of_false List.not_mem_nil ?_
      rintro ⟨y, hy, hj, hle⟩
      rw [List.mem_singleton.mp hy] at hj
      rw [hslot j hj] at hle
      omega
    · refine and_congr_right fun hj ↦ ?_
      have hne : j ≠ k := by
        rintro rfl
        exact hy (List.mem_singleton.mpr (h.once y x j hj hx))
      simp only [Function.update_of_ne hne]
  · rw [heq]
    have hset : ∀ y j : Nat, (L.activeNote.set x none)[y]? = some (some j) ↔
        y ≠ x ∧ L.activeNote[y]? = some (some j) := by
      intro y j
      rw [List.getElem?_set]
      split
      · next hxy =>
        refine iff_of_false ?_ fun hall ↦ hall.1 hxy.symm
        split <;> simp
      · next hxy => exact (and_iff_right fun he ↦ hxy he.symm).symm
    refine ⟨[k], List.nodup_singleton k, ?_, fun j ↦ ?_, fun j ↦ ?_, fun y hy j ↦ ?_, rfl, rfl, rfl⟩
    · cases hn : L.note[k]? <;> simp [hn]
    · rw [List.mem_singleton]
      constructor
      · rintro rfl
        exact ⟨x, List.mem_singleton_self x, hx, hle⟩
      · rintro ⟨y, hy, hj, -⟩
        rw [List.mem_singleton.mp hy] at hj
        exact Option.some.inj (Option.some.inj (hj.symm.trans hx))
    · rw [sounding_iff, sounding_iff, List.mem_singleton]
      constructor
      · rintro ⟨y, hy⟩
        obtain ⟨hne, hy⟩ := (hset y j).mp hy
        exact ⟨⟨y, hy⟩, fun he ↦ hne (h.once y x j hy (he ▸ hx))⟩
      · rintro ⟨⟨y, hy⟩, hne⟩
        refine ⟨y, (hset y j).mpr ⟨?_, hy⟩⟩
        rintro rfl
        exact hne (Option.some.inj (Option.some.inj (hy.symm.trans hx)))
    · refine and_congr_left fun _ ↦ (hset y j).trans (and_iff_right ?_)
      exact fun he ↦ hy (List.mem_singleton.mpr he)
  · rw [heq]
    refine ⟨[], .nil, rfl, fun j ↦ ?_, fun j ↦ by simp, fun _ _ _ ↦ Iff.rfl, rfl, rfl, rfl⟩
    refine iff_of_false List.not_mem_nil ?_
    rintro ⟨y, hy, hj, -⟩
    exact hno j (List.mem_singleton.mp hy ▸ hj)

theorem Over.trans {x : Nat} {slots ended₁ ended₂ : List Nat} {L L₁ L₂ : Loop}
    {events₁ events₂ : List LoopEvent} (h : L.Tidy) (hx : x ∉ slots)
    (h₁ : Over [x] ended₁ L L₁ events₁) (h₂ : Over slots ended₂ L₁ L₂ events₂) :
    Over (x :: slots) (ended₁ ++ ended₂) L L₂ (events₁ ++ events₂) := by
  have hother : ∀ y ∈ slots, y ∉ [x] := by
    intro y hy he
    exact hx (List.mem_singleton.mp he ▸ hy)
  have hmem₂ : ∀ k, k ∈ ended₂ ↔
      ∃ y ∈ slots, L.activeNote[y]? = some (some k) ∧ L.ticks2off k ≤ 0 := by
    intro k
    rw [h₂.mem]
    refine exists_congr fun y ↦ and_congr_right fun hy ↦ ?_
    exact h₁.others y (hother y hy) k
  refine ⟨?_, ?_, fun k ↦ ?_, fun k ↦ ?_, fun y hy k ↦ ?_, h₂.note.trans h₁.note,
    h₂.nextNoteToPlay.trans h₁.nextNoteToPlay, h₂.loopPosition.trans h₁.loopPosition⟩
  · refine List.nodup_append.mpr ⟨h₁.nodup, h₂.nodup, ?_⟩
    rintro k hk k' hk' rfl
    obtain ⟨y, hy, hslot, -⟩ := (h₁.mem k).mp hk
    obtain ⟨y', hy', hslot', -⟩ := (hmem₂ k).mp hk'
    obtain rfl := h.once y y' k hslot hslot'
    exact hother y hy' hy
  · rw [h₁.events, h₂.events, h₁.note, List.filterMap_append, List.map_append]
  · rw [List.mem_append, h₁.mem, hmem₂]
    simp only [List.mem_cons, List.not_mem_nil, or_false, or_and_right, exists_or]
  · rw [h₂.sounding, h₁.sounding, List.mem_append, not_or, and_assoc]
  · rw [List.mem_cons, not_or] at hy
    exact (h₂.others y hy.2 k).trans (h₁.others y (fun he ↦ hy.1 (List.mem_singleton.mp he)) k)

theorem Over.endNotes {slots : List Nat} {L : Loop} (h : L.Tidy) (hnodup : slots.Nodup) :
    ∃ ended, Over slots ended L (L.endNotes slots).2 (L.endNotes slots).1 := by
  induction slots generalizing L with
  | nil => exact ⟨[], .nil L⟩
  | cons x slots ih =>
    obtain ⟨hx, hnodup⟩ := List.nodup_cons.mp hnodup
    obtain ⟨ended₁, hfirst⟩ := Over.endNote h x
    obtain ⟨ended₂, hrest⟩ := ih (Ended.endNote h x).tidy hnodup
    rw [endNotes_cons]
    exact ⟨ended₁ ++ ended₂, hfirst.trans h hx hrest⟩

/-- `process_note_off` ends exactly the notes whose count is up. -/
theorem processNoteOff_over {L : Loop} (h : L.Tidy) : ∃ ended : List Nat, ended.Nodup ∧
    L.processNoteOff.1 = (ended.filterMap fun k ↦ L.note[k]?).map .noteOff ∧
    (∀ k, k ∈ ended ↔ L.Sounding k ∧ L.ticks2off k ≤ 0) ∧
    (∀ k, L.processNoteOff.2.Sounding k ↔ L.Sounding k ∧ 0 < L.ticks2off k) ∧
    L.processNoteOff.2.nextNoteToPlay = L.nextNoteToPlay ∧
    L.processNoteOff.2.loopPosition = L.loopPosition := by
  have hslots : (List.range maxActiveNotes).Nodup := List.nodup_range
  obtain ⟨ended, hover⟩ := Over.endNotes h hslots
  rw [← processNoteOff] at hover
  have hmem : ∀ k, k ∈ ended ↔ L.Sounding k ∧ L.ticks2off k ≤ 0 := by
    intro k
    rw [hover.mem, sounding_iff]
    constructor
    · rintro ⟨x, -, hx, hle⟩
      exact ⟨⟨x, hx⟩, hle⟩
    · rintro ⟨⟨x, hx⟩, hle⟩
      refine ⟨x, mem_range_maxActiveNotes ?_, hx, hle⟩
      rw [← h.slots]
      exact (List.getElem?_eq_some_iff.mp hx).1
  refine ⟨ended, hover.nodup, hover.events, hmem, fun k ↦ ?_, hover.nextNoteToPlay,
    hover.loopPosition⟩
  refine (hover.sounding k).trans (and_congr_right fun hk ↦ ?_)
  rw [hmem, not_and]
  exact ⟨fun hnot ↦ Int.not_le.mp (hnot hk), fun hpos _ ↦ Int.not_le.mpr hpos⟩

/-! ### Calls -/

/-- The loop before call `t`: the cursor stands behind the notes that have begun, and those that
have not ended are in the slots, counted down to this call. -/
structure OnTime (notes : List NoteEntry) (t : Nat) (L : Loop) : Prop where
  tidy : L.Tidy
  note : L.note = notes
  loopPosition : L.loopPosition = t
  past : ∀ k n, notes[k]? = some n → (k < L.nextNoteToPlay ↔ n.onAt < (t : Int))
  ahead : notes.drop L.nextNoteToPlay = leftAt NoteEntry.onAt notes t
  sounding : ∀ k, L.Sounding k ↔ ∃ n, notes[k]? = some n ∧ n.onAt < (t : Int) ∧ (t : Int) ≤ n.endsAt
  counted : ∀ k n, L.Sounding k → notes[k]? = some n → L.ticks2off k = n.endsAt - t

/-- The notes of a sorted list, with no negative times. -/
structure InOrder (notes : List NoteEntry) : Prop where
  sorted : notes.Pairwise fun a b ↦ a.onAt ≤ b.onAt
  nonneg : ∀ n ∈ notes, 0 ≤ n.onAt ∧ 0 ≤ n.length

theorem InOrder.leftAt_eq {notes : List NoteEntry} (h : InOrder notes) (t : Nat) :
    leftAt NoteEntry.onAt notes t = notes.filter fun n ↦ (t : Int) ≤ n.onAt :=
  leftAt_eq_filter h.sorted (fun n hn ↦ (h.nonneg n hn).1) t

theorem InOrder.takenAt_eq {notes : List NoteEntry} (h : InOrder notes) (t : Nat) :
    takenAt NoteEntry.onAt notes t = notes.filter fun n ↦ n.onAt = (t : Int) :=
  takenAt_eq_filter h.sorted (fun n hn ↦ (h.nonneg n hn).1) t

/-- The slots that are free suffice for the notes that begin. -/
theorem OnTime.free {notes : List NoteEntry} {t : Nat} {L : Loop} (h : OnTime notes t L)
    (hnotes : InOrder notes)
    (hactive : (notes.filter (NoteEntry.activeAt t)).length ≤ maxActiveNotes) :
    (takenAt NoteEntry.onAt notes t).length ≤ L.activeNote.count none := by
  have hcount := h.tidy.count_none
  have hinSlots := (perm_filter_of_places (l := notes)
    (fun n ↦ n.onAt < (t : Int) && (t : Int) ≤ n.endsAt) h.tidy.nodup_inSlots fun k ↦ by
      rw [mem_inSlots, h.sounding]
      simp only [Bool.and_eq_true, decide_eq_true_eq]).1
  have hsplit : (notes.filter (NoteEntry.activeAt t)).length =
      (notes.filter fun n ↦ n.onAt < (t : Int) && (t : Int) ≤ n.endsAt).length +
        (notes.filter fun n ↦ n.onAt = (t : Int)).length := by
    have hperm := List.filter_append_perm (fun n ↦ decide (n.onAt = (t : Int)))
      (notes.filter (NoteEntry.activeAt t))
    have hnow : ∀ n ∈ notes, (decide (n.onAt = (t : Int)) && n.activeAt t) =
        decide (n.onAt = (t : Int)) := by
      intro n hn
      have hlength := (hnotes.nonneg n hn).2
      rw [Bool.and_eq_left_iff_imp, decide_eq_true_eq, NoteEntry.activeAt, NoteEntry.endsAt,
        Bool.and_eq_true, decide_eq_true_eq, decide_eq_true_eq]
      omega
    have hbefore : ∀ n ∈ notes, (!decide (n.onAt = (t : Int)) && n.activeAt t) =
        (decide (n.onAt < (t : Int)) && decide ((t : Int) ≤ n.endsAt)) := by
      intro n _
      rw [NoteEntry.activeAt, ← Bool.and_assoc]
      congr 1
      grind
    rw [List.filter_filter, List.filter_filter, List.filter_congr hnow,
      List.filter_congr hbefore] at hperm
    rw [← hperm.length_eq, List.length_append, Nat.add_comm]
  rw [hnotes.takenAt_eq]
  omega

/-- The loop in call `t`, between `process_note_on` and `process_note_off`: the notes that begin are
in the slots too. -/
structure Between (notes : List NoteEntry) (t : Nat) (L : Loop) : Prop where
  tidy : L.Tidy
  note : L.note = notes
  loopPosition : L.loopPosition = t
  past : ∀ k n, notes[k]? = some n → (k < L.nextNoteToPlay ↔ n.onAt < (t : Int) + 1)
  ahead : notes.drop L.nextNoteToPlay = leftAt NoteEntry.onAt notes (t + 1)
  sounding : ∀ k, L.Sounding k ↔
    ∃ n, notes[k]? = some n ∧ n.onAt < (t : Int) + 1 ∧ (t : Int) ≤ n.endsAt
  counted : ∀ k n, L.Sounding k → notes[k]? = some n → L.ticks2off k = n.endsAt - t

theorem OnTime.begun {notes : List NoteEntry} {t : Nat} {L L' : Loop} (h : OnTime notes t L)
    (hnotes : InOrder notes) (hbegun : Begun (takenAt NoteEntry.onAt notes t) L L') :
    Between notes t L' := by
  have hparts : notes.drop L.nextNoteToPlay =
      takenAt NoteEntry.onAt notes t ++ leftAt NoteEntry.onAt notes (t + 1) := by
    rw [h.ahead]
    exact List.takeWhile_append_dropWhile.symm
  have hnext := hbegun.nextNoteToPlay
  generalize hdue : takenAt NoteEntry.onAt notes t = due at hbegun hparts hnext
  have hahead : notes.drop L'.nextNoteToPlay = leftAt NoteEntry.onAt notes (t + 1) := by
    rw [hnext, ← List.drop_drop, hparts, List.drop_left]
  have hpast : ∀ k n, notes[k]? = some n → (k < L'.nextNoteToPlay ↔ n.onAt < (t : Int) + 1) := by
    intro k n hn
    have hold := h.past k n hn
    by_cases hk : k < L.nextNoteToPlay
    · have := hold.mp hk
      exact iff_of_true (by omega) (by omega)
    · have hplace : notes[k]? = (notes.drop L.nextNoteToPlay)[k - L.nextNoteToPlay]? := by
        rw [List.getElem?_drop]
        congr 1
        omega
      rw [hplace, hparts] at hn
      by_cases hlt : k - L.nextNoteToPlay < due.length
      · rw [List.getElem?_append_left hlt] at hn
        have htime := time_of_mem_takenAt (hdue ▸ List.mem_of_getElem? hn)
        exact iff_of_true (by omega) (by omega)
      · rw [List.getElem?_append_right (by omega)] at hn
        have hlater := List.mem_of_getElem? hn
        rw [hnotes.leftAt_eq, List.mem_filter, decide_eq_true_eq] at hlater
        have := hlater.2
        exact iff_of_false (by omega) (by omega)
  have hlength : L'.nextNoteToPlay ≤ notes.length ∨ due.length = 0 := by
    have := congrArg List.length hparts
    rw [List.length_drop, List.length_append] at this
    omega
  refine ⟨hbegun.tidy, hbegun.note.trans h.note, hbegun.loopPosition.trans h.loopPosition, hpast,
    hahead, fun k ↦ ?_, fun k n hk hn ↦ ?_⟩
  · rw [hbegun.sounding, h.sounding]
    constructor
    · rintro (⟨n, hn, hon, hend⟩ | ⟨hle, hlt⟩)
      · exact ⟨n, hn, by omega, hend⟩
      · have hk : k < notes.length := by omega
        have hn := List.getElem?_eq_getElem hk
        have hon := (hpast k _ hn).mp (by omega)
        have hlate := mt (h.past k _ hn).mpr (by omega)
        have hpos := (hnotes.nonneg _ (List.getElem_mem hk)).2
        refine ⟨_, hn, hon, ?_⟩
        rw [NoteEntry.endsAt]
        omega
    · rintro ⟨n, hn, hon, hend⟩
      by_cases hbefore : n.onAt < (t : Int)
      · exact .inl ⟨n, hn, hbefore, hend⟩
      · have hlt := (hpast k n hn).mpr hon
        have hle := mt (h.past k n hn).mp hbefore
        exact .inr ⟨by omega, by omega⟩
  · rcases (hbegun.sounding k).mp hk with hold | ⟨hle, hlt⟩
    · obtain ⟨m, hm, hon, -⟩ := (h.sounding k).mp hold
      rw [hbegun.before k ((h.past k m hm).mpr hon), h.counted k n hold hn]
    · have hon := (hpast k n hn).mp (by omega)
      have hlate := mt (h.past k n hn).mpr (by omega)
      rw [hbegun.started k n hle hlt (h.note ▸ hn), NoteEntry.endsAt]
      omega

/-- `process_note_off` in call `t`. -/
theorem Between.processNoteOff {notes : List NoteEntry} {t : Nat} {L : Loop}
    (h : Between notes t L) (hnotes : InOrder notes) :
    L.processNoteOff.1.Perm ((notes.filter fun n ↦ n.endsAt = (t : Int)).map .noteOff) ∧
      L.processNoteOff.2.loopPosition = t ∧
      OnTime notes (t + 1) { L.processNoteOff.2 with loopPosition := (t : Int) + 1 } := by
  obtain ⟨htidy, hnote, -, hcount⟩ := processNoteOff_spec h.tidy
  obtain ⟨ended, hnodup, hevents, hmem, hsounding, hnext, hposition⟩ := processNoteOff_over h.tidy
  generalize L.processNoteOff = after at *
  obtain ⟨events, L'⟩ := after
  dsimp only at *
  have hplaces : ∀ k, k ∈ ended ↔
      ∃ n, notes[k]? = some n ∧ decide (n.endsAt = (t : Int)) = true := by
    intro k
    rw [hmem]
    constructor
    · rintro ⟨hk, hle⟩
      obtain ⟨n, hn, -, hend⟩ := (h.sounding k).mp hk
      have := h.counted k n hk hn
      exact ⟨n, hn, decide_eq_true (by omega)⟩
    · rintro ⟨n, hn, hend⟩
      have hend := of_decide_eq_true hend
      have hpos := (hnotes.nonneg n (List.mem_of_getElem? hn)).2
      have hon : n.onAt < (t : Int) + 1 := by
        rw [NoteEntry.endsAt] at hend
        omega
      have hk := (h.sounding k).mpr ⟨n, hn, hon, by omega⟩
      have := h.counted k n hk hn
      exact ⟨hk, by omega⟩
  refine ⟨?_, hposition.trans h.loopPosition, ⟨htidy.slots, htidy.once, htidy.counting⟩,
    hnote.trans h.note, rfl, ?_, ?_, fun k ↦ ?_, fun k n hk hn ↦ ?_⟩
  · rw [hevents, h.note]
    exact (perm_filter_of_places _ hnodup hplaces).2.map _
  · intro k n hn
    rw [Int.natCast_succ]
    exact hnext ▸ h.past k n hn
  · exact hnext ▸ h.ahead
  · refine (hsounding k).trans ?_
    rw [h.sounding]
    constructor
    · rintro ⟨⟨n, hn, hon, hend⟩, hpos⟩
      have := h.counted k n ((h.sounding k).mpr ⟨n, hn, hon, hend⟩) hn
      exact ⟨n, hn, by omega, by omega⟩
    · rintro ⟨n, hn, hon, hend⟩
      have hthere : ∃ n, notes[k]? = some n ∧ n.onAt < (t : Int) + 1 ∧ (t : Int) ≤ n.endsAt :=
        ⟨n, hn, by omega, by omega⟩
      have := h.counted k n ((h.sounding k).mpr hthere) hn
      exact ⟨hthere, by omega⟩
  · obtain ⟨hk, hpos⟩ := (hsounding k).mp hk
    have hcounted := h.counted k n hk hn
    have := ((hcount k n hk (h.note ▸ hn)).1 hpos).2
    show L'.ticks2off k = _
    omega

/-- One call plays what is due in it, unless a length or the position grows too large. -/
theorem OnTime.process {notes : List NoteEntry} {t : Nat} {L : Loop} (h : OnTime notes t L)
    (hnotes : InOrder notes)
    (hactive : (notes.filter (NoteEntry.activeAt t)).length ≤ maxActiveNotes) :
    if (∀ n ∈ notes, n.onAt = (t : Int) → n.length + 1 < 2 ^ 31) ∧ (t : Int) + 1 < 2 ^ 31 then
      ∃ events L', L.process true = some (events, L') ∧ events.Perm (eventsAt notes t) ∧
        OnTime notes (t + 1) L'
    else L.process true = none := by
  have hparts : L.note.drop L.nextNoteToPlay =
      takenAt NoteEntry.onAt notes t ++ leftAt NoteEntry.onAt notes (t + 1) := by
    rw [h.note, h.ahead]
    exact List.takeWhile_append_dropWhile.symm
  have hdue : ∀ n ∈ takenAt NoteEntry.onAt notes t, n.onAt = L.loopPosition ∧ 0 ≤ n.length := by
    intro n hn
    rw [h.loopPosition]
    rw [hnotes.takenAt_eq, List.mem_filter, decide_eq_true_eq] at hn
    exact ⟨hn.2, (hnotes.nonneg n hn.1).2⟩
  have hlater : ∀ n ∈ leftAt NoteEntry.onAt notes (t + 1), n.onAt ≠ L.loopPosition := by
    intro n hn
    rw [h.loopPosition]
    rw [hnotes.leftAt_eq, List.mem_filter, decide_eq_true_eq] at hn
    have := hn.2
    omega
  have hbefore : ∀ k, L.Sounding k → k < L.nextNoteToPlay := by
    intro k hk
    obtain ⟨n, hn, hon, -⟩ := (h.sounding k).mp hk
    exact (h.past k n hn).mpr hon
  have hstarts := startNotes_due h.tidy hparts hdue hlater hbefore (h.free hnotes hactive)
  have hfits : (∀ n ∈ takenAt NoteEntry.onAt notes t, n.length + 1 < 2 ^ 31) ↔
      ∀ n ∈ notes, n.onAt = (t : Int) → n.length + 1 < 2 ^ 31 := by
    simp only [hnotes.takenAt_eq, List.mem_filter, decide_eq_true_eq, and_imp]
  rw [if_congr hfits rfl rfl, ← hparts, ← processNoteOn] at hstarts
  rw [Loop.process]
  by_cases hlengths : ∀ n ∈ notes, n.onAt = (t : Int) → n.length + 1 < 2 ^ 31
  · rw [if_pos hlengths] at hstarts
    obtain ⟨L₁, hon, hbegun⟩ := hstarts
    obtain ⟨hended, hposition, htime⟩ := (h.begun hnotes hbegun).processNoteOff hnotes
    simp only [hon, Option.bind_some, hposition]
    by_cases hpos : (t : Int) + 1 < 2 ^ 31
    · rw [if_pos ⟨hlengths, hpos⟩, int_of_fits ⟨by omega, hpos⟩]
      refine ⟨_, _, rfl, ?_, htime⟩
      rw [eventsAt, ← hnotes.takenAt_eq]
      exact hended.append_left _
    · rw [if_neg fun hall ↦ hpos hall.2, int, if_neg (by omega)]
      rfl
  · rw [if_neg hlengths] at hstarts
    rw [if_neg fun hall ↦ hlengths hall.1, hstarts]
    rfl

/-- Calls from call `t` on play what is due in each of them. -/
def PlaysFrom (notes : List NoteEntry) (t ticks : Nat) (L : Loop) : Prop :=
  ∃ history, L.playTicks ticks = some history ∧ history.length = ticks ∧
    ∀ (i : Nat) events, history[i]? = some events → events.Perm (eventsAt notes (t + i))

/-- The first call, and the others. -/
theorem playsFrom_succ {notes : List NoteEntry} {t ticks : Nat} {L L' : Loop}
    {events : List LoopEvent} (hprocess : L.process true = some (events, L'))
    (hperm : events.Perm (eventsAt notes t)) :
    PlaysFrom notes t (ticks + 1) L ↔ PlaysFrom notes (t + 1) ticks L' := by
  have hplay : L.playTicks (ticks + 1) = (L'.playTicks ticks).map fun more ↦ events :: more := by
    rw [playTicks, hprocess]
    exact Option.map_eq_bind.symm
  rw [PlaysFrom, hplay, PlaysFrom]
  constructor
  · rintro ⟨history, heq, hlength, hall⟩
    obtain ⟨more, hmore, rfl⟩ := Option.map_eq_some_iff.mp heq
    refine ⟨more, hmore, Nat.succ.inj hlength, fun i now hnow ↦ ?_⟩
    rw [Nat.add_assoc, Nat.add_comm 1]
    exact hall (i + 1) now hnow
  · rintro ⟨more, hmore, hlength, hall⟩
    refine ⟨events :: more, by rw [hmore, Option.map_some], congrArg Nat.succ hlength, ?_⟩
    intro i now hnow
    cases i with
    | zero =>
      obtain rfl := Option.some.inj hnow
      exact hperm
    | succ i =>
      rw [Nat.add_comm i, ← Nat.add_assoc]
      exact hall i now hnow

theorem not_playsFrom {notes : List NoteEntry} {t ticks : Nat} {L : Loop}
    (hprocess : L.process true = none) : ¬PlaysFrom notes t (ticks + 1) L := by
  rintro ⟨history, heq, -⟩
  rw [playTicks, hprocess] at heq
  cases heq

theorem OnTime.playsFrom_iff {notes : List NoteEntry} {t ticks : Nat} {L : Loop}
    (h : OnTime notes t L) (hnotes : InOrder notes) (ht : (t : Int) < 2 ^ 31)
    (hactive : ∀ i, i < t + ticks →
      (notes.filter (NoteEntry.activeAt i)).length ≤ maxActiveNotes) :
    PlaysFrom notes t ticks L ↔ (∀ n ∈ notes, (t : Int) ≤ n.onAt → n.onAt < (t : Int) + ticks →
      n.length + 1 < 2 ^ 31) ∧ (t : Int) + ticks < 2 ^ 31 := by
  induction ticks generalizing t L with
  | zero =>
    refine iff_of_true ⟨[], rfl, rfl, nofun⟩ ⟨fun n _ hle hlt ↦ ?_, ?_⟩
    · rw [Int.natCast_zero] at hlt
      omega
    · rwa [Int.natCast_zero, Int.add_zero]
  | succ ticks ih =>
    have hcall := h.process hnotes (hactive t (by omega))
    have hcast : ((t + 1 : Nat) : Int) = t + 1 := Int.natCast_succ t
    split at hcall
    · next hfits =>
      obtain ⟨events, L', hprocess, hperm, htime⟩ := hcall
      rw [playsFrom_succ hprocess hperm, ih htime (by omega) fun i hi ↦ hactive i (by omega)]
      refine and_congr ⟨fun hall n hn hle hlt ↦ ?_, fun hall n hn hle hlt ↦ ?_⟩ (by omega)
      · by_cases hon : n.onAt = (t : Int)
        · exact hfits.1 n hn hon
        · exact hall n hn (by omega) (by omega)
      · exact hall n hn (by omega) (by omega)
    · next hfits =>
      refine iff_of_false (not_playsFrom hcall) fun hall ↦ hfits ⟨fun n hn hon ↦ ?_, by omega⟩
      exact hall.1 n hn (by omega) (by omega)

/-- A loop that starts to play, with nothing in its slots. -/
theorem onTime_startToPlay {L : Loop} (hslots : L.activeNote.length = maxActiveNotes)
    (hsilent : L.silent = true) (hnotes : InOrder L.note) : OnTime L.note 0 L.startToPlay := by
  have hnone := silent_iff.mp hsilent
  have hearly : ∀ (k : Nat) n, L.note[k]? = some n → ¬n.onAt < ((0 : Nat) : Int) := by
    intro k n hn
    have := (hnotes.nonneg n (List.mem_of_getElem? hn)).1
    omega
  refine ⟨⟨hslots, fun x _ k hx ↦ ?_, fun k hk ↦ absurd hk (hnone k)⟩, rfl, rfl, ?_, rfl,
    fun k ↦ ?_, fun k _ hk ↦ absurd hk (hnone k)⟩
  · exact absurd (sounding_iff.mpr ⟨x, hx⟩) (hnone k)
  · exact fun k n hn ↦ iff_of_false (Nat.not_lt_zero k) (hearly k n hn)
  · refine iff_of_false (hnone k) ?_
    rintro ⟨n, hn, hon, -⟩
    exact hearly k n hn hon

/-- With its list sorted, slots for all notes and none in them, the calls of a loop play what is
due, and nothing else, exactly as long as no note that begins is so long that its count overflows,
and the position does not overflow either. -/
theorem playsFrom_start_iff {L : Loop} (hslots : L.activeNote.length = maxActiveNotes)
    (hsilent : L.silent = true) (hsorted : L.note.Pairwise fun a b ↦ a.onAt ≤ b.onAt)
    (hnonneg : ∀ n ∈ L.note, 0 ≤ n.onAt ∧ 0 ≤ n.length) {ticks : Nat}
    (hactive : ∀ t, t < ticks → (L.note.filter (NoteEntry.activeAt t)).length ≤ maxActiveNotes) :
    PlaysFrom L.note 0 ticks L.startToPlay ↔
      (∀ n ∈ L.note, n.onAt < ticks → n.length + 1 < 2 ^ 31) ∧ ticks < 2 ^ 31 := by
  have hnotes : InOrder L.note := ⟨hsorted, hnonneg⟩
  rw [(onTime_startToPlay hslots hsilent hnotes).playsFrom_iff hnotes (by decide)
    fun i hi ↦ hactive i (by omega)]
  refine and_congr ⟨fun hall n hn hlt ↦ ?_, fun hall n hn _ hlt ↦ ?_⟩ (by omega)
  · exact hall n hn (hnonneg n hn).1 (by omega)
  · exact hall n hn (by omega)

/-- Two notes begin at once, the one is followed by another when it ends. -/
theorem playsFrom_start_chord :
    PlaysFrom [⟨0, 100, 60, 0, 0⟩, ⟨0, 100, 64, 0, 2⟩, ⟨0, 100, 60, 1, 1⟩] 0 5
      (new [⟨0, 100, 60, 0, 0⟩, ⟨0, 100, 64, 0, 2⟩, ⟨0, 100, 60, 1, 1⟩]).startToPlay :=
  (playsFrom_start_iff (L := new [⟨0, 100, 60, 0, 0⟩, ⟨0, 100, 64, 0, 2⟩, ⟨0, 100, 60, 1, 1⟩])
    (by decide) (by decide) (by decide) (by decide) (by decide)).mpr (by decide)

/-- The count of the longest note overflows. -/
theorem longest_note_overflows :
    InOrder [⟨0, 100, 60, 0, 2 ^ 31 - 1⟩] ∧ (new [⟨0, 100, 60, 0, 2 ^ 31 - 1⟩]).silent = true ∧
      ¬PlaysFrom [⟨0, 100, 60, 0, 2 ^ 31 - 1⟩] 0 1
        (new [⟨0, 100, 60, 0, 2 ^ 31 - 1⟩]).startToPlay :=
  ⟨⟨by decide, by decide⟩, by decide, not_playsFrom (by decide)⟩

end Loop

end Vuknob
