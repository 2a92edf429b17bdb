import Vuknob.Playback.Loop

/-!
# Notes of loops end

A note that a loop starts is entered in a slot of this loop and counted down while the loop is
the current one, `src_jni/machine_sequencer.cc:194–219`. The count is that of the note entry: it is
right as long as the loop stays the current one and the note is not started again before its end.
-/

namespace Vuknob

namespace Loop

/-- The note is in a slot. -/
def Sounding (L : Loop) (k : Nat) : Prop := some k ∈ L.activeNote

/-- No note is in a slot. -/
def silent (L : Loop) : Bool := L.activeNote.all fun slot ↦ slot = none

/-- The notes that `process_note_on` comes to. -/
def due (L : Loop) : List Nat :=
  List.range' L.nextNoteToPlay
    ((L.note.drop L.nextNoteToPlay).takeWhile fun n ↦ n.onAt = L.loopPosition).length

/-- The notes that find a slot. -/
def toStart (sound : Bool) (L : Loop) : List Nat :=
  if sound then L.due.take (L.activeNote.count none) else []

/-- No note is started that is still in a slot, or that would be over before it begins. -/
def mindsNotes (sound : Bool) (L : Loop) : Bool :=
  (L.toStart sound).all fun k ↦
    !L.activeNote.contains (some k) && L.note[k]?.all fun n ↦ decide (-1 ≤ n.length)

/-- Every slot exists, no note is in two of them, and those in them are yet to end. -/
structure Tidy (L : Loop) : Prop where
  slots : L.activeNote.length = maxActiveNotes
  once : ∀ x y k : Nat, L.activeNote[x]? = some (some k) → L.activeNote[y]? = some (some k) → x = y
  counting : ∀ k, L.Sounding k → 0 ≤ L.ticks2off k

theorem sounding_iff {L : Loop} {k : Nat} :
    L.Sounding k ↔ ∃ x : Nat, L.activeNote[x]? = some (some k) :=
  List.mem_iff_getElem?

theorem silent_iff {L : Loop} : L.silent = true ↔ ∀ k, ¬ L.Sounding k := by
  simp only [silent, List.all_eq_true, decide_eq_true_eq, Sounding]
  constructor
  · intro h k hk
    cases h _ hk
  · intro h slot hslot
    cases slot with
    | none => rfl
    | some k => exact absurd hslot (h k)

/-! ### Ending notes -/

/-- Where no note is in two slots, the slot that is cleared is the one that was looked at. -/
theorem Tidy.idxOf_eq {L : Loop} (h : L.Tidy) {x k : Nat} (hx : L.activeNote[x]? = some (some k)) :
    L.activeNote.idxOf (some k) = x := by
  have hmem : some k ∈ L.activeNote := List.mem_of_getElem? hx
  have hlt := List.idxOf_lt_length_iff.mpr hmem
  refine h.once _ _ k ?_ hx
  rw [List.getElem?_eq_getElem hlt, List.getElem_idxOf]

/-- What a round of `process_note_off` does to the slot that it looks at. -/
theorem endNote_cases {L : Loop} (h : L.Tidy) (x : Nat) :
    (∃ k, L.activeNote[x]? = some (some k) ∧ 0 < L.ticks2off k ∧ L.endNote x =
        ([], { L with ticks2off := Function.update L.ticks2off k (L.ticks2off k - 1) })) ∨
      (∃ k, L.activeNote[x]? = some (some k) ∧ L.ticks2off k ≤ 0 ∧ L.endNote x =
        (L.note[k]?.toList.map .noteOff, { L with activeNote := L.activeNote.set x none })) ∨
      (∀ k, L.activeNote[x]? ≠ some (some k)) ∧ L.endNote x = ([], L) := by
  unfold endNote
  split
  · next k hx =>
    split
    · next hpos => exact .inl ⟨k, hx, hpos, rfl⟩
    · next hpos =>
      refine .inr (.inl ⟨k, hx, by omega, ?_⟩)
      rw [deactivateNote, h.idxOf_eq hx]
  · next hno => exact .inr (.inr ⟨fun k hk ↦ hno k hk, rfl⟩)

/-- What rounds of `process_note_off` have done: the notes in these slots are counted down or
ended, and all others are as they were. -/
structure Ended (slots : List Nat) (L L' : Loop) (events : List LoopEvent) : Prop where
  tidy : L'.Tidy
  note : L'.note = L.note
  offs : ∀ e ∈ events, ∃ n, e = .noteOff n
  counted : ∀ x ∈ slots, ∀ k, L.activeNote[x]? = some (some k) → 0 < L.ticks2off k →
    L'.activeNote[x]? = some (some k) ∧ L'.ticks2off k = L.ticks2off k - 1
  ended : ∀ x ∈ slots, ∀ k n, L.activeNote[x]? = some (some k) → L.ticks2off k ≤ 0 →
    L.note[k]? = some n → .noteOff n ∈ events
  others : ∀ x, x ∉ slots → ∀ k, L.activeNote[x]? = some (some k) →
    L'.activeNote[x]? = some (some k) ∧ L'.ticks2off k = L.ticks2off k

theorem Ended.nil {L : Loop} (h : L.Tidy) : Ended [] L L [] :=
  ⟨h, rfl, by simp, by simp, by simp, fun _ _ _ hk ↦ ⟨hk, rfl⟩⟩

theorem Ended.endNote {L : Loop} (h : L.Tidy) (x : Nat) :
    Ended [x] L (L.endNote x).2 (L.endNote x).1 := by
  rcases endNote_cases h x with ⟨k, hx, hpos, heq⟩ | ⟨k, hx, hpos, heq⟩ | ⟨hno, heq⟩
  · rw [heq]
    have hother : ∀ y k' : Nat, y ≠ x → L.activeNote[y]? = some (some k') → k' ≠ k := by
      rintro y k' hy hk' rfl
      exact hy (h.once y x k' hk' hx)
    refine ⟨⟨h.slots, h.once, ?_⟩, rfl, by simp, ?_, ?_, ?_⟩
    · intro k' hk'
      simp only [Function.update_apply]
      split
      · omega
      · exact h.counting k' hk'
    · intro y hy k' hk' _
      obtain rfl := List.mem_singleton.mp hy
      obtain rfl : k = k' := Option.some.inj (Option.some.inj (hx.symm.trans hk'))
      exact ⟨hx, Function.update_self k _ _⟩
    · intro y hy k' n hk' hle _
      obtain rfl := List.mem_singleton.mp hy
      obtain rfl : k = k' := Option.some.inj (Option.some.inj (hx.symm.trans hk'))
      omega
    · intro y hy k' hk'
      have hne := hother y k' (by simpa using hy) hk'
      exact ⟨hk', Function.update_of_ne hne _ _⟩
  · rw [heq]
    have hset : ∀ y k' : Nat, (L.activeNote.set x none)[y]? = some (some k') →
        L.activeNote[y]? = some (some k') := by
      intro y k' hy
      rw [List.getElem?_set] at hy
      split at hy
      · split at hy <;> simp at hy
      · exact hy
    refine ⟨⟨?_, ?_, ?_⟩, rfl, ?_, ?_, ?_, ?_⟩
    · rw [List.length_set]
      exact h.slots
    · exact fun y z k' hy hz ↦ h.once y z k' (hset y k' hy) (hset z k' hz)
    · intro k' hk'
      obtain ⟨y, hy⟩ := sounding_iff.mp hk'
      exact h.counting k' (sounding_iff.mpr ⟨y, hset y k' hy⟩)
    · intro e he
      obtain ⟨n, _, rfl⟩ := List.mem_map.mp he
      exact ⟨n, rfl⟩
    · intro y hy k' hk' hlt
      obtain rfl := List.mem_singleton.mp hy
      obtain rfl : k = k' := Option.some.inj (Option.some.inj (hx.symm.trans hk'))
      omega
    · intro y hy k' n hk' _ hn
      obtain rfl := List.mem_singleton.mp hy
      obtain rfl : k = k' := Option.some.inj (Option.some.inj (hx.symm.trans hk'))
      simp [hn]
    · intro y hy k' hk'
      have hne : x ≠ y := fun he ↦ hy (by simp [he])
      exact ⟨by rw [List.getElem?_set_ne hne, hk'], rfl⟩
  · rw [heq]
    refine ⟨h, rfl, by simp, ?_, ?_, fun _ _ _ hk ↦ ⟨hk, rfl⟩⟩
    · intro y hy k hk _
      obtain rfl := List.mem_singleton.mp hy
      exact absurd hk (hno k)
    · intro y hy k n hk _ _
      obtain rfl := List.mem_singleton.mp hy
      exact absurd hk (hno k)

/-- Rounds over different slots. -/
theorem Ended.trans {slots : List Nat} {x : Nat} {L L₁ L₂ : Loop} {e₁ e₂ : List LoopEvent}
    (h₁ : Ended [x] L L₁ e₁) (h₂ : Ended slots L₁ L₂ e₂) (hx : x ∉ slots) :
    Ended (x :: slots) L L₂ (e₁ ++ e₂) where
  tidy := h₂.tidy
  note := h₂.note.trans h₁.note
  offs e he := (List.mem_append.mp he).elim (h₁.offs e) (h₂.offs e)
  counted y hy k hk hpos := by
    rcases List.mem_cons.mp hy with rfl | hy
    · obtain ⟨hk₁, ht₁⟩ := h₁.counted y (by simp) k hk hpos
      obtain ⟨hk₂, ht₂⟩ := h₂.others y hx k hk₁
      exact ⟨hk₂, ht₂.trans ht₁⟩
    · have hne : y ∉ [x] := by
        rintro he
        exact hx (List.mem_singleton.mp he ▸ hy)
      obtain ⟨hk₁, ht₁⟩ := h₁.others y hne k hk
      rw [← ht₁] at hpos ⊢
      exact h₂.counted y hy k hk₁ hpos
  ended y hy k n hk hle hn := by
    rcases List.mem_cons.mp hy with rfl | hy
    · exact List.mem_append_left _ (h₁.ended y (by simp) k n hk hle hn)
    · have hne : y ∉ [x] := by
        rintro he
        exact hx (List.mem_singleton.mp he ▸ hy)
      obtain ⟨hk₁, ht₁⟩ := h₁.others y hne k hk
      refine List.mem_append_right _ (h₂.ended y hy k n hk₁ (ht₁ ▸ hle) ?_)
      rw [h₁.note, hn]
  others y hy k hk := by
    obtain ⟨hk₁, ht₁⟩ := h₁.others y (fun he ↦ hy (by simp [List.mem_singleton.mp he])) k hk
    obtain ⟨hk₂, ht₂⟩ := h₂.others y (fun he ↦ hy (by simp [he])) k hk₁
    exact ⟨hk₂, ht₂.trans ht₁⟩

theorem endNotes_cons (L : Loop) (x : Nat) (slots : List Nat) :
    L.endNotes (x :: slots) =
      ((L.endNote x).1 ++ ((L.endNote x).2.endNotes slots).1,
        ((L.endNote x).2.endNotes slots).2) := rfl

theorem Ended.endNotes {slots : List Nat} {L : Loop} (h : L.Tidy) (hnodup : slots.Nodup) :
    Ended slots L (L.endNotes slots).2 (L.endNotes slots).1 := by
  induction slots generalizing L with
  | nil => exact .nil h
  | cons x slots ih =>
    obtain ⟨hx, hnodup⟩ := List.nodup_cons.mp hnodup
    have hfirst := Ended.endNote h x
    rw [endNotes_cons]
    exact hfirst.trans (ih hfirst.tidy hnodup) hx

/-- `process_note_off` counts every sounding note down, or ends it. -/
theorem processNoteOff_spec {L : Loop} (h : L.Tidy) :
    L.processNoteOff.2.Tidy ∧ L.processNoteOff.2.note = L.note ∧
      (∀ e ∈ L.processNoteOff.1, ∃ n, e = .noteOff n) ∧
      ∀ k n, L.Sounding k → L.note[k]? = some n →
        (0 < L.ticks2off k → L.processNoteOff.2.Sounding k ∧
          L.processNoteOff.2.ticks2off k = L.ticks2off k - 1) ∧
        (L.ticks2off k ≤ 0 → .noteOff n ∈ L.processNoteOff.1) := by
  have hslots : (List.range maxActiveNotes).Nodup := List.nodup_range
  have hend := Ended.endNotes h hslots
  rw [← processNoteOff] at hend
  refine ⟨hend.tidy, hend.note, hend.offs, fun k n hk hn ↦ ?_⟩
  obtain ⟨x, hx⟩ := sounding_iff.mp hk
  have hslot : x ∈ List.range maxActiveNotes := by
    obtain ⟨hlt, _⟩ := List.getElem?_eq_some_iff.mp hx
    rw [List.mem_range, ← h.slots]
    exact hlt
  constructor
  · intro hpos
    obtain ⟨hk', ht⟩ := hend.counted x hslot k hx hpos
    exact ⟨sounding_iff.mpr ⟨x, hk'⟩, ht⟩
  · exact fun hle ↦ hend.ended x hslot k n hx hle hn

/-! ### Starting notes -/

/-- `activate_note` takes a free slot if there is one. -/
theorem activateNote_cases (L : Loop) (k : Nat) :
    (∃ x, L.activeNote[x]? = some none ∧ L.activateNote k =
        (true, { L with activeNote := L.activeNote.set x (some k) })) ∨
      (L.activeNote.count none = 0 ∧ L.activateNote k = (false, L)) := by
  unfold activateNote
  dsimp only
  split
  · next hlt =>
    refine .inl ⟨_, ?_, rfl⟩
    rw [List.getElem?_eq_getElem hlt, List.getElem_idxOf]
  · next hlt =>
    refine .inr ⟨List.count_eq_zero.mpr fun hmem ↦ hlt ?_, rfl⟩
    exact List.idxOf_lt_length_iff.mpr hmem

/-- The notes `ks` have been started: they are in a slot, with a count that is one more than
their length. -/
structure Started (ks : List Nat) (L L' : Loop) (events : List LoopEvent) : Prop where
  tidy : L'.Tidy
  note : L'.note = L.note
  loopPosition : L'.loopPosition = L.loopPosition
  events : events = ks.filterMap fun k ↦ L.note[k]?.map .noteOn
  started : ∀ k ∈ ks, L'.Sounding k ∧
    ∀ n, L.note[k]? = some n → -1 ≤ n.length ∧ L'.ticks2off k = n.length + 1
  others : ∀ k, L.Sounding k → L'.Sounding k ∧ L'.ticks2off k = L.ticks2off k

theorem Started.nil {L : Loop} (h : L.Tidy) : Started [] L L [] :=
  ⟨h, rfl, rfl, rfl, by simp, fun _ hk ↦ ⟨hk, rfl⟩⟩

/-- A note that is in no slot is put into one. -/
theorem Tidy.activate {L : Loop} (h : L.Tidy) {x k : Nat} (hx : L.activeNote[x]? = some none)
    (hk : ¬ L.Sounding k) {n : NoteEntry} (hn : L.note[k]? = some n) (hlength : -1 ≤ n.length) :
    Started [k] L { L with
      activeNote := L.activeNote.set x (some k)
      ticks2off := Function.update L.ticks2off k (n.length + 1)
      nextNoteToPlay := k + 1 } [.noteOn n] := by
  have hlt : x < L.activeNote.length := (List.getElem?_eq_some_iff.mp hx).1
  have hget : ∀ y k' : Nat, (L.activeNote.set x (some k))[y]? = some (some k') →
      (y = x ∧ k' = k) ∨ L.activeNote[y]? = some (some k') := by
    intro y k' hy
    rw [List.getElem?_set] at hy
    split at hy
    · next he =>
      exact .inl ⟨he.symm, (Option.some.inj (Option.some.inj hy)).symm⟩
    · exact .inr hy
  have hself : (L.activeNote.set x (some k))[x]? = some (some k) := by
    rw [List.getElem?_set_self hlt]
  refine ⟨⟨?_, ?_, ?_⟩, rfl, rfl, by simp [hn], ?_, ?_⟩
  · rw [List.length_set]
    exact h.slots
  · intro y z k' hy hz
    rcases hget y k' hy with ⟨rfl, rfl⟩ | hy'
    · rcases hget z k' hz with ⟨rfl, _⟩ | hz'
      · rfl
      · exact absurd (sounding_iff.mpr ⟨z, hz'⟩) hk
    · rcases hget z k' hz with ⟨rfl, rfl⟩ | hz'
      · exact absurd (sounding_iff.mpr ⟨y, hy'⟩) hk
      · exact h.once y z k' hy' hz'
  · intro k' hk'
    obtain ⟨y, hy⟩ := sounding_iff.mp hk'
    simp only [Function.update_apply]
    split
    · omega
    · next hne =>
      rcases hget y k' hy with ⟨_, he⟩ | hy'
      · exact absurd he hne
      · exact h.counting k' (sounding_iff.mpr ⟨y, hy'⟩)
  · intro k' hmem
    obtain rfl := List.mem_singleton.mp hmem
    refine ⟨sounding_iff.mpr ⟨x, hself⟩, fun m hm ↦ ?_⟩
    obtain rfl := Option.some.inj (hn.symm.trans hm)
    exact ⟨hlength, Function.update_self k' _ _⟩
  · intro k' hk'
    obtain ⟨y, hy⟩ := sounding_iff.mp hk'
    have hne : k' ≠ k := by
      rintro rfl
      exact hk hk'
    have hyx : x ≠ y := by
      rintro rfl
      rw [hx] at hy
      cases hy
    refine ⟨sounding_iff.mpr ⟨y, ?_⟩, Function.update_of_ne hne _ _⟩
    rw [List.getElem?_set_ne hyx, hy]

/-- First one note, then others. -/
theorem Started.trans {ks₁ ks₂ : List Nat} {L L₁ L₂ : Loop} {e₁ e₂ : List LoopEvent}
    (h₁ : Started ks₁ L L₁ e₁) (h₂ : Started ks₂ L₁ L₂ e₂) :
    Started (ks₁ ++ ks₂) L L₂ (e₁ ++ e₂) where
  tidy := h₂.tidy
  note := h₂.note.trans h₁.note
  loopPosition := h₂.loopPosition.trans h₁.loopPosition
  events := by rw [h₁.events, h₂.events, h₁.note, List.filterMap_append]
  started k hk := by
    rcases List.mem_append.mp hk with hk | hk
    · obtain ⟨hs₁, ht₁⟩ := h₁.started k hk
      obtain ⟨hs₂, ht₂⟩ := h₂.others k hs₁
      exact ⟨hs₂, fun n hn ↦ ⟨(ht₁ n hn).1, ht₂.trans (ht₁ n hn).2⟩⟩
    · obtain ⟨hs, ht⟩ := h₂.started k hk
      exact ⟨hs, fun n hn ↦ ht n (by rw [h₁.note, hn])⟩
  others k hk := by
    obtain ⟨hs₁, ht₁⟩ := h₁.others k hk
    obtain ⟨hs₂, ht₂⟩ := h₂.others k hs₁
    exact ⟨hs₂, ht₂.trans ht₁⟩

theorem due_cons {L : Loop} {n : NoteEntry} {rest : List NoteEntry}
    (hrest : L.note.drop L.nextNoteToPlay = n :: rest) (hon : n.onAt = L.loopPosition) :
    L.due = L.nextNoteToPlay :: ({ L with nextNoteToPlay := L.nextNoteToPlay + 1 } : Loop).due := by
  have htail : L.note.drop (L.nextNoteToPlay + 1) = rest := by
    rw [← List.drop_drop, hrest]
    rfl
  simp only [due, hrest, htail]
  rw [List.takeWhile_cons_of_pos (by simpa using hon), List.length_cons, List.range'_succ]

/-- A slot that is taken is free no longer. -/
theorem count_none_set {slots : List (Option Nat)} {x : Nat} (k : Nat)
    (hx : slots[x]? = some none) : (slots.set x (some k)).count none + 1 = slots.count none := by
  obtain ⟨hlt, hnone⟩ := List.getElem?_eq_some_iff.mp hx
  have hpos : 0 < slots.count none := List.count_pos_iff.mpr (List.mem_of_getElem? hx)
  rw [List.count_set hlt]
  simp [hnone]
  omega

/-- A note that finds a slot leaves one less to those behind it. -/
theorem toStart_cons {L : Loop} {n : NoteEntry} {rest : List NoteEntry}
    (hrest : L.note.drop L.nextNoteToPlay = n :: rest) (hon : n.onAt = L.loopPosition) {x : Nat}
    (hx : L.activeNote[x]? = some none) (ticks2off : Nat → Int) :
    L.toStart true = L.nextNoteToPlay ::
      ({ L with
        activeNote := L.activeNote.set x (some L.nextNoteToPlay)
        ticks2off := ticks2off
        nextNoteToPlay := L.nextNoteToPlay + 1 } : Loop).toStart true := by
  rw [toStart, if_pos rfl, due_cons hrest hon, ← count_none_set L.nextNoteToPlay hx,
    List.take_succ_cons]
  rfl

/-- Notes may be started: none is in a slot already or over before it begins. -/
def Clear (L : Loop) (ks : List Nat) : Prop :=
  ∀ k ∈ ks, ¬ L.Sounding k ∧ ∀ n, L.note[k]? = some n → -1 ≤ n.length

theorem clear_of_mindsNotes {sound : Bool} {L : Loop} (h : L.mindsNotes sound = true) :
    L.Clear (L.toStart sound) := by
  intro k hk
  have hk := List.all_eq_true.mp h k hk
  simp only [Bool.and_eq_true, Bool.not_eq_true', List.contains_eq_mem, decide_eq_false_iff_not,
    Option.all_eq_true, decide_eq_true_eq] at hk
  exact ⟨hk.1, hk.2⟩

/-- One round of `process_note_on`, and what is still to be started. -/
theorem startNote_spec {sound : Bool} {L L' : Loop} {n : NoteEntry} {rest : List NoteEntry}
    {events : List LoopEvent} (h : L.Tidy) (hclear : L.Clear (L.toStart sound))
    (hrest : L.note.drop L.nextNoteToPlay = n :: rest) (hon : n.onAt = L.loopPosition)
    (hs : L.startNote sound n = some (events, L')) :
    (∃ ks, Started ks L L' events) ∧ L'.Clear (L'.toStart sound) ∧
      L'.note.drop L'.nextNoteToPlay = rest := by
  have hdrop : L.note.drop (L.nextNoteToPlay + 1) = rest := by
    rw [← List.drop_drop, hrest]
    rfl
  have hn : L.note[L.nextNoteToPlay]? = some n := by
    rw [← List.head?_drop, hrest, List.head?_cons]
  have hskip : some ([], { L with nextNoteToPlay := L.nextNoteToPlay + 1 }) =
      some (events, L') → L'.toStart sound = [] → (∃ ks, Started ks L L' events) ∧
        L'.Clear (L'.toStart sound) ∧ L'.note.drop L'.nextNoteToPlay = rest := by
    intro heq hnone
    obtain ⟨rfl, rfl⟩ := Prod.mk.inj (Option.some.inj heq)
    refine ⟨⟨[], ⟨h.slots, h.once, h.counting⟩, rfl, rfl, rfl, by simp, ?_⟩, ?_, hdrop⟩
    · exact fun _ hk ↦ ⟨hk, rfl⟩
    · rw [hnone]
      simp [Clear]
  unfold startNote at hs
  cases sound with
  | false => exact hskip hs rfl
  | true =>
    rcases activateNote_cases L L.nextNoteToPlay with ⟨x, hx, hact⟩ | ⟨hfull, hact⟩
    · simp only [hact, Option.map_eq_some_iff] at hs
      obtain ⟨ticks, hticks, heq⟩ := hs
      obtain ⟨rfl, rfl⟩ := Prod.mk.inj heq
      obtain ⟨_, rfl⟩ := int_eq_some_iff.mp hticks
      rw [toStart_cons hrest hon hx (Function.update L.ticks2off L.nextNoteToPlay (n.length + 1))]
        at hclear
      obtain ⟨hfresh, hlength⟩ := hclear L.nextNoteToPlay (by simp)
      have hstart := h.activate hx hfresh hn (hlength n hn)
      refine ⟨⟨_, hstart⟩, fun k hk ↦ ?_, hdrop⟩
      obtain ⟨hold, hlong⟩ := hclear k (List.mem_cons_of_mem _ hk)
      refine ⟨fun hsounding ↦ ?_, hlong⟩
      rcases List.mem_or_eq_of_mem_set hsounding with hmem | heq
      · exact hold hmem
      · have hlater : L.nextNoteToPlay + 1 ≤ k :=
          (List.mem_range'_1.mp (List.mem_of_mem_take hk)).1
        have := Option.some.inj heq
        omega
    · simp only [hact] at hs
      refine hskip hs ?_
      obtain ⟨_, rfl⟩ := Prod.mk.inj (Option.some.inj hs)
      simp [toStart, hfull]

theorem startNotes_spec {sound : Bool} {L L' : Loop} {rest : List NoteEntry}
    {events : List LoopEvent} (h : L.Tidy) (hclear : L.Clear (L.toStart sound))
    (hrest : L.note.drop L.nextNoteToPlay = rest)
    (hs : startNotes sound rest L = some (events, L')) : ∃ ks, Started ks L L' events := by
  induction rest generalizing L L' events with
  | nil =>
    obtain ⟨rfl, rfl⟩ := Prod.mk.inj (Option.some.inj hs)
    exact ⟨[], .nil h⟩
  | cons n rest ih =>
    rw [startNotes] at hs
    split at hs
    · next hon =>
      simp only [Option.bind_eq_bind, Option.bind_eq_some_iff] at hs
      obtain ⟨⟨e₁, L₁⟩, h₁, ⟨e₂, L₂⟩, h₂, heq⟩ := hs
      obtain ⟨rfl, rfl⟩ := Prod.mk.inj (Option.some.inj heq)
      obtain ⟨⟨ks₁, hfirst⟩, hclear₁, hrest₁⟩ := startNote_spec h hclear hrest hon h₁
      obtain ⟨ks₂, hothers⟩ := ih hfirst.tidy hclear₁ hrest₁ h₂
      exact ⟨ks₁ ++ ks₂, hfirst.trans hothers⟩
    · obtain ⟨rfl, rfl⟩ := Prod.mk.inj (Option.some.inj hs)
      exact ⟨[], .nil h⟩

/-! ### One tick -/

/-- What a loop does in a tick: the notes `ks` are started, all that sound are counted down, and
those whose count is up are ended. -/
structure Processed (ks : List Nat) (L L' : Loop) (ended : List LoopEvent) : Prop where
  tidy : L'.Tidy
  note : L'.note = L.note
  offs : ∀ e ∈ ended, ∃ n, e = .noteOff n
  started : ∀ k ∈ ks, ∀ n, L.note[k]? = some n →
    L'.Sounding k ∧ L'.ticks2off k = n.length ∨ n.length = -1 ∧ .noteOff n ∈ ended
  sounding : ∀ k n, L.Sounding k → L.note[k]? = some n →
    L'.Sounding k ∧ L'.ticks2off k = L.ticks2off k - 1 ∨
      L.ticks2off k ≤ 0 ∧ .noteOff n ∈ ended

theorem process_spec {sound : Bool} {L L' : Loop} {events : List LoopEvent} (h : L.Tidy)
    (hclear : L.Clear (L.toStart sound)) (hp : L.process sound = some (events, L')) :
    ∃ ks ended, events = (List.filterMap (fun k ↦ L.note[k]?.map .noteOn) ks) ++ ended ∧
      Processed ks L L' ended := by
  simp only [process, Option.bind_eq_some_iff, Option.map_eq_some_iff, Prod.mk.injEq] at hp
  obtain ⟨⟨e, L₁⟩, hon, position, -, rfl, rfl⟩ := hp
  obtain ⟨ks, hs⟩ := startNotes_spec h hclear rfl hon
  have hoff := processNoteOff_spec hs.tidy
  generalize L₁.processNoteOff = r at hoff ⊢
  obtain ⟨htidy, hnote, hoffs, hcount⟩ := hoff
  have hstep : ∀ k n, L₁.Sounding k → L.note[k]? = some n →
      r.2.Sounding k ∧ r.2.ticks2off k = L₁.ticks2off k - 1 ∨
        L₁.ticks2off k ≤ 0 ∧ .noteOff n ∈ r.1 := by
    intro k n hk hn
    obtain ⟨hpos, hle⟩ := hcount k n hk (by rw [hs.note, hn])
    by_cases hzero : 0 < L₁.ticks2off k
    · exact .inl (hpos hzero)
    · exact .inr ⟨by omega, hle (by omega)⟩
  refine ⟨ks, r.1, by rw [hs.events], ⟨htidy.slots, htidy.once, htidy.counting⟩,
    hnote.trans hs.note, hoffs, ?_, ?_⟩
  · intro k hk n hn
    obtain ⟨hsounding, hticks⟩ := hs.started k hk
    obtain ⟨hlength, hticks⟩ := hticks n hn
    rcases hstep k n hsounding hn with ⟨hk', ht⟩ | ⟨hle, hmem⟩
    · exact .inl ⟨hk', by simp only; omega⟩
    · exact .inr ⟨by omega, hmem⟩
  · intro k n hk hn
    obtain ⟨hsounding, hticks⟩ := hs.others k hk
    rcases hstep k n hsounding hn with ⟨hk', ht⟩ | ⟨hle, hmem⟩
    · exact .inl ⟨hk', by simp only; omega⟩
    · exact .inr ⟨by omega, hmem⟩

theorem Tidy.startToPlay {L : Loop} (h : L.Tidy) : L.startToPlay.Tidy :=
  ⟨h.slots, h.once, h.counting⟩

end Loop

namespace LoopPlayer

/-- The current loop. -/
def current (p : LoopPlayer) : Option Loop := p.currentLoop.bind p.loop

/-- A loop is started only if no other one has notes in its slots, and no note is started that is
still in a slot or would be over before it begins. -/
def minds (p : LoopPlayer) (sequencePosition currentTick : Int) (mute : Bool) : Bool :=
  (match p.begins sequencePosition currentTick with
    | none => true
    | some loopId => (List.range p.loopStore.length).all fun other ↦
        other = loopId || (p.loop other).all Loop.silent) &&
  ((p.startLoop sequencePosition currentTick).bind current).all (Loop.mindsNotes !mute)

/-- The loops are tidy, and only the current one has notes in its slots. -/
structure Tidy (p : LoopPlayer) : Prop where
  loops : ∀ loopId L, p.loop loopId = some L → L.Tidy
  others : ∀ loopId L, p.loop loopId = some L → p.currentLoop ≠ some loopId → L.silent = true

/-- A note that was started in tick `i` is in a slot, and will be ended in time if it is counted
down from tick `now` on. -/
def Pending (p : LoopPlayer) (now i : Nat) (n : NoteEntry) : Prop :=
  ∃ L k, p.current = some L ∧ L.Sounding k ∧ L.note[k]? = some n ∧
    (i : Int) + n.length + 1 = now + L.ticks2off k

theorem lt_of_loop {p : LoopPlayer} {loopId : Nat} {L : Loop} (h : p.loop loopId = some L) :
    loopId < p.loopStore.length := by
  obtain ⟨o, ho, rfl⟩ : ∃ o, p.loopStore[loopId]? = some o ∧ o = some L := by
    simpa [loop, Option.join_eq_some_iff] using h
  exact (List.getElem?_eq_some_iff.mp ho).1

theorem loop_setLoop {p : LoopPlayer} {loopId : Nat} {L : Loop} (h : p.loop loopId = some L)
    (L' : Loop) (other : Nat) :
    (p.setLoop loopId L').loop other = if other = loopId then some L' else p.loop other := by
  have hlt := lt_of_loop h
  simp only [loop, setLoop, List.getElem?_set]
  by_cases he : other = loopId
  · simp [he, hlt]
  · simp [he, Ne.symm he]

/-- Starting a loop leaves the pending notes as they are. -/
theorem startLoop_spec {p p' : LoopPlayer} {sequencePosition currentTick : Int} {mute : Bool}
    (h : p.Tidy) (hm : p.minds sequencePosition currentTick mute = true)
    (hs : p.startLoop sequencePosition currentTick = some p') :
    p'.Tidy ∧ (∀ L, p'.current = some L → L.mindsNotes (!mute) = true) ∧
      ∀ now i n, p.Pending now i n → p'.Pending now i n := by
  simp only [minds, Bool.and_eq_true, hs, Option.bind_some, Option.all_eq_true] at hm
  obtain ⟨hsilent, hnotes⟩ := hm
  unfold startLoop at hs
  split at hs
  · obtain rfl := Option.some.inj hs
    exact ⟨h, hnotes, fun _ _ _ hp ↦ hp⟩
  · next loopId hbegin =>
    simp only [hbegin, List.all_eq_true, List.mem_range, Bool.or_eq_true, decide_eq_true_eq,
      Option.all_eq_true] at hsilent
    obtain ⟨L, hL, rfl⟩ := Option.map_eq_some_iff.mp hs
    have hget : ∀ other, ({ p.setLoop loopId L.startToPlay with
        currentLoop := some loopId } : LoopPlayer).loop other =
        if other = loopId then some L.startToPlay else p.loop other := loop_setLoop hL _
    refine ⟨⟨fun other M hM ↦ ?_, fun other M hM hne ↦ ?_⟩, hnotes, ?_⟩
    · rw [hget] at hM
      split at hM
      · obtain rfl := Option.some.inj hM
        exact (h.loops loopId L hL).startToPlay
      · exact h.loops other M hM
    · have hother : other ≠ loopId := fun he ↦ hne (by rw [he])
      rw [hget, if_neg hother] at hM
      exact (hsilent other (lt_of_loop hM)).resolve_left hother M hM
    · rintro now i n ⟨M, k, hcur, hk, hn, htime⟩
      obtain ⟨id, hid, hM⟩ := Option.bind_eq_some_iff.mp hcur
      have heq : id = loopId := by
        by_contra hne
        have hquiet := (hsilent id (lt_of_loop hM)).resolve_left hne M hM
        exact Loop.silent_iff.mp hquiet k hk
      rw [heq, hL] at hM
      obtain rfl := Option.some.inj hM
      refine ⟨L.startToPlay, k, ?_, hk, hn, htime⟩
      rw [current, Option.bind_some, hget, if_pos rfl]

end LoopPlayer

/-! ### Histories -/

/-- A note-off for the note and channel of `n` is among the events. -/
def Ends (n : NoteEntry) (events : List LoopEvent) : Prop :=
  ∃ m, .noteOff m ∈ events ∧ m.note = n.note ∧ m.channel = n.channel

/-- A note-on for `n` in tick `i`, with the events `after` behind it in this tick, is followed by a
note-off within the length of the note and one more tick. -/
def ReleasedFrom (history : List (List LoopEvent)) (i : Nat) (n : NoteEntry)
    (after : List LoopEvent) : Prop :=
  (-1 ≤ n.length ∧ Ends n after) ∨
    ∃ (j : Nat) (events : List LoopEvent), i < j ∧ (j : Int) ≤ i + n.length + 1 ∧
      history[j]? = some events ∧ Ends n events

/-- Every note-on is followed by a note-off in time, unless the history ends before. -/
def Released (history : List (List LoopEvent)) : Prop :=
  ∀ (i : Nat) before n after, history[i]? = some (before ++ .noteOn n :: after) →
    (i : Int) + n.length + 1 < history.length → ReleasedFrom history i n after

theorem ReleasedFrom.append {history : List (List LoopEvent)} {i : Nat} {n : NoteEntry}
    {after : List LoopEvent} (h : ReleasedFrom history i n after) (more : List (List LoopEvent)) :
    ReleasedFrom (history ++ more) i n after := by
  refine h.imp_right ?_
  rintro ⟨j, events, hij, hle, hj, hends⟩
  have hlt := (List.getElem?_eq_some_iff.mp hj).1
  exact ⟨j, events, hij, hle, by rw [List.getElem?_append_left hlt, hj], hends⟩

/-- Where only note-offs are behind the note-ons, they are behind each of them. -/
theorem split_noteOn {started ended before after : List LoopEvent} {n : NoteEntry}
    (hended : ∀ e ∈ ended, ∃ n, e = .noteOff n)
    (h : started ++ ended = before ++ .noteOn n :: after) :
    .noteOn n ∈ started ∧ ∀ e ∈ ended, e ∈ after := by
  have hon : .noteOn n ∉ ended := by
    intro hmem
    obtain ⟨m, hm⟩ := hended _ hmem
    cases hm
  rcases List.append_eq_append_iff.mp h with ⟨c, rfl, rfl⟩ | ⟨c, rfl, hc⟩
  · exact absurd (by simp) hon
  · cases c with
    | nil =>
      obtain rfl : .noteOn n :: after = ended := hc
      exact absurd (by simp) hon
    | cons x c =>
      obtain ⟨rfl, rfl⟩ := List.cons.inj hc
      exact ⟨by simp, fun e he ↦ by simp [he]⟩

/-- The player, with what the loops have queued in each tick. -/
structure Played where
  player : LoopPlayer
  history : List (List LoopEvent)

namespace Played

/-- One tick, at a line and a tick of the sequence. -/
def step (w : Played) : Int × Int × Bool → Option (List LoopEvent × Played)
  | (sequencePosition, currentTick, mute) =>
    (w.player.tick sequencePosition currentTick mute).map fun (events, p) ↦
      (events, ⟨p, w.history ++ [events]⟩)

/-- The tick starts no loop while another one has notes in its slots, and no note that is still in
a slot or would be over before it begins. -/
def Minds (w : Played) (t : Int × Int × Bool) (_ : List LoopEvent) : Prop :=
  w.player.minds t.1 t.2.1 t.2.2 = true

/-- Notes have been ended in time, or are pending. -/
structure InTime (w : Played) : Prop where
  tidy : w.player.Tidy
  notes : ∀ (i : Nat) before n after, w.history[i]? = some (before ++ .noteOn n :: after) →
    ReleasedFrom w.history i n after ∨ w.player.Pending w.history.length i n

theorem InTime.released {w : Played} (h : w.InTime) : Released w.history := by
  intro i before n after hi hlt
  rcases h.notes i before n after hi with hreleased | ⟨L, k, hcur, hk, _, htime⟩
  · exact hreleased
  · obtain ⟨id, _, hL⟩ := Option.bind_eq_some_iff.mp hcur
    have hcount := (h.tidy.loops id L hL).counting k hk
    omega

/-- What has to be shown of a tick: the notes that were pending still are or have been ended, and
so are those that were started. -/
theorem InTime.extend {w : Played} (h : w.InTime) {p : LoopPlayer} {events : List LoopEvent}
    (htidy : p.Tidy)
    (hpending : ∀ i n, i < w.history.length → w.player.Pending w.history.length i n →
      p.Pending (w.history.length + 1) i n ∨
        (w.history.length : Int) = i + n.length + 1 ∧ Ends n events)
    (hnew : ∀ before n after, events = before ++ .noteOn n :: after →
      (-1 ≤ n.length ∧ Ends n after) ∨
        p.Pending (w.history.length + 1) w.history.length n) :
    InTime ⟨p, w.history ++ [events]⟩ := by
  refine ⟨htidy, fun i before n after hi ↦ ?_⟩
  simp only [List.length_append, List.length_singleton]
  by_cases hlt : i < w.history.length
  · simp only [List.getElem?_append_left hlt] at hi
    rcases h.notes i before n after hi with hreleased | hp
    · exact .inl (hreleased.append _)
    · refine (hpending i n hlt hp).symm.imp_left ?_
      rintro ⟨htime, hends⟩
      exact .inr ⟨w.history.length, events, hlt, by omega, by simp, hends⟩
  · have heq : i = w.history.length := by
      have := (List.getElem?_eq_some_iff.mp hi).1
      simp only [List.length_append, List.length_singleton] at this
      omega
    subst heq
    simp only [List.getElem?_concat_length, Option.some.injEq] at hi
    exact (hnew before n after hi).imp_left .inl

/-- Processing the current loop. -/
theorem InTime.processLoop {w : Played} (h : w.InTime) {mute : Bool} {p : LoopPlayer}
    {events : List LoopEvent}
    (hm : ∀ L, w.player.current = some L → L.mindsNotes (!mute) = true)
    (hp : w.player.processLoop mute = some (events, p)) :
    InTime ⟨p, w.history ++ [events]⟩ := by
  unfold LoopPlayer.processLoop at hp
  split at hp
  · next hnone =>
    obtain ⟨rfl, rfl⟩ := Prod.mk.inj (Option.some.inj hp)
    refine h.extend h.tidy ?_ ?_
    · rintro i n _ ⟨L, k, hcur, _⟩
      simp [LoopPlayer.current, hnone] at hcur
    · intro before n after heq
      simp at heq
  · next loopId hid =>
    split at hp
    · cases hp
    next L hL =>
    have hcur : w.player.current = some L := by rw [LoopPlayer.current, hid, Option.bind_some, hL]
    obtain ⟨⟨_, L'⟩, hprocess, heq⟩ := Option.map_eq_some_iff.mp hp
    obtain ⟨rfl, rfl⟩ := Prod.mk.inj heq
    obtain ⟨ks, ended, rfl, hdone⟩ := Loop.process_spec (h.tidy.loops loopId L hL)
      (Loop.clear_of_mindsNotes (hm L hcur)) hprocess
    have hget := LoopPlayer.loop_setLoop hL L'
    have hcur' : (w.player.setLoop loopId L').current = some L' := by
      have hid' : (w.player.setLoop loopId L').currentLoop = some loopId := hid
      rw [LoopPlayer.current, hid', Option.bind_some, hget, if_pos rfl]
    refine h.extend ⟨fun other M hM ↦ ?_, fun other M hM hne ↦ ?_⟩ ?_ ?_
    · rw [hget] at hM
      split at hM
      · obtain rfl := Option.some.inj hM
        exact hdone.tidy
      · exact h.tidy.loops other M hM
    · have hother : other ≠ loopId := fun he ↦ hne (he ▸ hid)
      rw [hget, if_neg hother] at hM
      exact h.tidy.others other M hM hne
    · rintro i n _ ⟨M, k, hM, hk, hn, htime⟩
      obtain rfl := Option.some.inj (hcur.symm.trans hM)
      rcases hdone.sounding k n hk hn with ⟨hk', ht⟩ | ⟨hle, hoff⟩
      · refine .inl ⟨L', k, hcur', hk', by rw [hdone.note, hn], ?_⟩
        rw [ht]
        push_cast
        omega
      · have hcount := (h.tidy.loops loopId L hL).counting k hk
        exact .inr ⟨by omega, n, by simp [hoff], rfl, rfl⟩
    · intro before n after heq
      obtain ⟨hon, hafter⟩ := split_noteOn hdone.offs heq
      obtain ⟨k, hk, hnote⟩ := List.mem_filterMap.mp hon
      obtain ⟨m, hm', hmn⟩ := Option.map_eq_some_iff.mp hnote
      obtain rfl := LoopEvent.noteOn.inj hmn
      rcases hdone.started k hk m hm' with ⟨hk', ht⟩ | ⟨hlength, hoff⟩
      · refine .inr ⟨L', k, hcur', hk', by rw [hdone.note, hm'], ?_⟩
        rw [ht]
        push_cast
        omega
      · exact .inl ⟨by omega, m, hafter _ hoff, rfl, rfl⟩

/-- A tick that minds the notes in the slots keeps all notes in time. -/
theorem InTime.step {w w' : Played} (h : w.InTime) {t : Int × Int × Bool}
    {events : List LoopEvent} (hm : w.Minds t events) (hst : w.step t = some (events, w')) :
    w'.InTime := by
  obtain ⟨sequencePosition, currentTick, mute⟩ := t
  obtain ⟨⟨events', p⟩, htick, heq⟩ := Option.map_eq_some_iff.mp hst
  obtain ⟨rfl, rfl⟩ := Prod.mk.inj heq
  obtain ⟨p₁, hstart, hprocess⟩ := Option.bind_eq_some_iff.mp htick
  obtain ⟨htidy, hnotes, hpending⟩ := LoopPlayer.startLoop_spec h.tidy hm hstart
  have hstarted : InTime ⟨p₁, w.history⟩ :=
    ⟨htidy, fun i before n after hi ↦ (h.notes i before n after hi).imp_right (hpending _ _ _)⟩
  exact hstarted.processLoop hnotes hprocess

/-! ### Runs -/

/-- Nothing has been played: all slots are free. -/
def Fresh (p : LoopPlayer) : Prop :=
  ∀ loopId L, p.loop loopId = some L → L.activeNote = List.replicate maxActiveNotes none

theorem inTime_of_fresh {p : LoopPlayer} (h : Fresh p) : InTime ⟨p, []⟩ := by
  have hsilent : ∀ loopId L, p.loop loopId = some L → ∀ k, ¬ L.Sounding k := by
    intro loopId L hL k hk
    rw [Loop.Sounding, h loopId L hL] at hk
    simp at hk
  refine ⟨⟨fun loopId L hL ↦ ⟨?_, ?_, ?_⟩, fun loopId L hL _ ↦ ?_⟩, by simp⟩
  · rw [h loopId L hL, List.length_replicate]
  · intro x y k hx _
    exact absurd (Loop.sounding_iff.mpr ⟨x, hx⟩) (hsilent loopId L hL k)
  · exact fun k hk ↦ absurd hk (hsilent loopId L hL k)
  · exact Loop.silent_iff.mpr (hsilent loopId L hL)

/-- In every run that starts no loop while another one has notes in its slots, and no note that is
still in a slot or would be over before it begins, every note-on is followed by a note-off for its
note and channel within its length and one more tick. -/
theorem loop_notes_released {p : LoopPlayer} (hp : Fresh p) {ts : List (Int × Int × Bool)}
    {w : Played} (h : Library.Run step Minds ⟨p, []⟩ ts w) : Released w.history := by
  have hin : w.InTime := by
    refine h.invariant InTime ?_ (inTime_of_fresh hp)
    intro v t events v' hv hm hst
    exact hv.step hm hst
  exact hin.released

/-- The ticks from the start of the sequence on, muted or not. -/
def fromStart (mutes : List Bool) : List (Int × Int × Bool) :=
  mutes.zipIdx.map fun (mute, i) ↦ (i / 16, i % 16, mute)

/-- A loop of one note, and an empty one that begins at the second line. -/
def twoLoops (n : NoteEntry) : LoopPlayer where
  loopStore :=
    [some ⟨[n], 0, 0, List.replicate maxActiveNotes none, fun _ ↦ 0⟩,
      some ⟨[], 0, 0, List.replicate maxActiveNotes none, fun _ ↦ 0⟩]
  loopSequence := [some 0, some 1]
  currentLoop := none

theorem fresh_twoLoops (n : NoteEntry) : Fresh (twoLoops n) := by
  intro loopId L hL
  match loopId with
  | 0 | 1 =>
    obtain rfl := Option.some.inj hL
    rfl
  | loopId + 2 => simp [LoopPlayer.loop, twoLoops] at hL

/-- A note that ends within its line is ended, also if it is muted meanwhile. -/
theorem loop_notes_released_twoLoops :
    ∃ w, Library.Run step Minds ⟨twoLoops ⟨0, 100, 60, 2, 5⟩, []⟩
        (fromStart (List.replicate 3 false ++ List.replicate 29 true)) w ∧
      w.history[2]? = some [.noteOn ⟨0, 100, 60, 2, 5⟩] ∧
      w.history[8]? = some [.noteOff ⟨0, 100, 60, 2, 5⟩] ∧ Released w.history := by
  have heval : (Library.runAll step (fun w t _ ↦ w.player.minds t.1 t.2.1 t.2.2)
      ⟨twoLoops ⟨0, 100, 60, 2, 5⟩, []⟩
      (fromStart (List.replicate 3 false ++ List.replicate 29 true))).map (fun w ↦
        (w.history[2]?, w.history[8]?)) =
      some (some [.noteOn ⟨0, 100, 60, 2, 5⟩], some [.noteOff ⟨0, 100, 60, 2, 5⟩]) := by
    decide +kernel
  obtain ⟨w, hw, h⟩ := Option.map_eq_some_iff.mp heval
  obtain ⟨hon, hoff⟩ := Prod.mk.inj h
  have hrun := Library.Run.of_runAll hw
  exact ⟨w, hrun, hon, hoff, loop_notes_released (fresh_twoLoops _) hrun⟩

/-- A note that is to end in the second line, when another loop has begun, never ends. -/
theorem loop_note_hangs :
    ¬ ∀ p, Fresh p → (∀ loopId L, p.loop loopId = some L → ∀ n ∈ L.note, 0 ≤ n.length) →
      ∀ mutes w, Library.Run step (fun _ _ _ ↦ True) ⟨p, []⟩ (fromStart mutes) w →
      Released w.history := by
  intro hall
  let n : NoteEntry := ⟨0, 100, 60, 8, 20⟩
  have heval : (Library.runAll step (fun _ _ _ ↦ true) ⟨twoLoops n, []⟩
      (fromStart (List.replicate 48 false))).map (fun w ↦
        (w.history.length, w.history[8]?, w.history.flatten)) =
      some (48, some [.noteOn n], [.noteOn n]) := by decide +kernel
  obtain ⟨w, hw, h⟩ := Option.map_eq_some_iff.mp heval
  obtain ⟨hlength, hon, hflat⟩ : w.history.length = 48 ∧ w.history[8]? = some [.noteOn n] ∧
      w.history.flatten = [.noteOn n] := by simpa using h
  have hlong : ∀ loopId L, (twoLoops n).loop loopId = some L → ∀ m ∈ L.note, 0 ≤ m.length := by
    intro loopId L hL m hm
    match loopId with
    | 0 | 1 =>
      obtain rfl := Option.some.inj hL
      revert m
      decide
    | loopId + 2 => simp [LoopPlayer.loop, twoLoops] at hL
  have hreleased := hall (twoLoops n) (fresh_twoLoops n) hlong _ w
    ((Library.Run.of_runAll hw).mono fun _ _ _ _ ↦ trivial) 8 [] n [] hon
    (by rw [hlength]; decide)
  rcases hreleased with ⟨_, m, hm, _⟩ | ⟨j, events, _, _, hj, m, hm, _⟩
  · cases hm
  · have hmem : .noteOff m ∈ w.history.flatten :=
      List.mem_flatten.mpr ⟨events, List.mem_of_getElem? hj, hm⟩
    rw [hflat] at hmem
    simp at hmem

end Played

end Vuknob
