import Vuknob.Playback.DataBytes
import Vuknob.Playback.Envelope
import Vuknob.Playback.LoopEdit
import Vuknob.Playback.LoopNotes

/-!
# What a sequencer queues

The body of the loop in `MachineSequencer::fill_buffers`, `src_jni/machine_sequencer.cc:732–755`,
lets the pad, the current loop and the controller envelopes queue their events. Between two rounds
all of them are edited, and `reset` may be called.
-/

namespace Vuknob

open Library

/-- The two bytes behind the status byte, of the calls that queue a message. -/
def MidiCall.dataBytes : MidiCall → List Int
  | .queueNoteOn note velocity _ => [note.toInt, velocity.toInt]
  | .queueNoteOff note velocity _ => [note.toInt, velocity.toInt]
  | .queueController controller value _ => [controller.toInt, value.toInt]
  | .queuePitchBend valueLsb valueMsb _ => [valueLsb.toInt, valueMsb.toInt]
  | _ => []

/-- The message of the event is one of MIDI. -/
def LoopEvent.WellFormed (e : LoopEvent) : Prop := ∀ b ∈ e.call.dataBytes, IsDataByte b

/-! ## Loops -/

namespace Loop

/-- The count of a note when `process_note_on` has been through. -/
def ticksThen (sound : Bool) (L : Loop) (k : Nat) : Int :=
  if k ∈ L.toStart sound then L.note[k]?.elim 0 NoteEntry.length + 1 else L.ticks2off k

/-- The number of slots in which a note is then. -/
def slotsThen (sound : Bool) (L : Loop) (k : Nat) : Nat :=
  L.activeNote.count (some k) + (L.toStart sound).count k

/-- A note comes to its end: `process_note_off` comes to a slot of it when its count is up. The
count is that of the note, and every slot takes one away. -/
def endsNote (sound : Bool) (L : Loop) : Bool :=
  (List.range L.note.length).any fun k ↦ (L.ticksThen sound k).toNat < L.slotsThen sound k

/-- There are as many slots as there should be, and the notes have been through `set_to`. -/
structure InRange (L : Loop) : Prop where
  slots : L.activeNote.length = maxActiveNotes
  notes : ∀ n ∈ L.note, n.setTo = n

/-- The notes and the number of slots stay the same. -/
structure SameNotes (L L' : Loop) : Prop where
  note : L'.note = L.note
  slots : L'.activeNote.length = L.activeNote.length

theorem SameNotes.refl (L : Loop) : SameNotes L L := ⟨rfl, rfl⟩

theorem SameNotes.trans {L L' L'' : Loop} (h : SameNotes L L') (h' : SameNotes L' L'') :
    SameNotes L L'' :=
  ⟨h'.note.trans h.note, h'.slots.trans h.slots⟩

theorem InRange.congr {L L' : Loop} (h : L.InRange) (hsame : SameNotes L L') : L'.InRange :=
  ⟨hsame.slots.trans h.slots, hsame.note.symm ▸ h.notes⟩

/-- Where nothing is to be started, the notes are in the slots in which they are now. -/
theorem then_of_nil {sound : Bool} {L : Loop} (h : L.toStart sound = []) (k : Nat) :
    L.ticksThen sound k = L.ticks2off k ∧ L.slotsThen sound k = L.activeNote.count (some k) := by
  rw [ticksThen, slotsThen, h]
  exact ⟨if_neg List.not_mem_nil, rfl⟩

theorem toStart_of_due {sound : Bool} {L : Loop} (h : L.due = []) : L.toStart sound = [] := by
  rw [toStart, h, List.take_nil]
  exact ite_self _

/-- What a round of `process_note_on` does to a note, the rounds behind it do not do again. -/
theorem startNote_then {sound : Bool} {L L' : Loop} {n : NoteEntry} {rest : List NoteEntry}
    {events : List LoopEvent} (hrest : L.note.drop L.nextNoteToPlay = n :: rest)
    (hon : n.onAt = L.loopPosition) (hs : L.startNote sound n = some (events, L')) :
    SameNotes L L' ∧ L'.note.drop L'.nextNoteToPlay = rest ∧ L'.loopPosition = L.loopPosition ∧
      (∀ e ∈ events, e = .noteOn n) ∧ ∀ k, L'.ticksThen sound k = L.ticksThen sound k ∧
        L'.slotsThen sound k = L.slotsThen sound k := by
  have hdrop : L.note.drop (L.nextNoteToPlay + 1) = rest := by
    rw [← List.drop_drop, hrest]
    rfl
  have hn : L.note[L.nextNoteToPlay]? = some n := by
    rw [← List.head?_drop, hrest, List.head?_cons]
  have hskip : some ([], { L with nextNoteToPlay := L.nextNoteToPlay + 1 }) = some (events, L') →
      L.toStart sound = [] → L'.toStart sound = [] →
      SameNotes L L' ∧ L'.note.drop L'.nextNoteToPlay = rest ∧ L'.loopPosition = L.loopPosition ∧
        (∀ e ∈ events, e = .noteOn n) ∧ ∀ k, L'.ticksThen sound k = L.ticksThen sound k ∧
          L'.slotsThen sound k = L.slotsThen sound k := by
    intro heq hnone hnone'
    obtain ⟨rfl, rfl⟩ := Prod.mk.inj (Option.some.inj heq)
    refine ⟨⟨rfl, rfl⟩, hdrop, rfl, nofun, fun k ↦ ?_⟩
    obtain ⟨hticks, hslots⟩ := then_of_nil hnone k
    obtain ⟨hticks', hslots'⟩ := then_of_nil hnone' k
    exact ⟨hticks'.trans hticks.symm, hslots'.trans hslots.symm⟩
  unfold startNote at hs
  cases sound with
  | false => exact hskip hs rfl rfl
  | true =>
    rcases activateNote_cases L L.nextNoteToPlay with ⟨x, hx, hact⟩ | ⟨hfull, hact⟩
    · simp only [hact, Option.map_eq_some_iff] at hs
      obtain ⟨ticks, hticks, heq⟩ := hs
      obtain ⟨rfl, rfl⟩ := Prod.mk.inj heq
      obtain ⟨_, rfl⟩ := int_eq_some_iff.mp hticks
      obtain ⟨hlt, hfree⟩ := List.getElem?_eq_some_iff.mp hx
      have hall := toStart_cons hrest hon hx
        (Function.update L.ticks2off L.nextNoteToPlay (n.length + 1))
      refine ⟨⟨rfl, List.length_set ..⟩, hdrop, rfl, by simp, fun k ↦ ⟨?_, ?_⟩⟩
      · by_cases hk : k = L.nextNoteToPlay
        · have hin : k ∈ L.toStart true := by
            rw [hall, hk]
            exact List.mem_cons_self
          -- the notes behind it are others
          refine (if_neg fun hmem ↦ ?_).trans (Eq.trans ?_ (if_pos hin).symm)
          · have hlater := (List.mem_range'_1.mp (List.mem_of_mem_take hmem)).1
            dsimp only at hlater
            omega
          · rw [hk, hn]
            exact Function.update_self ..
        · refine if_congr ?_ rfl (Function.update_of_ne hk ..)
          rw [hall, List.mem_cons, or_iff_right hk]
      · rw [slotsThen, slotsThen, hall, List.count_cons, List.count_set hlt, hfree]
        simp only [beq_iff_eq, reduceCtorEq, if_false, Option.some.injEq]
        omega
    · simp only [hact] at hs
      have hnone : ∀ M : Loop, M.activeNote = L.activeNote → M.toStart true = [] := by
        intro M hM
        rw [toStart, if_pos rfl, hM, hfull, List.take_zero]
      refine hskip hs (hnone L rfl) (hnone L' ?_)
      obtain ⟨_, rfl⟩ := Prod.mk.inj (Option.some.inj hs)
      rfl

/-- `process_note_on` leaves the counts and the slots that were to be expected. -/
theorem startNotes_then {sound : Bool} {L L' : Loop} {rest : List NoteEntry}
    {events : List LoopEvent} (hrest : L.note.drop L.nextNoteToPlay = rest)
    (hs : startNotes sound rest L = some (events, L')) :
    SameNotes L L' ∧ (∀ e ∈ events, ∃ n ∈ L.note, e = .noteOn n) ∧
      ∀ k, L'.ticks2off k = L.ticksThen sound k ∧
        L'.activeNote.count (some k) = L.slotsThen sound k := by
  induction rest generalizing L L' events with
  | nil =>
    obtain ⟨rfl, rfl⟩ := Prod.mk.inj (Option.some.inj hs)
    have hnone : L.toStart sound = [] := toStart_of_due (by rw [due, hrest]; rfl)
    exact ⟨.refl L, List.forall_mem_nil _, fun k ↦ ((then_of_nil hnone k).imp Eq.symm Eq.symm)⟩
  | cons n rest ih =>
    rw [startNotes] at hs
    split at hs
    · next hon =>
      simp only [Option.bind_eq_bind, Option.bind_eq_some_iff] at hs
      obtain ⟨⟨e₁, L₁⟩, h₁, ⟨e₂, L₂⟩, h₂, heq⟩ := hs
      obtain ⟨rfl, rfl⟩ := Prod.mk.inj (Option.some.inj heq)
      obtain ⟨hsame, hrest₁, -, hfirst, hthen⟩ := startNote_then hrest hon h₁
      obtain ⟨hsame', hothers, hnow⟩ := ih hrest₁ h₂
      have hn : n ∈ L.note := List.mem_of_mem_drop (hrest ▸ List.mem_cons_self)
      refine ⟨hsame.trans hsame', List.forall_mem_append.mpr ⟨?_, ?_⟩, fun k ↦ ?_⟩
      · exact fun e he ↦ ⟨n, hn, hfirst e he⟩
      · rw [hsame.note] at hothers
        exact hothers
      · exact ⟨(hnow k).1.trans (hthen k).1, (hnow k).2.trans (hthen k).2⟩
    · next hlater =>
      obtain ⟨rfl, rfl⟩ := Prod.mk.inj (Option.some.inj hs)
      have hnone : L.toStart sound = [] := toStart_of_due (by
        rw [due, hrest, List.takeWhile_cons_of_neg (by simpa using hlater)]
        rfl)
      exact ⟨.refl L, List.forall_mem_nil _, fun k ↦ ((then_of_nil hnone k).imp Eq.symm Eq.symm)⟩

theorem sameNotes_endNote (L : Loop) (slot : Nat) :
    SameNotes L (L.endNote slot).2 ∧ ∀ e ∈ (L.endNote slot).1, ∃ n, e = .noteOff n := by
  rw [endNote]
  split
  · split
    · exact ⟨⟨rfl, rfl⟩, nofun⟩
    · refine ⟨⟨rfl, List.length_set ..⟩, fun e he ↦ ?_⟩
      obtain ⟨n, -, rfl⟩ := List.mem_map.mp he
      exact ⟨n, rfl⟩
  · exact ⟨.refl L, nofun⟩

theorem sameNotes_endNotes (slots : List Nat) (L : Loop) :
    SameNotes L (endNotes slots L).2 ∧ ∀ e ∈ (endNotes slots L).1, ∃ n, e = .noteOff n := by
  induction slots generalizing L with
  | nil => exact ⟨.refl L, nofun⟩
  | cons slot slots ih =>
    obtain ⟨hsame, hevents⟩ := sameNotes_endNote L slot
    obtain ⟨hsame', hevents'⟩ := ih (L.endNote slot).2
    rw [endNotes_cons]
    exact ⟨hsame.trans hsame', List.forall_mem_append.mpr ⟨hevents, hevents'⟩⟩

/-- The slots of a list in which a note is. -/
def slotsOf (L : Loop) (k : Nat) (slots : List Nat) : Nat :=
  slots.countP fun x ↦ L.activeNote[x]? = some (some k)

theorem slotsOf_cons (L : Loop) (k slot : Nat) (slots : List Nat) : L.slotsOf k (slot :: slots) =
    L.slotsOf k slots + if L.activeNote[slot]? = some (some k) then 1 else 0 := by
  rw [slotsOf, List.countP_cons, slotsOf]
  simp only [decide_eq_true_eq]

theorem slotsOf_deactivateNote {L : Loop} {k j : Nat} (hne : k ≠ j) (slots : List Nat) :
    (L.deactivateNote k).slotsOf j slots = L.slotsOf j slots := by
  refine List.countP_congr fun x _ ↦ ?_
  show decide ((L.activeNote.set (L.activeNote.idxOf (some k)) none)[x]? = some (some j)) = true ↔ _
  rw [decide_eq_true_iff, decide_eq_true_iff, List.getElem?_set]
  split
  · next hx =>
    refine iff_of_false (by split <;> nofun) fun hj ↦ ?_
    obtain ⟨hlt, hget⟩ := List.getElem?_eq_some_iff.mp hj
    have hk := List.getElem_idxOf (hx ▸ hlt)
    simp only [hx] at hk
    exact hne (Option.some.inj (hk.symm.trans hget))
  · exact .rfl

/-- No note is ended if every note has a count for each of its slots. -/
theorem endNotes_eq_nil_iff (slots : List Nat) (L : Loop) : (endNotes slots L).1 = [] ↔
    ∀ k < L.note.length, L.slotsOf k slots ≤ (L.ticks2off k).toNat := by
  induction slots generalizing L with
  | nil => exact iff_of_true rfl fun _ _ ↦ Nat.zero_le _
  | cons slot slots ih =>
    rw [endNotes_cons, List.append_eq_nil_iff, ih, endNote]
    split
    · next k hk =>
      have hslot : ∀ j, L.slotsOf j (slot :: slots) =
          L.slotsOf j slots + if k = j then 1 else 0 := by
        intro j
        rw [slotsOf_cons, hk]
        simp only [Option.some.injEq]
      split
      · next hpos =>
        -- the note is counted down, as it is in one slot less
        refine (and_iff_right rfl).trans (forall₂_congr fun j _ ↦ ?_)
        rw [hslot]
        show L.slotsOf j slots ≤ (Function.update L.ticks2off k (L.ticks2off k - 1) j).toNat ↔ _
        by_cases hj : k = j
        · rw [← hj, Function.update_self, if_pos rfl]
          omega
        · rw [Function.update_of_ne (Ne.symm hj), if_neg hj, Nat.add_zero]
      · next hzero =>
        by_cases hlt : k < L.note.length
        · refine iff_of_false (fun hnone ↦ ?_) fun hall ↦ ?_
          · rw [List.getElem?_eq_getElem hlt] at hnone
            exact absurd hnone.1 nofun
          · have hle := hall k hlt
            rw [hslot, if_pos rfl] at hle
            omega
        · rw [List.getElem?_eq_none (Nat.le_of_not_lt hlt)]
          refine (and_iff_right rfl).trans (forall₂_congr fun j hj ↦ ?_)
          have hne : k ≠ j := fun he ↦ hlt (he ▸ hj)
          rw [hslot, if_neg hne, Nat.add_zero, slotsOf_deactivateNote hne]
          rfl
    · next hnone =>
      refine (and_iff_right rfl).trans (forall₂_congr fun j _ ↦ ?_)
      rw [slotsOf_cons, if_neg (hnone j), Nat.add_zero]

theorem slotsOf_range {L : Loop} (h : L.activeNote.length = maxActiveNotes) (k : Nat) :
    L.slotsOf k (List.range maxActiveNotes) = L.activeNote.count (some k) := by
  have hall : (List.range L.activeNote.length).map (fun x ↦ L.activeNote[x]?) =
      L.activeNote.map some := by
    refine List.ext_getElem (by simp) fun x hx hx' ↦ ?_
    rw [List.getElem_map, List.getElem_map, List.getElem_range,
      List.getElem?_eq_getElem (by simpa using hx)]
  have hcount : L.slotsOf k (List.range L.activeNote.length) =
      ((List.range L.activeNote.length).map fun x ↦ L.activeNote[x]?).countP
        fun slot ↦ slot = some (some k) := by
    rw [List.countP_map]
    rfl
  rw [← h, hcount, hall, List.countP_map, List.count_eq_countP]
  exact List.countP_congr fun slot _ ↦ by simp

end Loop

theorem toInt_charArgument (byte : UInt8) : (charArgument byte).toInt = byte.toNat := by
  have hlt := byte.toNat_lt
  have hnat : byte.toUInt32.toBitVec.toNat = byte.toNat := UInt8.toNat_toUInt32 byte
  show byte.toUInt32.toBitVec.toInt = byte.toNat
  rw [BitVec.toInt_eq_toNat_of_lt (by omega), hnat]

/-- A byte that has been masked is a data byte. -/
theorem isDataByte_of_masked {byte : UInt8} (h : byte &&& 0x7f = byte) :
    IsDataByte (charArgument byte).toInt := by
  have hle : (byte &&& 0x7f).toNat ≤ 127 := Nat.and_le_right
  rw [h] at hle
  rw [toInt_charArgument, IsDataByte]
  omega

namespace LoopEvent

/-- A note that has been through `set_to` is started with data bytes. -/
theorem wellFormed_noteOn {n : NoteEntry} (h : n.setTo = n) : (noteOn n).WellFormed := by
  refine List.forall_mem_cons.mpr ⟨isDataByte_of_masked (congrArg NoteEntry.note h), ?_⟩
  exact List.forall_mem_singleton.mpr (isDataByte_of_masked (congrArg NoteEntry.velocity h))

/-- 0x80 is no data byte. -/
theorem not_wellFormed_noteOff (n : NoteEntry) : ¬ (noteOff n).WellFormed := by
  intro h
  have hbyte := h (0x80 : Int32).toInt (List.mem_cons_of_mem _ List.mem_cons_self)
  exact absurd hbyte (by decide)

end LoopEvent

/-- A tick of a loop is well formed if no note comes to its end. -/
theorem Loop.InRange.process {L L' : Loop} (h : L.InRange) {sound : Bool} {events : List LoopEvent}
    (hp : L.process sound = some (events, L')) : L'.InRange ∧
      ((∀ e ∈ events, e.WellFormed) ↔ L.endsNote sound = false) := by
  simp only [Loop.process, Option.bind_eq_some_iff, Option.map_eq_some_iff, Prod.mk.injEq] at hp
  obtain ⟨⟨started, L₁⟩, hon, position, -, rfl, rfl⟩ := hp
  obtain ⟨hsame, hstarted, hthen⟩ := Loop.startNotes_then rfl hon
  obtain ⟨hsame', hended⟩ : Loop.SameNotes L₁ L₁.processNoteOff.2 ∧
      ∀ e ∈ L₁.processNoteOff.1, ∃ n, e = .noteOff n := Loop.sameNotes_endNotes ..
  have hnone : L₁.processNoteOff.1 = [] ↔ ∀ k < L₁.note.length,
      L₁.slotsOf k (List.range maxActiveNotes) ≤ (L₁.ticks2off k).toNat :=
    Loop.endNotes_eq_nil_iff ..
  generalize L₁.processNoteOff = ended at hsame' hended hnone ⊢
  have hrange := (h.congr hsame).congr hsame'
  have hslots := hsame.slots.trans h.slots
  have hon : ∀ e ∈ started, e.WellFormed := by
    intro e he
    obtain ⟨n, hn, rfl⟩ := hstarted e he
    exact LoopEvent.wellFormed_noteOn (h.notes n hn)
  have hoff : (∀ e ∈ ended.1, e.WellFormed) ↔ ended.1 = [] := by
    refine ⟨fun hall ↦ List.eq_nil_iff_forall_not_mem.mpr fun e he ↦ ?_, fun hnil ↦ ?_⟩
    · obtain ⟨n, rfl⟩ := hended e he
      exact LoopEvent.not_wellFormed_noteOff n (hall _ he)
    · rw [hnil]
      exact List.forall_mem_nil _
  refine ⟨⟨hrange.slots, hrange.notes⟩, ?_⟩
  rw [List.forall_mem_append, and_iff_right hon, hoff, hnone, hsame.note, Loop.endsNote,
    List.any_eq_false]
  simp only [Loop.slotsOf_range hslots, hthen, List.mem_range, decide_eq_true_eq, not_lt]

namespace LoopPlayer

/-- All loops are in range. -/
def InRange (p : LoopPlayer) : Prop := ∀ loopId L, p.loop loopId = some L → L.InRange

/-- A note of the loop that is played in a tick comes to its end. -/
def endsNote (p : LoopPlayer) (sequencePosition currentTick : Int) (mute : Bool) : Bool :=
  ((p.startLoop sequencePosition currentTick).bind current).any (Loop.endsNote !mute)

theorem InRange.setLoop {p : LoopPlayer} (h : p.InRange) {loopId : Nat} {L L' : Loop}
    (hL : p.loop loopId = some L) (hL' : L'.InRange) : (p.setLoop loopId L').InRange := by
  intro other M hM
  rw [loop_setLoop hL] at hM
  split at hM
  · obtain rfl := Option.some.inj hM
    exact hL'
  · exact h other M hM

theorem InRange.startLoop {p p' : LoopPlayer} (h : p.InRange) {sequencePosition currentTick : Int}
    (hs : p.startLoop sequencePosition currentTick = some p') : p'.InRange := by
  rw [LoopPlayer.startLoop] at hs
  split at hs
  · obtain rfl := Option.some.inj hs
    exact h
  · next loopId _ =>
    obtain ⟨L, hL, rfl⟩ := Option.map_eq_some_iff.mp hs
    exact h.setLoop hL ⟨(h loopId L hL).slots, (h loopId L hL).notes⟩

/-- A tick of the loops is well formed if no note comes to its end. -/
theorem InRange.tick {p p' : LoopPlayer} (h : p.InRange) {sequencePosition currentTick : Int}
    {mute : Bool} {events : List LoopEvent}
    (ht : p.tick sequencePosition currentTick mute = some (events, p')) : p'.InRange ∧
      ((∀ e ∈ events, e.WellFormed) ↔ p.endsNote sequencePosition currentTick mute = false) := by
  rw [LoopPlayer.tick, Option.bind_eq_some_iff] at ht
  obtain ⟨q, hstart, hplay⟩ := ht
  have hq := h.startLoop hstart
  rw [endsNote, hstart, Option.bind_some, current]
  rw [processLoop] at hplay
  split at hplay
  · next hnone =>
    obtain ⟨rfl, rfl⟩ := Prod.mk.inj (Option.some.inj hplay)
    rw [hnone]
    exact ⟨hq, iff_of_true (List.forall_mem_nil _) rfl⟩
  · next loopId hcurrent =>
    split at hplay
    · cases hplay
    · next L hL =>
      obtain ⟨⟨events', L'⟩, hprocess, heq⟩ := Option.map_eq_some_iff.mp hplay
      obtain ⟨rfl, rfl⟩ := Prod.mk.inj heq
      obtain ⟨hL', hevents⟩ := (hq loopId L hL).process hprocess
      rw [hcurrent, Option.bind_some, hL]
      exact ⟨hq.setLoop hL hL', hevents⟩

end LoopPlayer

/-! ## Envelopes -/

namespace ControllerEnvelope

/-- A call that finds a value uses the controllers of MIDI only. -/
def playsWell (e : ControllerEnvelope) (t : Int) : Bool :=
  axisFits e.controllerCoarse e.controllerFine ||
    match e.find t with
    | .nothing | .stale => true
    | .point _ | .line .. => false

theorem forall_calls_iff (e : ControllerEnvelope) (y : Int) :
    (∀ c ∈ e.calls y, c.WellFormed) ↔ axisFits e.controllerCoarse e.controllerFine = true := by
  have hcoarse := isDataByte_emod (y / 128)
  have hfine := isDataByte_emod y
  rw [calls]
  by_cases hlow : (0 ≤ e.controllerCoarse && e.controllerCoarse < 128) = true
  · have hin : IsDataByte e.controllerCoarse := by
      rw [Bool.and_eq_true, decide_eq_true_iff, decide_eq_true_iff] at hlow
      exact ⟨hlow.1, by omega⟩
    rw [if_pos hlow, axisFits_of_coarse hin, forall_controllers_iff hin hcoarse hfine]
  · have hout : ¬ IsDataByte e.controllerCoarse := by
      rw [Bool.and_eq_true, decide_eq_true_iff, decide_eq_true_iff] at hlow
      unfold IsDataByte
      omega
    rw [if_neg hlow, axisFits_of_other hout]
    refine iff_of_true ?_ rfl
    split
    · exact List.forall_mem_singleton.mpr ⟨hfine, hcoarse⟩
    · nofun

/-- A call is well formed if it finds no value, or uses the controllers of MIDI only. -/
theorem forall_processEnvelope_iff {e : ControllerEnvelope} {t : Int} {calls : List PadCall}
    (h : (e.processEnvelope t).1 = some calls) :
    (∀ c ∈ calls, c.WellFormed) ↔ e.playsWell t = true := by
  rw [playsWell, Bool.or_eq_true]
  rw [processEnvelope] at h
  cases hfind : e.find t with
  | nothing =>
    rw [hfind] at h
    obtain rfl := Option.some.inj h
    exact iff_of_true (List.forall_mem_nil _) (.inr rfl)
  | stale =>
    rw [hfind] at h
    cases h
  | point n =>
    rw [hfind] at h
    obtain rfl := Option.some.inj h
    rw [forall_calls_iff, or_iff_left Bool.false_ne_true]
  | line n previousC =>
    rw [hfind] at h
    obtain ⟨p, -, hvalue⟩ := Option.bind_eq_some_iff.mp h
    obtain ⟨y, -, rfl⟩ := Option.map_eq_some_iff.mp hvalue
    rw [forall_calls_iff, or_iff_left Bool.false_ne_true]

end ControllerEnvelope

/-! ## The sequencer -/

/-- What is queued in a round. -/
inductive QueuedCall
  | pad (c : PadCall)
  | loop (e : LoopEvent)
  deriving DecidableEq

/-- The message of the call is one of MIDI. -/
def QueuedCall.WellFormed : QueuedCall → Prop
  | .pad c => c.WellFormed
  | .loop e => e.WellFormed

/-- The members of `MachineSequencer` that queue events, `src_jni/machine_sequencer.hh:279–311`. -/
structure EventSources where
  loops : LoopPlayer
  pad : Pad
  envelopes : List ControllerEnvelope

/-- What is done with a sequencer. Loops may be edited in any way. -/
inductive SourceOp
  | round (noSound : Bool) (sequencePosition currentTick : Int) (around : PadSurroundings)
  | pad (op : PadOp)
  | envelope (k : Nat) (op : EnvelopeOp)
  | addEnvelope (e : ControllerEnvelope)
  | editLoops (loops : LoopPlayer)
  | reset

/-- `process_controller_envelopes`, `src_jni/machine_sequencer.cc:695–703`. -/
def processControllerEnvelopes (tick : Int) :
    List ControllerEnvelope → Option (List PadCall × List ControllerEnvelope)
  | [] => some ([], [])
  | e :: rest => do
    let calls ← (e.processEnvelope tick).1
    let (more, rest) ← processControllerEnvelopes tick rest
    some (calls ++ more, (e.processEnvelope tick).2 :: rest)

namespace EventSources

/-- One round of the loop in `fill_buffers`, `src_jni/machine_sequencer.cc:734–753`. -/
def round (noSound : Bool) (sequencePosition currentTick : Int) (around : PadSurroundings)
    (s : EventSources) : Option (List QueuedCall × EventSources) := do
  let time := padTime sequencePosition currentTick
  let (padCalls, pad) := s.pad.perform (.process noSound time around)
  let (events, loops) ← s.loops.tick sequencePosition currentTick noSound
  let (calls, envelopes) ← processControllerEnvelopes time s.envelopes
  some (padCalls.map .pad ++ events.map .loop ++ calls.map .pad, ⟨loops, pad, envelopes⟩)

/-- One operation, with what it queues. `reset` is `src_jni/machine_sequencer.cc:774–777`. -/
def step (s : EventSources) : SourceOp → Option (List QueuedCall × EventSources)
  | .round noSound sequencePosition currentTick around =>
    s.round noSound sequencePosition currentTick around
  | .pad op => some ((s.pad.perform op).1.map .pad, { s with pad := (s.pad.perform op).2 })
  | .envelope k op => do
    let e ← s.envelopes[k]?
    let (calls, e) ← e.step op
    some ((← calls).map .pad, { s with envelopes := s.envelopes.set k e })
  | .addEnvelope e => some ([], { s with envelopes := s.envelopes ++ [e] })
  | .editLoops loops => some ([], { s with loops := loops })
  | .reset =>
    some ([], { s with loops := { s.loops with currentLoop := none }, pad := s.pad.reset })

/-- The notes that come into the loops have been through `set_to`, and the keys that the pad
computes are in range. -/
def Bounded (s : EventSources) : SourceOp → Prop
  | .round noSound sequencePosition currentTick around =>
    s.pad.inKey (.process noSound (padTime sequencePosition currentTick) around) = true
  | .pad op => s.pad.inKey op = true
  | .editLoops loops => loops.InRange
  | _ => True

/-- No note of a loop comes to its end, no motion of the pad ends a note that is not there, and the
controllers that are used are those of MIDI. -/
def playsWell (s : EventSources) : SourceOp → Bool
  | .round noSound sequencePosition currentTick around =>
    let time := padTime sequencePosition currentTick
    s.pad.playsWell (.process noSound time around) &&
      !s.loops.endsNote sequencePosition currentTick noSound &&
      s.envelopes.all fun e ↦ e.playsWell time
  | .pad op => s.pad.playsWell op
  | .envelope k (.processEnvelope t) => s.envelopes[k]?.all fun e ↦ e.playsWell t
  | _ => true

end EventSources

/-- Nothing has been played of a finger that is new or has been read from a project file. -/
structure PadFinger.AtRest (F : PadFinger) : Prop where
  playing : F.playingMotions = []
  recorded : ∀ k ∈ F.recorded, k < F.fresh
  motions : ∀ k, (F.motions k).index = -1 ∧ (F.motions k).arperator = .new ∧
    (F.motions k).lastChord = noChord

/-- The pad is new, or has been read from a project file. -/
def Pad.AtRest (p : Pad) : Prop := ∀ s ∈ p.recordedSessions, ∀ f, (s.finger f).AtRest

theorem PadFinger.AtRest.inRange {F : PadFinger} (h : F.AtRest) : F.InRange := by
  refine ⟨fun k ↦ ?_, h.playing ▸ .nil, fun k hk ↦ ?_, h.recorded⟩
  · obtain ⟨hindex, harp, hchord⟩ := h.motions k
    refine ⟨harp ▸ Arpeggiator.inRange_new, fun hplayed ↦ ?_, fun n hn ↦ ?_⟩
    · rw [hindex] at hplayed
      exact absurd hplayed PadMotion.not_played
    · rw [hchord] at hn
      exact .inl (List.eq_of_mem_replicate hn)
  · rw [h.playing] at hk
    cases hk

theorem forall_processControllerEnvelopes_iff {tick : Int} {es es' : List ControllerEnvelope}
    {calls : List PadCall} (h : processControllerEnvelopes tick es = some (calls, es')) :
    (∀ c ∈ calls, c.WellFormed) ↔ (es.all fun e ↦ e.playsWell tick) = true := by
  induction es generalizing calls es' with
  | nil =>
    obtain ⟨rfl, -⟩ := Prod.mk.inj (Option.some.inj h)
    exact iff_of_true (List.forall_mem_nil _) rfl
  | cons e rest ih =>
    simp only [processControllerEnvelopes, Option.bind_eq_bind, Option.bind_eq_some_iff] at h
    obtain ⟨first, hfirst, ⟨more, rest'⟩, hrest, heq⟩ := h
    obtain ⟨rfl, -⟩ := Prod.mk.inj (Option.some.inj heq)
    rw [List.forall_mem_append, ControllerEnvelope.forall_processEnvelope_iff hfirst, ih hrest,
      List.all_cons, Bool.and_eq_true]

namespace EventSources

/-- The loops and the motions of the pad are in range. -/
structure InRange (s : EventSources) : Prop where
  loops : s.loops.InRange
  pad : s.pad.InRange

/-- What every operation does. -/
theorem InRange.step {s s' : EventSources} (h : s.InRange) {op : SourceOp} (hop : s.Bounded op)
    {calls : List QueuedCall} (hstep : s.step op = some (calls, s')) :
    s'.InRange ∧ ((∀ c ∈ calls, c.WellFormed) ↔ s.playsWell op = true) := by
  cases op with
  | round noSound sequencePosition currentTick around =>
    obtain ⟨hpad, hpadCalls⟩ := h.pad.perform hop
    simp only [EventSources.step, round, Option.bind_eq_bind, Option.bind_eq_some_iff] at hstep
    obtain ⟨⟨events, loops⟩, htick, ⟨more, envelopes⟩, henvelopes, heq⟩ := hstep
    obtain ⟨rfl, rfl⟩ := Prod.mk.inj (Option.some.inj heq)
    obtain ⟨hloops, hevents⟩ := h.loops.tick htick
    refine ⟨⟨hloops, hpad⟩, ?_⟩
    rw [List.forall_mem_append, List.forall_mem_append, List.forall_mem_map, List.forall_mem_map,
      List.forall_mem_map]
    rw [playsWell, Bool.and_eq_true, Bool.and_eq_true, Bool.not_eq_true']
    exact and_congr (and_congr hpadCalls hevents) (forall_processControllerEnvelopes_iff henvelopes)
  | pad op =>
    obtain ⟨hpad, hpadCalls⟩ := h.pad.perform hop
    obtain ⟨rfl, rfl⟩ := Prod.mk.inj (Option.some.inj hstep)
    refine ⟨⟨h.loops, hpad⟩, ?_⟩
    rw [List.forall_mem_map]
    exact hpadCalls
  | envelope k op =>
    simp only [EventSources.step, Option.bind_eq_bind, Option.bind_eq_some_iff] at hstep
    obtain ⟨e, he, ⟨calls', e'⟩, hcall, calls'', rfl, heq⟩ := hstep
    obtain ⟨rfl, rfl⟩ := Prod.mk.inj (Option.some.inj heq)
    refine ⟨⟨h.loops, h.pad⟩, ?_⟩
    rw [List.forall_mem_map]
    cases op with
    | processEnvelope t =>
      obtain ⟨hcalls, -⟩ := Prod.mk.inj (Option.some.inj hcall)
      rw [playsWell, he]
      exact ControllerEnvelope.forall_processEnvelope_iff hcalls
    | setControlPointLine | deleteControlPointRange =>
      obtain ⟨_, -, heq⟩ := Option.map_eq_some_iff.mp hcall
      obtain ⟨hcalls, -⟩ := Prod.mk.inj heq
      obtain rfl := Option.some.inj hcalls
      exact iff_of_true (List.forall_mem_nil _) rfl
    | _ =>
      obtain ⟨hcalls, -⟩ := Prod.mk.inj (Option.some.inj hcall)
      obtain rfl := Option.some.inj hcalls
      exact iff_of_true (List.forall_mem_nil _) rfl
  | addEnvelope e =>
    obtain ⟨rfl, rfl⟩ := Prod.mk.inj (Option.some.inj hstep)
    exact ⟨⟨h.loops, h.pad⟩, iff_of_true (List.forall_mem_nil _) rfl⟩
  | editLoops loops =>
    obtain ⟨rfl, rfl⟩ := Prod.mk.inj (Option.some.inj hstep)
    exact ⟨⟨hop, h.pad⟩, iff_of_true (List.forall_mem_nil _) rfl⟩
  | reset =>
    obtain ⟨rfl, rfl⟩ := Prod.mk.inj (Option.some.inj hstep)
    exact ⟨⟨h.loops, h.pad.reset⟩, iff_of_true (List.forall_mem_nil _) rfl⟩

/-- However rounds and edits follow each other, all messages of an operation are ones of MIDI
exactly if no note of a loop comes to its end in it, no motion of the pad ends a note that is not
there, and the fine controllers that are used are those of MIDI. -/
theorem queued_wellFormed_iff {s₀ s s' : EventSources} (hloops : s₀.loops.InRange)
    (hpad : s₀.pad.AtRest) {ops : List SourceOp}
    (hrun : Run EventSources.step (fun s op _ ↦ s.Bounded op) s₀ ops s) {op : SourceOp}
    (hop : s.Bounded op) {calls : List QueuedCall} (hstep : s.step op = some (calls, s')) :
    (∀ c ∈ calls, c.WellFormed) ↔ s.playsWell op = true := by
  have hkeep : ∀ t o r t', InRange t → t.Bounded o → t.step o = some (r, t') → t'.InRange :=
    fun t o r t' ht ho hstep ↦ (ht.step ho hstep).1
  have hs₀ : s₀.InRange := ⟨hloops, fun t ht f ↦ (hpad t ht f).inRange⟩
  have hs : s.InRange := Run.invariant InRange hkeep hrun hs₀
  exact (hs.step hop hstep).2

/-- A sequencer that has not been played: one loop with a note, and one without notes. -/
def unplayed (n : NoteEntry) : EventSources := ⟨Played.twoLoops n, .new, []⟩

theorem inRange_unplayed {n : NoteEntry} (h : n.setTo = n) : (unplayed n).loops.InRange := by
  intro loopId L hL
  match loopId with
  | 0 =>
    obtain rfl := Option.some.inj hL
    exact ⟨List.length_replicate .., List.forall_mem_singleton.mpr h⟩
  | 1 =>
    obtain rfl := Option.some.inj hL
    exact ⟨List.length_replicate .., nofun⟩
  | loopId + 2 => simp [LoopPlayer.loop, unplayed, Played.twoLoops] at hL

/-- A round in the first line. -/
def tickRound (currentTick : Int) : SourceOp := .round false 0 currentTick ⟨none, none⟩

theorem bounded_unplayed (n : NoteEntry) (currentTick : Int) :
    (unplayed n).Bounded (tickRound currentTick) := by
  show (unplayed n).pad.inKey _ = true
  rfl

/-- A note of one tick. -/
def shortNote : NoteEntry := ⟨0, 100, 60, 0, 0⟩

/-- In the first round the note is started. -/
theorem queued_wellFormed_iff_unplayed :
    ∃ s, (unplayed shortNote).step (tickRound 0) = some ([.loop (.noteOn shortNote)], s) ∧
      ((∀ c ∈ [QueuedCall.loop (.noteOn shortNote)], c.WellFormed) ↔
        (unplayed shortNote).playsWell (tickRound 0) = true) := by
  have hstep : ∃ s, (unplayed shortNote).step (tickRound 0) =
      some ([.loop (.noteOn shortNote)], s) := ⟨_, rfl⟩
  obtain ⟨s, hs⟩ := hstep
  have hloops : (unplayed shortNote).loops.InRange := inRange_unplayed rfl
  exact ⟨s, hs, queued_wellFormed_iff hloops nofun (.nil _) (bounded_unplayed _ 0) hs⟩

/-- In the second round it is ended, with a velocity that is no data byte. -/
theorem noteOff_not_wellFormed :
    ¬ ∀ s₀ s s' : EventSources, s₀.loops.InRange → s₀.pad.AtRest → ∀ ops,
      Run EventSources.step (fun s op _ ↦ s.Bounded op) s₀ ops s → ∀ op, s.Bounded op →
      ∀ calls, s.step op = some (calls, s') → ∀ c ∈ calls, c.WellFormed := by
  intro hall
  have hsteps : ∃ s, (unplayed shortNote).step (tickRound 0) =
        some ([.loop (.noteOn shortNote)], s) ∧
      s.pad.inKey (.process false (padTime 0 1) ⟨none, none⟩) = true ∧
      ∃ s', s.step (tickRound 1) = some ([.loop (.noteOff shortNote)], s') :=
    ⟨_, rfl, rfl, _, rfl⟩
  obtain ⟨s, hfirst, hkeys, s', hsecond⟩ := hsteps
  have hrun : Run EventSources.step (fun s op _ ↦ s.Bounded op) _ [tickRound 0] s :=
    .cons hfirst (bounded_unplayed _ 0) (.nil s)
  have hbounded : s.Bounded (tickRound 1) := hkeys
  refine LoopEvent.not_wellFormed_noteOff shortNote ?_
  exact hall _ s s' (inRange_unplayed rfl) nofun _ hrun _ hbounded _ hsecond _ List.mem_cons_self

end EventSources

end Vuknob
