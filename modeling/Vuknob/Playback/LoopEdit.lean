import Mathlib.Data.List.Nodup
import Vuknob.Library.SortedLinks
import Vuknob.Playback.Loop

/-!
# Editing loops

The operations on the notes of `MachineSequencer::Loop`, `src_jni/machine_sequencer.cc:67–449`. Here
a note entry is an object that others point to: `note` is the head of a doubly linked list,
`next_note_to_play` and the slots of `active_note` point into it while the loop is played. Operations
are carried out between ticks, see `machine_operation_enqueue`. New objects are at places that have
not been used before.
-/

namespace Vuknob

open Library

/-- `NoteEntry::set_to`, `src_jni/machine_sequencer.cc:69–76`. -/
def NoteEntry.setTo (original : NoteEntry) : NoteEntry :=
  { original with
    channel := original.channel &&& 0x0f
    velocity := original.velocity &&& 0x7f
    note := original.note &&& 0x7f }

/-- The attributes of a note in a project file, where they are given. -/
structure NoteXml where
  channel : Option Int
  velocity : Option Int
  note : Option Int
  on : Option Int
  onTick : Option Int
  length : Option Int

/-- `PAD_TIME`, `src_jni/machine_sequencer.hh:67`. -/
def padTime (line tick : Int) : Int :=
  ((BitVec.ofInt 32 line <<< 4) &&& 0xfffffff0#32 ||| BitVec.ofInt 32 tick).toInt

/-- The note that is read, `src_jni/machine_sequencer.cc:109–128`; the position and the length of
those with a line are in lines. -/
def NoteXml.read (x : NoteXml) : NoteEntry :=
  let line := x.on.getD (-1)
  let tick := x.onTick.getD 0
  let length := x.length.getD (-1)
  let old := line ≠ -1
  { channel := UInt8.ofInt (x.channel.getD 0)
    velocity := UInt8.ofInt (x.velocity.getD 127)
    note := UInt8.ofInt (x.note.getD 0)
    onAt := if old then padTime line tick else tick
    length := if old then padTime length 0 else length }

/-- `MachineSequencer::Loop`, `src_jni/machine_sequencer.hh:148–157`, with the objects of its notes:
`entry` and `ticks2off` are their memory, `fresh` the first place that has not been used. -/
structure LoopObject where
  entry : Nat → NoteEntry
  ticks2off : Nat → Int
  fresh : Nat
  links : Links Nat
  loopPosition : Int
  nextNoteToPlay : Option Nat
  activeNote : List (Option Nat)

namespace LoopObject

/-- `Loop::Loop`, `src_jni/machine_sequencer.cc:136–142`; nothing reads the memory and the position
before they are written to. -/
def new : LoopObject where
  entry := fun _ ↦ ⟨0, 0x7f, 0, -1, -1⟩
  ticks2off := fun _ ↦ 0
  fresh := 0
  links := .empty
  loopPosition := 0
  nextNoteToPlay := none
  activeNote := List.replicate maxActiveNotes none

/-- The notes that the list leads through. -/
def notes (L : LoopObject) : List Nat := L.links.nodesFrom L.fresh L.links.head

/-- `new_one` goes before `crnt`, `src_jni/machine_sequencer.cc:314`. -/
def goesBefore (entry : Nat → NoteEntry) (newOne crnt : Nat) : Bool :=
  (entry newOne).onAt < (entry crnt).onAt

/-- `internal_insert_note`, `src_jni/machine_sequencer.cc:307–345`, of a new object. -/
def internalInsertNote (n : NoteEntry) (L : LoopObject) : LoopObject :=
  let entry := Function.update L.entry L.fresh n
  { L with
    entry := entry
    links := L.links.insert (goesBefore entry) L.fresh L.fresh
    fresh := L.fresh + 1 }

/-- `internal_delete_note`, `src_jni/machine_sequencer.cc:232–252`; the object is deleted then. -/
def internalDeleteNote (net : Nat) (L : LoopObject) : LoopObject :=
  if net ∈ L.notes then
    { L with
      nextNoteToPlay := if L.nextNoteToPlay = some net then L.links.next net else L.nextNoteToPlay
      links := L.links.unlink net }
  else L

/-- `internal_update_note`, `src_jni/machine_sequencer.cc:274–285`. -/
def internalUpdateNote (original : Nat) (newEntry : NoteEntry) (L : LoopObject) : LoopObject :=
  if original ∈ L.notes then
    { L with entry := Function.update L.entry original newEntry.setTo }
  else L

/-- `internal_clear`, `src_jni/machine_sequencer.cc:368–372`; the objects are deleted then. -/
def internalClear (L : LoopObject) : LoopObject := { L with links := { L.links with head := none } }

/-- `internal_insert_notes`, `src_jni/machine_sequencer.cc:396–406`, of new objects. -/
def internalInsertNotes (newNotes : List NoteEntry) (L : LoopObject) : LoopObject :=
  newNotes.foldl (fun L n ↦ L.internalInsertNote n) L.internalClear

/-- `Loop::Loop`, `src_jni/machine_sequencer.cc:92–134`, for the notes of a project file. -/
def fromXml (xs : List NoteXml) : LoopObject :=
  (xs.map NoteXml.read).foldl
    (fun L n ↦ if 0 ≤ n.length then L.internalInsertNote n.setTo else L) new

/-- `start_to_play`, `src_jni/machine_sequencer.cc:170–173`. -/
def startToPlay (L : LoopObject) : LoopObject :=
  { L with loopPosition := 0, nextNoteToPlay := L.links.head }

/-- `activate_note`, `src_jni/machine_sequencer.cc:175–183`. -/
def activateNote (k : Nat) (L : LoopObject) : Bool × LoopObject :=
  let x := L.activeNote.idxOf none
  if x < L.activeNote.length then
    (true, { L with activeNote := L.activeNote.set x (some k) })
  else (false, L)

/-- `deactivate_note`, `src_jni/machine_sequencer.cc:185–192`. -/
def deactivateNote (k : Nat) (L : LoopObject) : LoopObject :=
  { L with activeNote := L.activeNote.set (L.activeNote.idxOf (some k)) none }

/-- One round of `process_note_on`, `src_jni/machine_sequencer.cc:196–203`. -/
def startNote (sound : Bool) (k : Nat) (L : LoopObject) : Option (List LoopEvent × LoopObject) :=
  match sound, L.activateNote k with
  | true, (true, L') =>
    (int ((L.entry k).length + 1)).map fun ticks ↦
      ([.noteOn (L.entry k)], { L' with
        ticks2off := Function.update L'.ticks2off k ticks, nextNoteToPlay := L.links.next k })
  | _, _ => some ([], { L with nextNoteToPlay := L.links.next k })

/-- The loop of `process_note_on` over the notes from `next_note_to_play` on. -/
def startNotes (sound : Bool) :
    List Nat → LoopObject → Option (List LoopEvent × LoopObject)
  | [], L => some ([], L)
  | k :: rest, L =>
    if (L.entry k).onAt = L.loopPosition then do
      let (event, L) ← L.startNote sound k
      let (events, L) ← startNotes sound rest L
      some (event ++ events, L)
    else some ([], L)

/-- `process_note_on`, `src_jni/machine_sequencer.cc:194–205`. -/
def processNoteOn (sound : Bool) (L : LoopObject) : Option (List LoopEvent × LoopObject) :=
  startNotes sound (L.links.nodesFrom L.fresh L.nextNoteToPlay) L

/-- One round of `process_note_off`, `src_jni/machine_sequencer.cc:208–217`. -/
def endNote (slot : Nat) (L : LoopObject) : List LoopEvent × LoopObject :=
  match L.activeNote[slot]? with
  | some (some k) =>
    if L.ticks2off k > 0 then
      ([], { L with ticks2off := Function.update L.ticks2off k (L.ticks2off k - 1) })
    else ([.noteOff (L.entry k)], L.deactivateNote k)
  | _ => ([], L)

/-- The rounds of `process_note_off` for some slots. -/
def endNotes : List Nat → LoopObject → List LoopEvent × LoopObject
  | [], L => ([], L)
  | slot :: slots, L =>
    let (event, L) := L.endNote slot
    let (events, L) := endNotes slots L
    (event ++ events, L)

/-- `process`, `src_jni/machine_sequencer.cc:221–226`; `sound` is `is_playing && !mute`. -/
def process (sound : Bool) (L : LoopObject) : Option (List LoopEvent × LoopObject) :=
  (L.processNoteOn sound).bind fun (started, L) ↦
    let ended := endNotes (List.range maxActiveNotes) L
    (int (ended.2.loopPosition + 1)).map fun loopPosition ↦
      (started ++ ended.1, { ended.2 with loopPosition := loopPosition })

end LoopObject

/-- What may be done with a loop. `copyLoop` is given the notes of the other loop. -/
inductive LoopOp
  | startToPlay
  | process (sound : Bool)
  | noteInsert (newEntry : NoteEntry)
  | noteDelete (net : Nat)
  | noteUpdate (original : Nat) (newEntry : NoteEntry)
  | clearLoop
  | copyLoop (src : List NoteEntry)

/-- One operation on a loop, with the events it queues. -/
def LoopObject.step (L : LoopObject) : LoopOp → Option (List LoopEvent × LoopObject)
  | .startToPlay => some ([], L.startToPlay)
  | .process sound => L.process sound
  | .noteInsert newEntry => some ([], L.internalInsertNote newEntry.setTo)
  | .noteDelete net => some ([], L.internalDeleteNote net)
  | .noteUpdate original newEntry => some ([], L.internalUpdateNote original newEntry)
  | .clearLoop => some ([], L.internalClear)
  | .copyLoop src => some ([], L.internalInsertNotes (src.map NoteEntry.setTo))

namespace LoopObject

/-! ### The list of the notes -/

/-- The pointers lead through the notes, to and fro, and all of them are objects. -/
structure Linked (L : LoopObject) : Prop where
  leads : L.links.Leads L.notes
  made : ∀ k ∈ L.notes, k < L.fresh

/-- The notes are in the order in which they start. -/
def InOrder (L : LoopObject) : Prop :=
  L.notes.Pairwise fun a b ↦ (L.entry a).onAt ≤ (L.entry b).onAt

theorem notes_of_leads {L : LoopObject} {l : List Nat} (h : L.links.Leads l)
    (hmade : ∀ k ∈ l, k < L.fresh) : L.notes = l := by
  have hwhole : L.links.Leads ([] ++ l) := h
  rw [notes, h.head]
  exact hwhole.nodesFrom (length_le_of_nodup h.nodup hmade)

theorem linked_of_leads {L : LoopObject} {l : List Nat} (h : L.links.Leads l)
    (hmade : ∀ k ∈ l, k < L.fresh) : L.Linked := by
  have hnotes := notes_of_leads h hmade
  exact ⟨hnotes ▸ h, hnotes ▸ hmade⟩

theorem Linked.fresh_notMem {L : LoopObject} (h : L.Linked) : L.fresh ∉ L.notes :=
  fun hmem ↦ absurd (h.made _ hmem) (lt_irrefl _)

/-- The notes after one is inserted. -/
theorem Linked.notes_internalInsertNote {L : LoopObject} (h : L.Linked) (n : NoteEntry) :
    (L.internalInsertNote n).Linked ∧ (L.internalInsertNote n).notes =
      L.notes.orderedInsert
        (fun a b ↦ goesBefore (Function.update L.entry L.fresh n) a b) L.fresh := by
  have hfuel := length_le_of_nodup h.leads.nodup h.made
  have hleads := h.leads.insert (goesBefore (Function.update L.entry L.fresh n)) hfuel
    h.fresh_notMem
  have hmade : ∀ k ∈ L.notes.orderedInsert
      (fun a b ↦ goesBefore (Function.update L.entry L.fresh n) a b) L.fresh,
      k < L.fresh + 1 := by
    intro k hk
    rcases (List.mem_orderedInsert _).mp hk with rfl | hk
    · omega
    · have hlt := h.made k hk
      omega
  exact ⟨linked_of_leads hleads hmade, notes_of_leads hleads hmade⟩

/-- The notes around one of them. -/
theorem Linked.around {L : LoopObject} (h : L.Linked) {k : Nat} (hk : k ∈ L.notes) :
    ∃ front back, L.notes = front ++ k :: back ∧ L.links.prev k = front.getLast? ∧
      L.links.next k = back.head? := by
  obtain ⟨front, back, hnotes⟩ := List.append_of_mem hk
  have hleads := h.leads
  rw [hnotes] at hleads
  refine ⟨front, back, hnotes, ?_, hleads.linked.next_eq⟩
  rw [hleads.linked.prev_eq, Option.or_none]

/-- The notes after one is deleted. -/
theorem Linked.notes_internalDeleteNote {L : LoopObject} (h : L.Linked) (net : Nat) :
    (L.internalDeleteNote net).Linked ∧ (L.internalDeleteNote net).notes = L.notes.erase net := by
  rw [internalDeleteNote]
  split
  · next hnet =>
    obtain ⟨front, back, hnotes, -, -⟩ := h.around hnet
    have hleads := h.leads
    have hmade := h.made
    rw [hnotes] at hleads hmade
    have hfront : net ∉ front := fun hmem ↦
      (List.nodup_cons.mp (List.nodup_middle.mp hleads.nodup)).1 (List.mem_append_left _ hmem)
    rw [hnotes, List.erase_append_right _ hfront, List.erase_cons_head]
    have hmade' : ∀ k ∈ front ++ back, k < L.fresh := by
      intro k hk
      apply hmade
      simp only [List.mem_append, List.mem_cons] at hk ⊢
      tauto
    exact ⟨linked_of_leads hleads.unlink hmade', notes_of_leads hleads.unlink hmade'⟩
  · next hnet => exact ⟨h, (List.erase_of_not_mem hnet).symm⟩

theorem Linked.internalUpdateNote {L : LoopObject} (h : L.Linked) (original : Nat)
    (newEntry : NoteEntry) : (L.internalUpdateNote original newEntry).Linked := by
  rw [LoopObject.internalUpdateNote]
  split
  · exact ⟨h.leads, h.made⟩
  · exact h

theorem notes_internalClear (L : LoopObject) :
    L.internalClear.Linked ∧ L.internalClear.notes = [] := by
  have hleads : L.internalClear.links.Leads [] := ⟨rfl, .nil, trivial⟩
  exact ⟨linked_of_leads hleads nofun, notes_of_leads hleads nofun⟩

theorem linked_new : new.Linked := linked_of_leads (l := []) Links.leads_empty nofun

/-- A note that is inserted comes behind those that start no later. -/
theorem InOrder.internalInsertNote {L : LoopObject} (ho : L.InOrder) (h : L.Linked)
    (n : NoteEntry) : (L.internalInsertNote n).InOrder := by
  have hothers : ∀ k ∈ L.notes, Function.update L.entry L.fresh n k = L.entry k := by
    intro k hk
    exact Function.update_of_ne (Nat.ne_of_lt (h.made k hk)) ..
  rw [InOrder, (h.notes_internalInsertNote n).2]
  refine pairwise_orderedInsert (ho.imp_of_mem fun {b c} hb hc hle ↦ ?_) ?_ ?_ ?_
  · show (Function.update L.entry L.fresh n b).onAt ≤ (Function.update L.entry L.fresh n c).onAt
    rwa [hothers b hb, hothers c hc]
  · intro b _ c _ hbc hb
    simp only [goesBefore, decide_eq_true_eq] at hb ⊢
    exact lt_of_lt_of_le hb hbc
  · intro b _ hb
    exact (of_decide_eq_true hb).le
  · intro b _ hb
    simp only [goesBefore, decide_eq_true_eq] at hb
    exact not_lt.mp hb

theorem InOrder.internalDeleteNote {L : LoopObject} (ho : L.InOrder) (h : L.Linked) (net : Nat) :
    (L.internalDeleteNote net).InOrder := by
  have hentry : (L.internalDeleteNote net).entry = L.entry := by
    rw [LoopObject.internalDeleteNote]
    split <;> rfl
  rw [InOrder, hentry, (h.notes_internalDeleteNote net).2]
  exact List.Pairwise.sublist (List.erase_sublist ..) ho

theorem foldl_insertNote {L : LoopObject} (h : L.Linked) (ho : L.InOrder)
    (newNotes : List NoteEntry) :
    (newNotes.foldl (fun L n ↦ L.internalInsertNote n) L).Linked ∧
      (newNotes.foldl (fun L n ↦ L.internalInsertNote n) L).InOrder := by
  induction newNotes generalizing L with
  | nil => exact ⟨h, ho⟩
  | cons n newNotes ih =>
    exact ih (h.notes_internalInsertNote n).1 (ho.internalInsertNote h n)

theorem internalInsertNotes_linked (newNotes : List NoteEntry) (L : LoopObject) :
    (L.internalInsertNotes newNotes).Linked ∧ (L.internalInsertNotes newNotes).InOrder := by
  obtain ⟨hlinked, hnotes⟩ := L.notes_internalClear
  refine foldl_insertNote hlinked ?_ newNotes
  rw [InOrder, hnotes]
  exact .nil

/-- Loading inserts the notes one after the other, less those of a negative length. -/
theorem fromXml_eq (xs : List NoteXml) : fromXml xs =
    (((xs.map NoteXml.read).filter fun n ↦ 0 ≤ n.length).map NoteEntry.setTo).foldl
      (fun L n ↦ L.internalInsertNote n) new := by
  rw [fromXml]
  generalize xs.map NoteXml.read = ns
  rw [List.foldl_map, List.foldl_filter]
  simp only [decide_eq_true_eq]

theorem fromXml_linked (xs : List NoteXml) : (fromXml xs).Linked ∧ (fromXml xs).InOrder := by
  rw [fromXml_eq]
  refine foldl_insertNote linked_new ?_ _
  rw [InOrder, notes_of_leads (l := []) Links.leads_empty nofun]
  exact .nil

/-- An update that leaves the note between the notes around it. -/
def fits (L : LoopObject) (original : Nat) (newEntry : NoteEntry) : Bool :=
  original ∉ L.notes ||
    (L.links.prev original).all (fun p ↦ (L.entry p).onAt ≤ newEntry.onAt) &&
      (L.links.next original).all fun n ↦ newEntry.onAt ≤ (L.entry n).onAt

/-- An update leaves the notes in order exactly when it fits. -/
theorem InOrder.internalUpdateNote_iff {L : LoopObject} (ho : L.InOrder) (h : L.Linked)
    (original : Nat) (newEntry : NoteEntry) :
    (L.internalUpdateNote original newEntry).InOrder ↔ L.fits original newEntry = true := by
  rw [LoopObject.internalUpdateNote, fits]
  split
  · next hmem =>
    obtain ⟨front, back, hnotes, hprev, hnext⟩ := h.around hmem
    have hnodup := h.leads.nodup
    have hpairs : L.notes.Pairwise fun a b ↦ (L.entry a).onAt ≤ (L.entry b).onAt := ho
    rw [hnotes] at hnodup hpairs
    have hself : (Function.update L.entry original newEntry.setTo original).onAt =
        newEntry.onAt := by
      rw [Function.update_self]
      rfl
    have hothers : ∀ c, c ≠ original →
        (Function.update L.entry original newEntry.setTo c).onAt = (L.entry c).onAt :=
      fun c hc ↦ congrArg NoteEntry.onAt (Function.update_of_ne hc ..)
    have hiff := pairwise_of_key_iff hnodup hothers hpairs
    rw [hself] at hiff
    rw [InOrder]
    show L.notes.Pairwise _ ↔ _
    rw [hprev, hnext, hnotes, hiff, ← hnotes]
    simp [hmem, Option.all_eq_true]
  · next hmem => simp [hmem, ho]

/-! ### Playing -/

/-- The notes are what they were. -/
structure SameNotes (L L' : LoopObject) : Prop where
  entry : L'.entry = L.entry
  links : L'.links = L.links
  fresh : L'.fresh = L.fresh

theorem SameNotes.rfl {L : LoopObject} : L.SameNotes L := ⟨Eq.refl _, Eq.refl _, Eq.refl _⟩

theorem SameNotes.trans {L₁ L₂ L₃ : LoopObject} (h : L₁.SameNotes L₂) (h' : L₂.SameNotes L₃) :
    L₁.SameNotes L₃ :=
  ⟨h'.entry.trans h.entry, h'.links.trans h.links, h'.fresh.trans h.fresh⟩

theorem SameNotes.notes {L L' : LoopObject} (h : L.SameNotes L') : L'.notes = L.notes := by
  rw [LoopObject.notes, LoopObject.notes, h.links, h.fresh]

theorem SameNotes.linked {L L' : LoopObject} (h : L.SameNotes L') (hl : L.Linked) : L'.Linked := by
  refine ⟨?_, ?_⟩
  · rw [h.links, h.notes]
    exact hl.leads
  · rw [h.fresh, h.notes]
    exact hl.made

theorem SameNotes.inOrder_iff {L L' : LoopObject} (h : L.SameNotes L') :
    L'.InOrder ↔ L.InOrder := by
  rw [InOrder, InOrder, h.entry, h.notes]

/-- Where `next_note_to_play` points after a round of `process_note_on`, and that a slot holds the
note or what it held. -/
theorem startNote_spec {sound : Bool} {k : Nat} {L L' : LoopObject} {events : List LoopEvent}
    (h : L.startNote sound k = some (events, L')) :
    L.SameNotes L' ∧ L'.loopPosition = L.loopPosition ∧ L'.nextNoteToPlay = L.links.next k ∧
      ∀ a ∈ L'.activeNote, a ∈ L.activeNote ∨ a = some k := by
  unfold startNote at h
  split at h
  · next hactivated =>
    rw [activateNote] at hactivated
    split at hactivated
    · obtain ⟨-, rfl⟩ := Prod.mk.inj hactivated
      obtain ⟨ticks, -, hticks⟩ := Option.map_eq_some_iff.mp h
      obtain ⟨-, rfl⟩ := Prod.mk.inj hticks
      exact ⟨⟨rfl, rfl, rfl⟩, rfl, rfl, fun a ha ↦ List.mem_or_eq_of_mem_set ha⟩
    · exact absurd (Prod.mk.inj hactivated).1 nofun
  · obtain ⟨-, rfl⟩ := Prod.mk.inj (Option.some.inj h)
    exact ⟨⟨rfl, rfl, rfl⟩, rfl, rfl, fun a ha ↦ .inl ha⟩

theorem startNotes_sameNotes {sound : Bool} {rest : List Nat} {L L' : LoopObject}
    {events : List LoopEvent} (h : L.startNotes sound rest = some (events, L')) :
    L.SameNotes L' := by
  induction rest generalizing L events with
  | nil =>
    obtain ⟨-, rfl⟩ := Prod.mk.inj (Option.some.inj h)
    exact .rfl
  | cons k rest ih =>
    rw [startNotes] at h
    split at h
    · obtain ⟨⟨event, L₁⟩, hstart, h⟩ := Option.bind_eq_some_iff.mp h
      obtain ⟨⟨events', L₂⟩, hrest, h⟩ := Option.bind_eq_some_iff.mp h
      obtain ⟨-, rfl⟩ := Prod.mk.inj (Option.some.inj h)
      exact (startNote_spec hstart).1.trans (ih hrest)
    · obtain ⟨-, rfl⟩ := Prod.mk.inj (Option.some.inj h)
      exact .rfl

/-- A round of `process_note_off` can only empty slots. -/
theorem endNote_spec (slot : Nat) (L : LoopObject) :
    L.SameNotes (L.endNote slot).2 ∧ (L.endNote slot).2.nextNoteToPlay = L.nextNoteToPlay ∧
      ∀ a ∈ (L.endNote slot).2.activeNote, a ∈ L.activeNote ∨ a = none := by
  rw [endNote]
  split
  · split
    · exact ⟨⟨rfl, rfl, rfl⟩, rfl, fun a ha ↦ .inl ha⟩
    · exact ⟨⟨rfl, rfl, rfl⟩, rfl, fun a ha ↦ List.mem_or_eq_of_mem_set ha⟩
  · exact ⟨.rfl, rfl, fun a ha ↦ .inl ha⟩

theorem endNotes_spec (slots : List Nat) (L : LoopObject) :
    L.SameNotes (L.endNotes slots).2 ∧ (L.endNotes slots).2.nextNoteToPlay = L.nextNoteToPlay ∧
      ∀ a ∈ (L.endNotes slots).2.activeNote, a ∈ L.activeNote ∨ a = none := by
  induction slots generalizing L with
  | nil => exact ⟨.rfl, rfl, fun a ha ↦ .inl ha⟩
  | cons slot slots ih =>
    obtain ⟨hsame, hnext, hactive⟩ := L.endNote_spec slot
    obtain ⟨hsame', hnext', hactive'⟩ := ih (L.endNote slot).2
    refine ⟨hsame.trans hsame', hnext'.trans hnext, fun a ha ↦ ?_⟩
    rcases hactive' a ha with ha | ha
    · exact hactive a ha
    · exact .inr ha

/-- A tick in its parts. -/
theorem process_eq_some {sound : Bool} {L L' : LoopObject} {events : List LoopEvent}
    (h : L.process sound = some (events, L')) : ∃ started L₁ position,
      L.processNoteOn sound = some (started, L₁) ∧
      L' = { (L₁.endNotes (List.range maxActiveNotes)).2 with loopPosition := position } := by
  obtain ⟨⟨started, L₁⟩, hstarted, h⟩ := Option.bind_eq_some_iff.mp h
  obtain ⟨position, -, h⟩ := Option.map_eq_some_iff.mp h
  obtain ⟨-, rfl⟩ := Prod.mk.inj h
  exact ⟨started, L₁, position, hstarted, rfl⟩

theorem process_sameNotes {sound : Bool} {L L' : LoopObject} {events : List LoopEvent}
    (h : L.process sound = some (events, L')) : L.SameNotes L' := by
  obtain ⟨started, L₁, position, hstarted, rfl⟩ := process_eq_some h
  have hended := (endNotes_spec (List.range maxActiveNotes) L₁).1
  generalize (L₁.endNotes (List.range maxActiveNotes)).2 = L₂ at hended ⊢
  exact (startNotes_sameNotes hstarted).trans ⟨hended.entry, hended.links, hended.fresh⟩

/-! ### Runs -/

theorem Linked.step {L L' : LoopObject} {op : LoopOp} {events : List LoopEvent} (h : L.Linked)
    (hstep : L.step op = some (events, L')) : L'.Linked := by
  cases op with
  | process sound => exact (process_sameNotes hstep).linked h
  | startToPlay =>
    obtain ⟨-, rfl⟩ := Prod.mk.inj (Option.some.inj hstep)
    exact ⟨h.leads, h.made⟩
  | noteInsert newEntry =>
    obtain ⟨-, rfl⟩ := Prod.mk.inj (Option.some.inj hstep)
    exact (h.notes_internalInsertNote _).1
  | noteDelete net =>
    obtain ⟨-, rfl⟩ := Prod.mk.inj (Option.some.inj hstep)
    exact (h.notes_internalDeleteNote net).1
  | noteUpdate original newEntry =>
    obtain ⟨-, rfl⟩ := Prod.mk.inj (Option.some.inj hstep)
    exact h.internalUpdateNote original newEntry
  | clearLoop =>
    obtain ⟨-, rfl⟩ := Prod.mk.inj (Option.some.inj hstep)
    exact L.notes_internalClear.1
  | copyLoop src =>
    obtain ⟨-, rfl⟩ := Prod.mk.inj (Option.some.inj hstep)
    exact (internalInsertNotes_linked _ L).1

/-- An operation that keeps the order of the notes. -/
def keepsOrder (L : LoopObject) : LoopOp → Bool
  | .noteUpdate original newEntry => L.fits original newEntry
  | _ => true

/-- The notes are in order after a step exactly when it keeps their order. -/
theorem InOrder.step_iff {L L' : LoopObject} {op : LoopOp} {events : List LoopEvent}
    (ho : L.InOrder) (h : L.Linked) (hstep : L.step op = some (events, L')) :
    L'.InOrder ↔ L.keepsOrder op = true := by
  cases op with
  | process sound => exact iff_of_true ((process_sameNotes hstep).inOrder_iff.mpr ho) rfl
  | startToPlay =>
    obtain ⟨-, rfl⟩ := Prod.mk.inj (Option.some.inj hstep)
    exact iff_of_true ho rfl
  | noteInsert newEntry =>
    obtain ⟨-, rfl⟩ := Prod.mk.inj (Option.some.inj hstep)
    exact iff_of_true (ho.internalInsertNote h _) rfl
  | noteDelete net =>
    obtain ⟨-, rfl⟩ := Prod.mk.inj (Option.some.inj hstep)
    exact iff_of_true (ho.internalDeleteNote h net) rfl
  | noteUpdate original newEntry =>
    obtain ⟨-, rfl⟩ := Prod.mk.inj (Option.some.inj hstep)
    exact ho.internalUpdateNote_iff h original newEntry
  | clearLoop =>
    obtain ⟨-, rfl⟩ := Prod.mk.inj (Option.some.inj hstep)
    refine iff_of_true ?_ rfl
    rw [InOrder, L.notes_internalClear.2]
    exact .nil
  | copyLoop src =>
    obtain ⟨-, rfl⟩ := Prod.mk.inj (Option.some.inj hstep)
    exact iff_of_true (internalInsertNotes_linked _ L).2 rfl

/-- From a loop of a project file on, the list of the notes is linked to and fro in every run. It is
in order as long as no note is updated past one of its neighbours, and no longer. -/
theorem notes_in_order (xs : List NoteXml) :
    (∀ ops L, Run step (fun _ _ _ ↦ True) (fromXml xs) ops L → L.links.Leads L.notes) ∧
    (∀ ops L, Run step (fun L op _ ↦ L.keepsOrder op = true) (fromXml xs) ops L → L.InOrder) ∧
    ∀ ops L op events L', Run step (fun L op _ ↦ L.keepsOrder op = true) (fromXml xs) ops L →
      L.step op = some (events, L') → (L'.InOrder ↔ L.keepsOrder op = true) := by
  have hlinked : ∀ ops L, Run step (fun _ _ _ ↦ True) (fromXml xs) ops L → L.Linked := by
    intro ops L hrun
    exact hrun.invariant Linked (fun _ _ _ _ h _ hstep ↦ h.step hstep) (fromXml_linked xs).1
  have hboth : ∀ ops L, Run step (fun L op _ ↦ L.keepsOrder op = true) (fromXml xs) ops L →
      L.Linked ∧ L.InOrder := by
    intro ops L hrun
    refine hrun.invariant (fun L ↦ L.Linked ∧ L.InOrder) ?_ (fromXml_linked xs)
    rintro L op events L' ⟨h, ho⟩ hkeeps hstep
    exact ⟨h.step hstep, (ho.step_iff h hstep).mpr hkeeps⟩
  refine ⟨fun ops L hrun ↦ (hlinked ops L hrun).leads, fun ops L hrun ↦ (hboth ops L hrun).2, ?_⟩
  intro ops L op events L' hrun hstep
  obtain ⟨h, ho⟩ := hboth ops L hrun
  exact ho.step_iff h hstep

/-- Where the notes start, in the order of the list. -/
def starts (L : LoopObject) : List Int := L.notes.map fun k ↦ (L.entry k).onAt

theorem inOrder_iff_starts {L : LoopObject} : L.InOrder ↔ L.starts.Pairwise (· ≤ ·) := by
  rw [starts, List.pairwise_map]
  rfl

/-- A note that is loaded at 16, one that is inserted at 0 and then moved to 8. -/
theorem notes_in_order_moved : ∃ L,
    Run step (fun L op _ ↦ L.keepsOrder op = true) (fromXml [⟨none, none, some 60, none, some 16,
      some 4⟩]) [.noteInsert ⟨0, 100, 62, 0, 4⟩, .noteUpdate 1 ⟨0, 100, 62, 8, 4⟩] L ∧
    L.starts = [8, 16] ∧ L.links.Leads L.notes ∧ L.InOrder := by
  have hsome : (runAll step (fun L op _ ↦ L.keepsOrder op) (fromXml [⟨none, none, some 60, none,
      some 16, some 4⟩]) [.noteInsert ⟨0, 100, 62, 0, 4⟩, .noteUpdate 1 ⟨0, 100, 62, 8, 4⟩]).map
        starts = some [8, 16] := by
    decide +kernel
  obtain ⟨L, hL, hstarts⟩ := Option.map_eq_some_iff.mp hsome
  have hrun := Run.of_runAll hL
  obtain ⟨hleads, hordered, -⟩ := notes_in_order [⟨none, none, some 60, none, some 16, some 4⟩]
  exact ⟨L, hrun, hstarts, hleads _ L (hrun.mono fun _ _ _ _ ↦ trivial), hordered _ L hrun⟩

/-- The same note is moved to 24: it keeps its place in the list and starts behind the other one. -/
theorem updated_past_another : ¬ ∀ (xs : List NoteXml) (ops : List LoopOp) (L : LoopObject),
    Run step (fun _ _ _ ↦ True) (fromXml xs) ops L → L.links.Leads L.notes ∧ L.InOrder := by
  intro hall
  have hsome : (runAll step (fun _ _ _ ↦ true) (fromXml [⟨none, none, some 60, none,
      some 16, some 4⟩]) [.noteInsert ⟨0, 100, 62, 0, 4⟩, .noteUpdate 1 ⟨0, 100, 62, 24, 4⟩]).map
        starts = some [24, 16] := by
    decide +kernel
  obtain ⟨L, hL, hstarts⟩ := Option.map_eq_some_iff.mp hsome
  have hordered := (hall _ _ L ((Run.of_runAll hL).mono fun _ _ _ _ ↦ trivial)).2
  rw [inOrder_iff_starts, hstarts] at hordered
  exact absurd hordered (by decide)

end LoopObject

end Vuknob
