import Mathlib.Data.List.GetD
import Vuknob.Playback.LoopEdit
import Vuknob.Playback.LoopStore

/-!
# Saving and loading a sequencer

What `get_loops_xml` and `get_loop_sequence_xml` write, `src_jni/machine_sequencer.cc:148–168` and
`612–634`, and what the constructor makes of it, `src_jni/machine_sequencer.cc:92–134` and `1257–1329`.
Here the loops have their notes, and the notes have their programs, which nothing but the project
file knows of.
-/

namespace Vuknob

open Library

/-- A note entry with its program. -/
structure SavedNote where
  entry : NoteEntry
  program : UInt8
  deriving DecidableEq

/-- A note in a project file with its program, where it is given. -/
structure SavedNoteXml where
  note : NoteXml
  program : Option Int

namespace SavedNote

/-- `NoteEntry::set_to`, `src_jni/machine_sequencer.cc:69–76`. -/
def setTo (original : SavedNote) : SavedNote := ⟨original.entry.setTo, original.program &&& 0x7f⟩

/-- What `get_loop_xml` writes for a note, `src_jni/machine_sequencer.cc:154–162`. -/
def write (n : SavedNote) : SavedNoteXml where
  note :=
    { channel := some n.entry.channel.toNat
      velocity := some n.entry.velocity.toNat
      note := some n.entry.note.toNat
      on := none
      onTick := some n.entry.onAt
      length := some n.entry.length }
  program := some n.program.toNat

end SavedNote

/-- The note that is read, `src_jni/machine_sequencer.cc:109–128`. -/
def SavedNoteXml.read (x : SavedNoteXml) : SavedNote := ⟨x.note.read, UInt8.ofInt (x.program.getD 0)⟩

/-- The notes of a loop with one more, `src_jni/machine_sequencer.cc:307–345`. -/
def insertSavedNote (n : SavedNote) (notes : List SavedNote) : List SavedNote :=
  notes.orderedInsert (fun a b ↦ a.entry.onAt < b.entry.onAt) n

/-- The notes of a loop that is read, `src_jni/machine_sequencer.cc:92–134`. -/
def readNotes (xs : List SavedNoteXml) : List SavedNote :=
  (xs.map SavedNoteXml.read).foldl
    (fun notes n ↦ if 0 ≤ n.entry.length then insertSavedNote n.setTo notes else notes) []

/-- The loops with their ids and the entries of the sequence in a project file. -/
structure SequencerXml where
  loops : List (Option Int × List SavedNoteXml)
  entries : List (Option Int × Option Int)

/-- The loops of a sequencer, with the notes of every loop that has been made. -/
structure SequencerState where
  store : LoopStore
  notes : Nat → List SavedNote

namespace SequencerState

/-- `get_loops_xml` and `get_loop_sequence_xml`, `src_jni/machine_sequencer.cc:612–634`. -/
def getXml (q : SequencerState) : SequencerXml where
  loops := (List.range q.store.loopStore.length).filterMap fun k ↦
    (q.store.loop k).map fun a ↦ (some (k : Int), (q.notes a).map SavedNote.write)
  entries := q.store.getXml.entries

/-- A loop of a project file, `src_jni/machine_sequencer.cc:1286–1296`. -/
def readLoop (q : SequencerState) (loop : Option Int × List SavedNoteXml) : Option SequencerState :=
  let loopId := loop.1.getD (-1)
  (q.store.readLoop loopId).map fun s ↦
    ⟨s, if loopId = -1 then q.notes else Function.update q.notes q.store.made (readNotes loop.2)⟩

/-- `MachineSequencer::MachineSequencer`, `src_jni/machine_sequencer.cc:1257–1329`, in a program with
the given `sequence_length`. -/
def fromXml (x : SequencerXml) (sequenceLength : Int) (made : Nat) : Option SequencerState := do
  let ids := x.loops.map fun loop ↦ loop.1.getD (-1)
  let size := LoopStore.storeSize (ids.foldl max (-1))
  let q ← x.loops.foldlM readLoop ⟨.allocated size sequenceLength made, fun _ ↦ []⟩
  let s := LoopStore.prepEmptyLoopSequence
    { q.store with lastFreeLoopStorePosition := q.store.lastFreeLoopStorePosition + 1 }
  (x.entries.foldlM LoopStore.readEntry s).map fun s ↦ ⟨s, q.notes⟩

/-- The notes of the loop with an id. -/
def loopNotes (q : SequencerState) (k : Nat) : Option (List SavedNote) := (q.store.loop k).map q.notes

end SequencerState

/-- `internal_get_loop_id_at`, `src_jni/machine_sequencer.cc:528–534`. -/
def LoopStore.internalGetLoopIdAt (s : LoopStore) (position : Nat) : Int :=
  s.loopSequence.getD position noteNotSet

/-! ## Notes -/

/-- The order of notes, without their programs. -/
theorem map_insertSavedNote (n : SavedNote) (notes : List SavedNote) :
    (insertSavedNote n notes).map SavedNote.entry =
      (notes.map SavedNote.entry).orderedInsert (fun a b ↦ a.onAt < b.onAt) n.entry :=
  List.map_orderedInsert _ _ SavedNote.entry notes n (fun _ _ ↦ Iff.rfl) fun _ _ ↦ Iff.rfl

/-- The pointers lead to the note that is inserted where the list has it. -/
theorem LoopObject.Linked.map_internalInsertNote {L : LoopObject} (h : L.Linked) (n : NoteEntry) :
    (L.internalInsertNote n).notes.map (L.internalInsertNote n).entry =
      (L.notes.map L.entry).orderedInsert (fun a b ↦ a.onAt < b.onAt) n := by
  have hothers : L.notes.map (Function.update L.entry L.fresh n) = L.notes.map L.entry := by
    refine List.map_congr_left fun k hk ↦ ?_
    exact Function.update_of_ne (Nat.ne_of_lt (h.made k hk)) ..
  have hself : Function.update L.entry L.fresh n L.fresh = n := Function.update_self ..
  rw [(h.notes_internalInsertNote n).2]
  show List.map (Function.update L.entry L.fresh n) _ = _
  rw [List.map_orderedInsert _ (fun a b ↦ a.onAt < b.onAt) (Function.update L.entry L.fresh n) L.notes
    L.fresh (fun _ _ ↦ decide_eq_true_iff) fun _ _ ↦ decide_eq_true_iff, hothers, hself]

/-- The pointers of a loop lead through the notes that are read, less their programs. -/
theorem map_fromXml (xs : List SavedNoteXml) :
    (LoopObject.fromXml (xs.map SavedNoteXml.note)).notes.map
        (LoopObject.fromXml (xs.map SavedNoteXml.note)).entry =
      (readNotes xs).map SavedNote.entry := by
  have hrun : ∀ (L : LoopObject) (notes : List SavedNote), L.Linked →
      L.notes.map L.entry = notes.map SavedNote.entry →
      let L' := ((xs.map SavedNoteXml.note).map NoteXml.read).foldl
        (fun L n ↦ if 0 ≤ n.length then L.internalInsertNote n.setTo else L) L
      L'.notes.map L'.entry = ((xs.map SavedNoteXml.read).foldl (fun notes n ↦
        if 0 ≤ n.entry.length then insertSavedNote n.setTo notes else notes) notes).map
          SavedNote.entry := by
    induction xs with
    | nil => exact fun _ _ _ heq ↦ heq
    | cons x xs ih =>
      intro L notes h heq
      simp only [List.map_cons, List.foldl_cons]
      by_cases hlength : 0 ≤ x.note.read.length
      · rw [if_pos hlength, if_pos (show 0 ≤ x.read.entry.length from hlength)]
        refine ih _ _ (h.notes_internalInsertNote _).1 ?_
        rw [h.map_internalInsertNote, map_insertSavedNote, heq]
        rfl
      · rw [if_neg hlength, if_neg (show ¬ 0 ≤ x.read.entry.length from hlength)]
        exact ih L notes h heq
  refine hrun .new [] LoopObject.linked_new ?_
  rw [LoopObject.notes_of_leads (l := []) Links.leads_empty nofun]
  rfl

/-- The notes can be saved: they are in order, with fields in their ranges and no negative times. -/
structure Savable (notes : List SavedNote) : Prop where
  sorted : notes.Pairwise fun a b ↦ a.entry.onAt ≤ b.entry.onAt
  masked : ∀ n ∈ notes, n.setTo = n
  onAt : ∀ n ∈ notes, 0 ≤ n.entry.onAt
  length : ∀ n ∈ notes, 0 ≤ n.entry.length

theorem SavedNote.read_write (n : SavedNote) : n.write.read = n := by
  have hbyte : ∀ b : UInt8, UInt8.ofInt b.toNat = b := by
    intro b
    have hlt := b.toNat_lt
    have hmod : ((b.toNat : Int) % 2 ^ 8).toNat = b.toNat := by omega
    rw [UInt8.ofInt, hmod, UInt8.ofNat_toNat]
  simp only [write, SavedNoteXml.read, NoteXml.read, Option.getD_some, Option.getD_none, hbyte]
  rfl

/-- What is not before any note goes behind all of them. -/
theorem insertSavedNote_last {n : SavedNote} {notes : List SavedNote}
    (h : ∀ m ∈ notes, m.entry.onAt ≤ n.entry.onAt) : insertSavedNote n notes = notes ++ [n] :=
  orderedInsert_last fun m hm ↦ Int.not_lt.mpr (h m hm)

/-- Notes that can be saved are read as they were. -/
theorem readNotes_write {notes : List SavedNote} (h : Savable notes) :
    readNotes (notes.map SavedNote.write) = notes := by
  have hread : ∀ front, Savable (front ++ notes) →
      (notes.foldl (fun notes n ↦ if 0 ≤ n.entry.length then insertSavedNote n.setTo notes
        else notes) front) = front ++ notes := by
    clear h
    induction notes with
    | nil => exact fun front _ ↦ (List.append_nil front).symm
    | cons n notes ih =>
      intro front h
      have hn : n ∈ front ++ n :: notes := List.mem_append_right _ List.mem_cons_self
      have hbefore : ∀ m ∈ front, m.entry.onAt ≤ n.entry.onAt := by
        intro m hm
        exact (List.pairwise_append.mp h.sorted).2.2 m hm n List.mem_cons_self
      rw [List.foldl_cons, if_pos (h.length n hn), h.masked n hn, insertSavedNote_last hbefore]
      rw [List.append_cons front n notes] at h ⊢
      exact ih (front ++ [n]) h
  have hwritten : (notes.map SavedNote.write).map SavedNoteXml.read = notes := by
    rw [List.map_map]
    exact (List.map_congr_left fun n _ ↦ n.read_write).trans (List.map_id' notes)
  rw [readNotes, hwritten]
  exact hread [] h

/-! ## The sequence -/

namespace LoopStore

/-- Ids are set at some positions one after the other: wherever the sequence has to grow for it, its
new length is in the range of an `int`. -/
def growsWithin (length : Nat) : List Nat → Bool
  | [] => true
  | position :: positions =>
    if position < length then growsWithin length positions
    else position + 16 < 2 ^ 31 && growsWithin (position + 16) positions

/-- The positions that have an id. -/
def positions (s : LoopStore) : List Nat :=
  (s.loopSequence.zipIdx.filter fun e ↦ e.1 ≠ noteNotSet).map Prod.snd

/-- Reaching a position makes the sequence longer where it has to be, and changes no id. -/
theorem reach_spec {s s' : LoopStore} {position : Nat} (h : s.reach position = some s') :
    s'.loopStore = s.loopStore ∧
      s'.lastFreeLoopStorePosition = s.lastFreeLoopStorePosition ∧
      s'.loopSequence.length =
        (if position < s.loopSequence.length then s.loopSequence.length else position + 16) ∧
      ∀ p, s'.internalGetLoopIdAt p = s.internalGetLoopIdAt p := by
  rw [reach] at h
  split at h
  · next hlt =>
    obtain rfl := Option.some.inj h
    exact ⟨rfl, rfl, (if_pos hlt).symm, fun _ ↦ rfl⟩
  · next hge =>
    obtain ⟨newv, hnewv, rfl⟩ := Option.map_eq_some_iff.mp h
    obtain ⟨-, rfl⟩ := int_eq_some_iff.mp hnewv
    refine ⟨rfl, rfl, ?_, fun p ↦ ?_⟩
    · rw [if_neg hge]
      show (s.loopSequence ++ List.replicate (((position : Int) + 16).toNat - s.loopSequence.length)
        noteNotSet).length = _
      rw [List.length_append, List.length_replicate]
      omega
    · show (s.loopSequence ++ List.replicate _ noteNotSet).getD p noteNotSet = _
      rw [internalGetLoopIdAt]
      by_cases hp : p < s.loopSequence.length
      · rw [List.getD_append _ _ _ _ hp]
      · rw [List.getD_append_right _ _ _ _ (by omega), List.getD_eq_getElem?_getD,
          List.getElem?_getD_replicate_default_eq, List.getD_eq_default _ _ (by omega)]

theorem reach_isSome_iff {s : LoopStore} {position : Nat} :
    (s.reach position).isSome = true ↔
      position < s.loopSequence.length ∨ position + 16 < 2 ^ 31 := by
  rw [reach]
  split
  · next hlt => exact iff_of_true rfl (.inl hlt)
  · next hge =>
    rw [Option.isSome_map, int]
    split
    · next hfits => exact iff_of_true rfl (.inr (by omega))
    · next hfits => exact iff_of_false Bool.false_ne_true (by omega)

/-- An entry of the sequence with the id of a loop. -/
theorem readEntry_eq {s : LoopStore} {position : Nat} {v : Int}
    (hv : 0 ≤ v ∧ s.loop v.toNat ≠ none) :
    s.readEntry (some (position : Int), some v) = (s.reach position).map fun s ↦
      { s with loopSequence := s.loopSequence.set position v } := by
  rw [readEntry, if_pos ⟨by simp only [Option.getD_some]; omega, by
    simp only [Option.getD_some]; omega⟩]
  simp only [Option.getD_some, internalSetLoopIdAt, Int.toNat_natCast]
  rw [if_neg (by omega)]
  cases hreach : s.reach position with
  | none => rfl
  | some s₁ =>
    have hloop : s₁.loop v.toNat ≠ none := by
      rw [loop, (reach_spec hreach).1]
      exact hv.2
    simp only [Option.map_some]
    rw [if_neg (by rintro ⟨-, hneg | hnone⟩; exacts [by omega, hloop hnone])]

theorem internalGetLoopIdAt_set {s : LoopStore} {position : Nat}
    (h : position < s.loopSequence.length) (v : Int) (p : Nat) :
    { s with loopSequence := s.loopSequence.set position v }.internalGetLoopIdAt p =
      if p = position then v else s.internalGetLoopIdAt p := by
  simp only [internalGetLoopIdAt, List.getD_eq_getElem?_getD, List.getElem?_set]
  by_cases hp : p = position
  · rw [if_pos hp, if_pos hp.symm, if_pos h, Option.getD_some]
  · rw [if_neg hp, if_neg (Ne.symm hp)]

/-- One position of a list, and those behind it. -/
private theorem getD_from {k : Nat} {v d : Int} {l : List Int} {x y : Nat → Int}
    (hx : ∀ p < k, x p = y p) (hk : x k = v) (p : Nat) :
    (if p < k + 1 then x p else l.getD (p - (k + 1)) d) =
      if p < k then y p else (v :: l).getD (p - k) d := by
  rcases Nat.lt_trichotomy p k with hlt | rfl | hgt
  · rw [if_pos (by omega), if_pos hlt, hx p hlt]
  · rw [if_pos (Nat.lt_succ_self p), if_neg (Nat.lt_irrefl p), Nat.sub_self, List.getD_cons_zero, hk]
  · rw [if_neg (by omega), if_neg (by omega), show p - k = p - (k + 1) + 1 by omega,
      List.getD_cons_succ]

/-- Reading the ids of a sequence from a position on, behind which there are none yet. -/
theorem readEntries_spec (l : List Int) (k : Nat) {s : LoopStore}
    (hvalid : ∀ v ∈ l, v ≠ noteNotSet → 0 ≤ v ∧ s.loop v.toNat ≠ none)
    (hempty : ∀ p, k ≤ p → s.internalGetLoopIdAt p = noteNotSet) :
    let set := (l.zipIdx k).filter fun e ↦ e.1 ≠ noteNotSet
    let read := (set.map fun e ↦ (some (e.2 : Int), some e.1)).foldlM readEntry s
    (read.isSome = true ↔ growsWithin s.loopSequence.length (set.map Prod.snd) = true) ∧
      ∀ s', read = some s' → s'.loopStore = s.loopStore ∧
        s'.lastFreeLoopStorePosition = s.lastFreeLoopStorePosition ∧
        ∀ p, s'.internalGetLoopIdAt p =
          if p < k then s.internalGetLoopIdAt p else l.getD (p - k) noteNotSet := by
  induction l generalizing k s with
  | nil =>
    refine ⟨iff_of_true rfl rfl, ?_⟩
    intro s' hread
    obtain rfl := Option.some.inj hread
    refine ⟨rfl, rfl, fun p ↦ ?_⟩
    split
    · rfl
    · next hp => rw [hempty p (by omega), List.getD_nil]
  | cons v l ih =>
    have hvalid' : ∀ v ∈ l, v ≠ noteNotSet → 0 ≤ v ∧ s.loop v.toNat ≠ none := fun v' hv' ↦
      hvalid v' (List.mem_cons_of_mem v hv')
    rw [List.zipIdx_cons]
    by_cases hv : v = noteNotSet
    · -- there is no entry for the position
      rw [List.filter_cons_of_neg (by simpa using hv)]
      obtain ⟨hsome, hread⟩ := ih (k + 1) hvalid' fun p hp ↦ hempty p (by omega)
      refine ⟨hsome, fun s' hs' ↦ ?_⟩
      obtain ⟨hstore, hcount, hids⟩ := hread s' hs'
      refine ⟨hstore, hcount, fun p ↦ ?_⟩
      rw [hids]
      exact getD_from (fun _ _ ↦ rfl) ((hempty k (Nat.le_refl k)).trans hv.symm) p
    · rw [List.filter_cons_of_pos (by simpa using hv)]
      simp only [List.map_cons, List.foldlM_cons, readEntry_eq (hvalid v List.mem_cons_self hv),
        growsWithin]
      have hsome := @reach_isSome_iff s k
      cases hreach : s.reach k with
      | none =>
        rw [hreach, iff_false_left nofun, not_or] at hsome
        refine ⟨iff_of_false nofun ?_, nofun⟩
        rw [if_neg hsome.1, Bool.and_eq_true, decide_eq_true_eq]
        exact fun h ↦ hsome.2 h.1
      | some s₁ =>
        obtain ⟨hstore, hcount, hlength, hids⟩ := reach_spec hreach
        have hk : k < s₁.loopSequence.length := by
          rw [hlength]
          split <;> omega
        have hset := internalGetLoopIdAt_set hk v
        generalize hs₂ : ({ s₁ with loopSequence := s₁.loopSequence.set k v } : LoopStore) = s₂ at hset
        have hlength₂ : s₂.loopSequence.length = s₁.loopSequence.length := by
          rw [← hs₂]
          exact List.length_set
        have hstore₂ : s₂.loopStore = s.loopStore := by rw [← hs₂, ← hstore]
        have hcount₂ : s₂.lastFreeLoopStorePosition = s.lastFreeLoopStorePosition := by
          rw [← hs₂, ← hcount]
        obtain ⟨hsome', hread⟩ := @ih (k + 1) s₂ (by simpa only [loop, hstore₂] using hvalid')
          fun p hp ↦ by rw [hset, if_neg (by omega), hids, hempty p (by omega)]
        rw [hreach] at hsome
        simp only [Option.map_some, hs₂]
        refine ⟨?_, fun s' hs' ↦ ?_⟩
        · rw [hlength₂, hlength] at hsome'
          refine hsome'.trans ?_
          split
          · exact Iff.rfl
          · next hge =>
            rw [Bool.and_eq_true, decide_eq_true_eq, and_iff_right ((hsome.mp rfl).resolve_left hge)]
        · obtain ⟨hstore', hcount', hids'⟩ := hread s' hs'
          refine ⟨hstore'.trans hstore₂, hcount'.trans hcount₂, fun p ↦ ?_⟩
          rw [hids']
          refine getD_from (fun q hq ↦ ?_) ?_ p
          · rw [hset, if_neg (by omega), hids]
          · rw [hset, if_pos rfl]

end LoopStore

/-! ## Loops -/

namespace SequencerState

/-- The ids that are saved are those of the store. -/
theorem getXml_ids (q : SequencerState) :
    (q.getXml.loops.map fun loop ↦ loop.1.getD (-1)) =
      q.store.getXml.loops.map fun id ↦ id.getD (-1) := by
  have hids : ∀ ks : List Nat, (ks.filterMap fun k ↦ (q.store.loop k).map fun a ↦
        (some (k : Int), (q.notes a).map SavedNote.write)).map Prod.fst =
      (ks.filter fun k ↦ (q.store.loop k).isSome).map fun k : Nat ↦ some (k : Int) := by
    intro ks
    induction ks with
    | nil => rfl
    | cons k ks ih =>
      cases hloop : q.store.loop k with
      | none => simpa [hloop] using ih
      | some a => simpa [hloop] using ih
  rw [LoopStore.getXml, ← hids, List.map_map]
  rfl

/-- Reading the loops fills the store as their ids do. -/
theorem readLoops_store (loops : List (Option Int × List SavedNoteXml)) (q : SequencerState) :
    (loops.foldlM readLoop q).map store =
      (loops.map fun loop ↦ loop.1.getD (-1)).foldlM LoopStore.readLoop q.store := by
  induction loops generalizing q with
  | nil => rfl
  | cons loop loops ih =>
    rw [List.map_cons, List.foldlM_cons, List.foldlM_cons]
    cases hread : q.store.readLoop (loop.1.getD (-1)) with
    | none => simp [readLoop, hread]
    | some s =>
      simp only [readLoop, hread, Option.map_some, Option.bind_eq_bind, Option.bind_some]
      exact ih _

/-- Loading a sequencer loads its store. -/
theorem fromXml_store (q : SequencerState) (sequenceLength : Int) (made : Nat) :
    (fromXml q.getXml sequenceLength made).map store =
      LoopStore.fromXml q.store.getXml sequenceLength made := by
  rw [fromXml, LoopStore.fromXml, q.getXml_ids]
  dsimp only
  rw [← q.getXml_ids]
  have hstore := readLoops_store q.getXml.loops ⟨.allocated (LoopStore.storeSize
    ((q.getXml.loops.map fun loop ↦ loop.1.getD (-1)).foldl max (-1))) sequenceLength made,
      fun _ ↦ []⟩
  rw [← hstore]
  cases List.foldlM readLoop _ q.getXml.loops with
  | none => rfl
  | some q' =>
    simp only [Option.map_some, Option.bind_eq_bind, Option.bind_some, Option.map_map]
    exact congrFun Option.map_id _

/-- The loops that are read are numbered one after the other and have the notes that are read. -/
theorem readLoops_notes (contents : List (List SavedNoteXml)) (k : Nat) {q q' : SequencerState}
    (hread : ((contents.zipIdx k).map fun c ↦ (some (c.2 : Int), c.1)).foldlM readLoop q =
      some q') :
    (∀ j c, contents[j]? = some c → q'.notes (q.store.made + j) = readNotes c) ∧
      ∀ a < q.store.made, q'.notes a = q.notes a := by
  induction contents generalizing k q with
  | nil =>
    obtain rfl := Option.some.inj hread
    exact ⟨nofun, fun _ _ ↦ rfl⟩
  | cons c contents ih =>
    rw [List.zipIdx_cons, List.map_cons, List.foldlM_cons] at hread
    obtain ⟨q₁, hfirst, hread⟩ := Option.bind_eq_some_iff.mp hread
    obtain ⟨s, hs, rfl⟩ := Option.map_eq_some_iff.mp hfirst
    have hmade : s.made = q.store.made + 1 := by
      rw [LoopStore.readLoop, Option.getD_some, if_neg (by omega)] at hs
      split at hs
      · obtain rfl := Option.some.inj hs
        rfl
      · cases hs
    obtain ⟨hrest, hkept⟩ := ih (k + 1) hread
    simp only [Option.getD_some, show ¬ (k : Int) = -1 by omega, if_false, hmade] at hrest hkept
    constructor
    · intro j c' hc'
      cases j with
      | zero =>
        obtain rfl := Option.some.inj hc'
        rw [Nat.add_zero, hkept _ (Nat.lt_succ_self _), Function.update_self]
      | succ j =>
        rw [← hrest j c' hc', Nat.add_assoc, Nat.add_comm 1]
    · intro a ha
      rw [hkept a (by omega), Function.update_of_ne (by omega)]

/-- The elements of a list with their places. -/
private theorem filterMap_range' {β : Type} (g : Nat → Nat → β) (l : List Nat) (k : Nat) :
    ((List.range' k l.length).filterMap fun j ↦ l[j - k]?.map (g j)) =
      (l.zipIdx k).map fun c ↦ g c.2 c.1 := by
  induction l generalizing k with
  | nil => rfl
  | cons a l ih =>
    rw [List.length_cons, List.range'_succ, List.zipIdx_cons, List.map_cons, ← ih (k + 1)]
    rw [List.filterMap_cons_some (b := g k a) (by rw [Nat.sub_self]; rfl)]
    refine congrArg (g k a :: ·) (List.filterMap_congr fun j hj ↦ ?_)
    have hlt := (List.mem_range'_1.mp hj).1
    rw [show j - k = j - (k + 1) + 1 by omega, List.getElem?_cons_succ]

/-- What is saved of the loops. -/
theorem getXml_loops {q : SequencerState} {loops : List Nat} {free : Nat}
    (h : q.store.Stored loops free) :
    q.getXml.loops = ((loops.map fun a ↦ (q.notes a).map SavedNote.write).zipIdx 0).map fun c ↦
      (some (c.2 : Int), c.1) := by
  have hfront := filterMap_range' (fun k a ↦ (some (k : Int), (q.notes a).map SavedNote.write))
    loops 0
  rw [List.zipIdx_map, List.map_map]
  refine Eq.trans ?_ hfront
  have hnone : ((List.range free).map (loops.length + ·)).filterMap (fun k ↦
      (q.store.loop k).map fun a ↦ (some (k : Int), (q.notes a).map SavedNote.write)) = [] := by
    refine List.filterMap_eq_nil_iff.mpr fun k hk ↦ ?_
    obtain ⟨j, -, rfl⟩ := List.mem_map.mp hk
    rw [h.loop_eq, List.getElem?_eq_none (by omega), Option.map_none]
  rw [getXml, h.length_store, List.range_add, List.filterMap_append, hnone, List.append_nil,
    ← List.range_eq_range']
  exact List.filterMap_congr fun k _ ↦ by rw [h.loop_eq, Nat.sub_zero]

/-- Loading what has been saved gives the same number of loops, with the same ids and notes, and the
same id at every position of the sequence. -/
def RoundTrips (q : SequencerState) (sequenceLength : Int) : Prop :=
  ∃ q', fromXml q.getXml sequenceLength q.store.made = some q' ∧
    q'.store.getNrOfLoops = q.store.getNrOfLoops ∧
    (∀ k, q'.loopNotes k = q.loopNotes k) ∧
    ∀ position, q'.store.internalGetLoopIdAt position = q.store.internalGetLoopIdAt position

/-- The loops that are loaded have the notes that were saved. -/
theorem fromXml_notes {q q' : SequencerState} {loops : List Nat} {free : Nat}
    (h : q.store.Stored loops free) (hnotes : ∀ a ∈ loops, Savable (q.notes a))
    {sequenceLength : Int} {made : Nat}
    (hload : fromXml q.getXml sequenceLength made = some q') {k a : Nat} (hk : loops[k]? = some a) :
    q'.notes (made + k) = q.notes a := by
  rw [fromXml] at hload
  obtain ⟨q₁, hread, hload⟩ := Option.bind_eq_some_iff.mp hload
  obtain ⟨s, -, rfl⟩ := Option.map_eq_some_iff.mp hload
  rw [getXml_loops h] at hread
  refine ((readLoops_notes _ 0 hread).1 k _ (by rw [List.getElem?_map, hk, Option.map_some])).trans ?_
  exact readNotes_write (hnotes a (List.mem_of_getElem? hk))

/-- A sequencer whose loops have the ids from 0 on is loaded as it was saved exactly if it has at
least one loop and at most 16, and the sequence grows within the range of an `int`. -/
theorem sequencer_roundTrips_iff {q : SequencerState} {loops : List Nat} {free : Nat}
    (h : q.store.Stored loops free) (hnotes : ∀ a ∈ loops, Savable (q.notes a))
    (sequenceLength : Int) :
    q.RoundTrips sequenceLength ↔ (1 ≤ loops.length ∧ loops.length ≤ 16) ∧
      LoopStore.growsWithin sequenceLength.toNat q.store.positions = true := by
  have hstore := q.fromXml_store sequenceLength q.store.made
  by_cases hle : loops.length ≤ 16
  · rw [h.fromXml_eq sequenceLength hle] at hstore
    generalize hs₀ : (⟨(List.range' q.store.made loops.length).map some ++
      List.replicate (16 - loops.length) none, (loops.length - 1 : Nat) + 1,
      List.replicate sequenceLength.toNat noteNotSet, sequenceLength,
      q.store.made + loops.length⟩ : LoopStore) = s₀ at hstore
    have hloop : ∀ k, s₀.loop k = (List.range' q.store.made loops.length)[k]? := by
      rw [← hs₀]
      exact LoopStore.loop_of_store rfl
    have hcount : s₀.lastFreeLoopStorePosition = (loops.length - 1 : Nat) + 1 := by rw [← hs₀]
    have hlength : s₀.loopSequence.length = sequenceLength.toNat := by
      rw [← hs₀]
      exact List.length_replicate
    have hempty : ∀ p, s₀.internalGetLoopIdAt p = noteNotSet := by
      intro p
      rw [← hs₀, LoopStore.internalGetLoopIdAt, List.getD_eq_getElem?_getD,
        List.getElem?_getD_replicate_default_eq]
    have hvalid : ∀ v ∈ q.store.loopSequence, v ≠ noteNotSet →
        0 ≤ v ∧ s₀.loop v.toNat ≠ none := by
      intro v hv hset
      obtain ⟨hnonneg, hlt⟩ := (h.sequence v hv).resolve_left hset
      rw [hloop, ne_eq, List.getElem?_eq_none_iff, List.length_range']
      exact ⟨hnonneg, by omega⟩
    obtain ⟨hsome, hread⟩ := LoopStore.readEntries_spec q.store.loopSequence 0 hvalid
      fun p _ ↦ hempty p
    rw [hlength] at hsome
    constructor
    · rintro ⟨q', hload, hnumber, -, -⟩
      rw [hload, Option.map_some] at hstore
      obtain ⟨-, hcount', -⟩ := hread q'.store hstore.symm
      rw [LoopStore.getNrOfLoops, hcount', hcount, h.getNrOfLoops_eq] at hnumber
      refine ⟨⟨by omega, hle⟩, hsome.mp ?_⟩
      exact Option.isSome_iff_exists.mpr ⟨_, hstore.symm⟩
    · rintro ⟨⟨hpos, -⟩, hgrows⟩
      obtain ⟨s', hs'⟩ := Option.isSome_iff_exists.mp (hsome.mpr hgrows)
      obtain ⟨q', hload, rfl⟩ := Option.map_eq_some_iff.mp (hstore.trans hs')
      obtain ⟨hstore', hcount', hids⟩ := hread q'.store hs'
      refine ⟨q', hload, ?_, fun k ↦ ?_, fun p ↦ ?_⟩
      · rw [LoopStore.getNrOfLoops, hcount', hcount, h.getNrOfLoops_eq]
        omega
      · have hk : q'.store.loop k = (List.range' q.store.made loops.length)[k]? := by
          rw [← hloop, LoopStore.loop, LoopStore.loop, hstore']
        rw [loopNotes, loopNotes, hk, h.loop_eq]
        by_cases hlt : k < loops.length
        · rw [List.getElem?_range' hlt, Nat.one_mul, List.getElem?_eq_getElem hlt, Option.map_some,
            Option.map_some, fromXml_notes h hnotes hload (List.getElem?_eq_getElem hlt)]
        · rw [List.getElem?_eq_none (by rw [List.length_range']; omega),
            List.getElem?_eq_none (by omega)]
          rfl
      · rw [hids, if_neg (Nat.not_lt_zero p), Nat.sub_zero]
        rfl
  · rw [h.fromXml_eq_none sequenceLength (by omega), Option.map_eq_none_iff] at hstore
    refine iff_of_false ?_ fun hn ↦ hle hn.1.2
    rintro ⟨q', hload, -⟩
    rw [hstore] at hload
    cases hload

/-- Two loops, the first with two notes at the same time, in a sequence with a gap. -/
def twoLoops : SequencerState where
  store := ⟨[0, 1].map some ++ List.replicate 14 none, 2, [0, -1, 1], 16, 2⟩
  notes := fun a ↦ if a = 0 then [⟨⟨0, 100, 64, 0, 4⟩, 5⟩, ⟨⟨0, 100, 60, 0, 8⟩, 5⟩] else []

theorem sequencer_roundTrips_iff_twoLoops :
    twoLoops.store.Stored [0, 1] 14 ∧ (∀ a ∈ [0, 1], Savable (twoLoops.notes a)) ∧
      twoLoops.RoundTrips 16 := by
  have hstored : twoLoops.store.Stored [0, 1] 14 :=
    ⟨rfl, rfl, by decide, by decide, by decide, by decide, by decide⟩
  have hnotes : ∀ a ∈ [0, 1], Savable (twoLoops.notes a) := by
    intro a ha
    simp only [List.mem_cons, List.not_mem_nil, or_false] at ha
    rcases ha with rfl | rfl <;> exact ⟨by decide, by decide, by decide, by decide⟩
  exact ⟨hstored, hnotes, (sequencer_roundTrips_iff hstored hnotes 16).mpr (by decide)⟩

/-- Seventeen loops without notes: the store for the ids up to 16 is made for 16 loops. -/
theorem seventeen_loops_not_loaded : ¬ ∀ (q : SequencerState) (loops : List Nat) (free : Nat)
    (sequenceLength : Int), q.store.Stored loops free → (∀ a ∈ loops, Savable (q.notes a)) →
    q.RoundTrips sequenceLength := by
  intro hall
  have hstored : (⟨(List.range 17).map some ++ List.replicate 15 none, 17,
      List.replicate 16 noteNotSet, 16, 17⟩ : LoopStore).Stored (List.range 17) 15 :=
    ⟨rfl, rfl, by decide, by decide, by decide, by decide, by decide⟩
  obtain ⟨q', hload, -⟩ := hall ⟨_, fun _ ↦ []⟩ _ _ 16 hstored
    fun _ _ ↦ ⟨.nil, nofun, nofun, nofun⟩
  have hstore := fromXml_store ⟨⟨(List.range 17).map some ++ List.replicate 15 none, 17,
    List.replicate 16 noteNotSet, 16, 17⟩, fun _ ↦ []⟩ 16 17
  rw [hstored.fromXml_eq_none 16 (by decide), Option.map_eq_none_iff, hload] at hstore
  cases hstore

end SequencerState

end Vuknob
