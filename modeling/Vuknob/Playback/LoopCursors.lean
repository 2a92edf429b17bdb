import Vuknob.Playback.LoopEdit

/-!
# What points to the notes of a loop

While a loop is played, `next_note_to_play` and the slots of `active_note` point to its notes. Notes
that `note_delete`, `clear_loop` and `copy_loop` take out of the list are deleted
(`src_jni/machine_sequencer.cc:271,389,443`), so what points to them must be changed with the list.
-/

namespace Vuknob

open Library

namespace LoopObject

/-- `next_note_to_play` and the slots in use point to notes of the list. -/
structure Cursors (L : LoopObject) : Prop where
  next : ∀ k, L.nextNoteToPlay = some k → k ∈ L.notes
  active : ∀ k, some k ∈ L.activeNote → k ∈ L.notes

/-- Nothing points to a note. -/
def unused (L : LoopObject) : Bool := L.nextNoteToPlay.isNone && L.activeNote.all Option.isNone

theorem unused_iff {L : LoopObject} :
    L.unused = true ↔ (∀ k, L.nextNoteToPlay ≠ some k) ∧ ∀ k, some k ∉ L.activeNote := by
  rw [unused, Bool.and_eq_true, Option.isNone_iff_eq_none, Option.eq_none_iff_forall_ne_some,
    List.all_eq_true]
  refine and_congr_right fun _ ↦ ⟨fun h k hk ↦ absurd (h _ hk) nofun, fun h a ha ↦ ?_⟩
  cases a with
  | none => rfl
  | some k => exact absurd ha (h k)

theorem fromXml_unused (xs : List NoteXml) : (fromXml xs).unused = true := by
  rw [fromXml_eq]
  generalize ((xs.map NoteXml.read).filter fun n ↦ 0 ≤ n.length).map NoteEntry.setTo = ns
  have hunused : ∀ L : LoopObject, L.unused = true →
      (ns.foldl (fun L n ↦ L.internalInsertNote n) L).unused = true := by
    induction ns with
    | nil => exact fun L h ↦ h
    | cons n ns ih => exact fun L h ↦ ih _ h
  exact hunused new rfl

theorem cursors_of_unused {L : LoopObject} (h : L.unused = true) : L.Cursors := by
  obtain ⟨hnext, hactive⟩ := unused_iff.mp h
  exact ⟨fun k hk ↦ absurd hk (hnext k), fun k hk ↦ absurd hk (hactive k)⟩

/-! ### Playing -/

/-- From a note of the list on, the pointers lead through notes of the list. -/
theorem Linked.nodesFrom_subset {L : LoopObject} (h : L.Linked) {p : Option Nat}
    (hp : ∀ k, p = some k → k ∈ L.notes) : ∀ k ∈ L.links.nodesFrom L.fresh p, k ∈ L.notes := by
  cases p with
  | none =>
    intro k hk
    cases hfuel : L.fresh <;> exact absurd (hfuel ▸ hk) nofun
  | some a =>
    obtain ⟨front, back, hnotes, -, -⟩ := h.around (hp a rfl)
    have hleads := h.leads
    rw [hnotes] at hleads
    have hlength : (a :: back).length ≤ L.fresh := by
      have hle := length_le_of_nodup h.leads.nodup h.made
      rw [hnotes, List.length_append] at hle
      omega
    have hfrom : L.links.nodesFrom L.fresh (some a) = a :: back := hleads.nodesFrom hlength
    intro k hk
    rw [hfrom] at hk
    rw [hnotes]
    exact List.mem_append_right front hk

theorem Linked.next_mem {L : LoopObject} (h : L.Linked) {k j : Nat} (hk : k ∈ L.notes)
    (hj : L.links.next k = some j) : j ∈ L.notes := by
  obtain ⟨front, back, hnotes, -, hnext⟩ := h.around hk
  rw [hnotes]
  rw [hnext] at hj
  exact List.mem_append_right _ (List.mem_cons_of_mem _ (List.mem_of_mem_head? hj))

theorem Cursors.startNote {L L' : LoopObject} {sound : Bool} {k : Nat} {events : List LoopEvent}
    (hc : L.Cursors) (h : L.Linked) (hk : k ∈ L.notes)
    (hstart : L.startNote sound k = some (events, L')) : L'.Cursors := by
  obtain ⟨hsame, -, hnext, hactive⟩ := startNote_spec hstart
  refine ⟨fun j hj ↦ ?_, fun j hj ↦ ?_⟩
  · rw [hsame.notes]
    rw [hnext] at hj
    exact h.next_mem hk hj
  · rw [hsame.notes]
    rcases hactive _ hj with hj | hj
    · exact hc.active j hj
    · obtain rfl := Option.some.inj hj
      exact hk

theorem Cursors.startNotes {L L' : LoopObject} {sound : Bool} {rest : List Nat}
    {events : List LoopEvent} (hc : L.Cursors) (h : L.Linked) (hrest : ∀ k ∈ rest, k ∈ L.notes)
    (hstart : L.startNotes sound rest = some (events, L')) : L'.Cursors := by
  induction rest generalizing L events with
  | nil =>
    obtain ⟨-, rfl⟩ := Prod.mk.inj (Option.some.inj hstart)
    exact hc
  | cons k rest ih =>
    rw [LoopObject.startNotes] at hstart
    split at hstart
    · obtain ⟨⟨event, L₁⟩, hfirst, hstart⟩ := Option.bind_eq_some_iff.mp hstart
      obtain ⟨⟨events', L₂⟩, hothers, hstart⟩ := Option.bind_eq_some_iff.mp hstart
      obtain ⟨-, rfl⟩ := Prod.mk.inj (Option.some.inj hstart)
      have hsame := (startNote_spec hfirst).1
      have hc' := hc.startNote h (hrest k (List.mem_cons_self ..)) hfirst
      refine ih hc' (hsame.linked h) (fun j hj ↦ ?_) hothers
      rw [hsame.notes]
      exact hrest j (List.mem_cons_of_mem _ hj)
    · obtain ⟨-, rfl⟩ := Prod.mk.inj (Option.some.inj hstart)
      exact hc

/-- A tick moves what points to notes within the list. -/
theorem Cursors.process {L L' : LoopObject} {sound : Bool} {events : List LoopEvent}
    (hc : L.Cursors) (h : L.Linked) (hprocess : L.process sound = some (events, L')) :
    L'.Cursors := by
  obtain ⟨started, L₁, position, hstarted, rfl⟩ := process_eq_some hprocess
  have hc₁ := hc.startNotes h (h.nodesFrom_subset hc.next) hstarted
  obtain ⟨hsame, hnext, hactive⟩ := endNotes_spec (List.range maxActiveNotes) L₁
  generalize (L₁.endNotes (List.range maxActiveNotes)).2 = L₂ at hsame hnext hactive ⊢
  refine ⟨fun k hk ↦ ?_, fun k hk ↦ ?_⟩
  · show k ∈ L₂.notes
    rw [hsame.notes]
    exact hc₁.next k (hnext ▸ hk)
  · show k ∈ L₂.notes
    rw [hsame.notes]
    rcases hactive _ hk with hk | hk
    · exact hc₁.active k hk
    · cases hk

theorem Cursors.startToPlay {L : LoopObject} (hc : L.Cursors) (h : L.Linked) :
    L.startToPlay.Cursors := by
  refine ⟨fun k hk ↦ ?_, hc.active⟩
  have hhead : L.notes.head? = some k := h.leads.head.symm.trans hk
  exact List.mem_of_mem_head? hhead

/-! ### Editing -/

theorem Cursors.internalInsertNote {L : LoopObject} (hc : L.Cursors) (h : L.Linked)
    (n : NoteEntry) : (L.internalInsertNote n).Cursors := by
  have hmem : ∀ k ∈ L.notes, k ∈ (L.internalInsertNote n).notes := by
    intro k hk
    rw [(h.notes_internalInsertNote n).2, List.mem_orderedInsert]
    exact .inr hk
  exact ⟨fun k hk ↦ hmem k (hc.next k hk), fun k hk ↦ hmem k (hc.active k hk)⟩

theorem Cursors.internalUpdateNote {L : LoopObject} (hc : L.Cursors) (original : Nat)
    (newEntry : NoteEntry) : (L.internalUpdateNote original newEntry).Cursors := by
  rw [LoopObject.internalUpdateNote]
  split
  · exact ⟨hc.next, hc.active⟩
  · exact hc

/-- Deleting a note repairs `next_note_to_play`, and no slot. -/
theorem Cursors.internalDeleteNote_iff {L : LoopObject} (hc : L.Cursors) (h : L.Linked)
    (net : Nat) : (L.internalDeleteNote net).Cursors ↔ (net ∈ L.notes → some net ∉ L.activeNote) := by
  have hnotes := (h.notes_internalDeleteNote net).2
  have herase : ∀ k, k ∈ (L.internalDeleteNote net).notes ↔ k ≠ net ∧ k ∈ L.notes := by
    intro k
    rw [hnotes, h.leads.nodup.mem_erase_iff]
  have hactive : (L.internalDeleteNote net).activeNote = L.activeNote := by
    rw [LoopObject.internalDeleteNote]
    split <;> rfl
  constructor
  · intro hc' hnet hslot
    exact ((herase net).mp (hc'.active net (hactive ▸ hslot))).1 rfl
  · intro hslot
    refine ⟨fun k hk ↦ (herase k).mpr ?_, fun k hk ↦ (herase k).mpr ?_⟩
    · rw [LoopObject.internalDeleteNote] at hk
      split at hk
      · next hnet =>
        dsimp only at hk
        split at hk
        · obtain ⟨front, back, hparts, -, hnext⟩ := h.around hnet
          have hnodup := h.leads.nodup
          rw [hparts] at hnodup
          have hback : k ∈ back := List.mem_of_mem_head? (hnext.symm.trans hk)
          refine ⟨?_, h.next_mem hnet hk⟩
          rintro rfl
          exact (List.nodup_cons.mp (List.nodup_middle.mp hnodup)).1
            (List.mem_append_right _ hback)
        · next hne =>
          refine ⟨?_, hc.next k hk⟩
          rintro rfl
          exact hne hk
      · next hnet =>
        refine ⟨?_, hc.next k hk⟩
        rintro rfl
        exact hnet (hc.next k hk)
    · rw [hactive] at hk
      refine ⟨?_, hc.active k hk⟩
      rintro rfl
      exact hslot (hc.active k hk) hk

/-- Inserting notes leaves alone what points to notes, and makes notes at new places only. -/
theorem foldl_insertNote_cursors {L : LoopObject} (h : L.Linked) (ns : List NoteEntry) :
    (ns.foldl (fun L n ↦ L.internalInsertNote n) L).nextNoteToPlay = L.nextNoteToPlay ∧
    (ns.foldl (fun L n ↦ L.internalInsertNote n) L).activeNote = L.activeNote ∧
    ∀ k ∈ (ns.foldl (fun L n ↦ L.internalInsertNote n) L).notes, k ∈ L.notes ∨ L.fresh ≤ k := by
  induction ns generalizing L with
  | nil => exact ⟨rfl, rfl, fun k hk ↦ .inl hk⟩
  | cons n ns ih =>
    obtain ⟨hlinked, hnotes⟩ := h.notes_internalInsertNote n
    obtain ⟨hnext, hactive, hmem⟩ := ih hlinked
    refine ⟨hnext, hactive, fun k hk ↦ ?_⟩
    rcases hmem k hk with hk | hk
    · rw [hnotes] at hk
      rcases (List.mem_orderedInsert _).mp hk with rfl | hk
      · exact .inr le_rfl
      · exact .inl hk
    · exact .inr (Nat.le_of_succ_le hk)

/-- `clear_loop` and `copy_loop` leave alone what points to the notes that they take out. -/
theorem Cursors.internalInsertNotes_iff {L : LoopObject} (hc : L.Cursors) (h : L.Linked)
    (ns : List NoteEntry) : (L.internalInsertNotes ns).Cursors ↔ L.unused = true := by
  obtain ⟨hclear, hnone⟩ := L.notes_internalClear
  obtain ⟨hnext, hactive, hmem⟩ := foldl_insertNote_cursors hclear ns
  have hnew : ∀ k ∈ L.notes, k ∉ (L.internalInsertNotes ns).notes := by
    intro k hk hk'
    rcases hmem k hk' with hk' | hk'
    · exact absurd (hnone ▸ hk') nofun
    · exact absurd (h.made k hk) (Nat.not_lt.mpr hk')
  constructor
  · intro hc'
    refine unused_iff.mpr ⟨fun k hk ↦ ?_, fun k hk ↦ ?_⟩
    · exact hnew k (hc.next k hk) (hc'.next k (hnext.trans hk))
    · exact hnew k (hc.active k hk) (hc'.active k (hactive ▸ hk))
  · intro hunused
    apply cursors_of_unused
    rw [unused, LoopObject.internalInsertNotes, hnext, hactive]
    exact hunused

/-! ### Runs -/

/-- An operation after which nothing points to a note that it takes out. -/
def keepsCursors (L : LoopObject) : LoopOp → Bool
  | .noteDelete net => net ∉ L.notes || some net ∉ L.activeNote
  | .clearLoop => L.unused
  | .copyLoop _ => L.unused
  | _ => true

/-- Nothing points to a deleted note after a step exactly when the step allows for it. -/
theorem Cursors.step_iff {L L' : LoopObject} {op : LoopOp} {events : List LoopEvent}
    (hc : L.Cursors) (h : L.Linked) (hstep : L.step op = some (events, L')) :
    L'.Cursors ↔ L.keepsCursors op = true := by
  cases op with
  | process sound => exact iff_of_true (hc.process h hstep) rfl
  | startToPlay =>
    obtain ⟨-, rfl⟩ := Prod.mk.inj (Option.some.inj hstep)
    exact iff_of_true (hc.startToPlay h) rfl
  | noteInsert newEntry =>
    obtain ⟨-, rfl⟩ := Prod.mk.inj (Option.some.inj hstep)
    exact iff_of_true (hc.internalInsertNote h _) rfl
  | noteDelete net =>
    obtain ⟨-, rfl⟩ := Prod.mk.inj (Option.some.inj hstep)
    rw [hc.internalDeleteNote_iff h net, keepsCursors]
    simp [imp_iff_not_or]
  | noteUpdate original newEntry =>
    obtain ⟨-, rfl⟩ := Prod.mk.inj (Option.some.inj hstep)
    exact iff_of_true (hc.internalUpdateNote original newEntry) rfl
  | clearLoop =>
    obtain ⟨-, rfl⟩ := Prod.mk.inj (Option.some.inj hstep)
    exact hc.internalInsertNotes_iff h []
  | copyLoop src =>
    obtain ⟨-, rfl⟩ := Prod.mk.inj (Option.some.inj hstep)
    exact hc.internalInsertNotes_iff h _

/-- From a loop of a project file on, nothing points to a note that is not in the list, as long as no
note is deleted while a slot holds it, and the loop is not cleared or copied to while anything points
to its notes. The first such operation leaves something that points to a deleted note. -/
theorem cursors_in_list (xs : List NoteXml) :
    (∀ ops L, Run step (fun L op _ ↦ L.keepsCursors op = true) (fromXml xs) ops L → L.Cursors) ∧
    ∀ ops L op events L', Run step (fun L op _ ↦ L.keepsCursors op = true) (fromXml xs) ops L →
      L.step op = some (events, L') → (L'.Cursors ↔ L.keepsCursors op = true) := by
  have hboth : ∀ ops L, Run step (fun L op _ ↦ L.keepsCursors op = true) (fromXml xs) ops L →
      L.Linked ∧ L.Cursors := by
    intro ops L hrun
    refine hrun.invariant (fun L ↦ L.Linked ∧ L.Cursors) ?_
      ⟨(fromXml_linked xs).1, cursors_of_unused (fromXml_unused xs)⟩
    rintro L op events L' ⟨h, hc⟩ hkeeps hstep
    exact ⟨h.step hstep, (hc.step_iff h hstep).mpr hkeeps⟩
  refine ⟨fun ops L hrun ↦ (hboth ops L hrun).2, ?_⟩
  intro ops L op events L' hrun hstep
  obtain ⟨h, hc⟩ := hboth ops L hrun
  exact hc.step_iff h hstep

/-- The notes of the list, the note to be played next and those that are active. -/
def pointers (L : LoopObject) : List Nat × Option Nat × List Nat :=
  (L.notes, L.nextNoteToPlay, L.activeNote.filterMap id)

/-- Two notes; the second one is deleted while the first one is played. -/
theorem cursors_in_list_next_deleted : ∃ L,
    Run step (fun L op _ ↦ L.keepsCursors op = true)
      (fromXml [⟨none, none, some 60, none, some 0, some 4⟩,
        ⟨none, none, some 62, none, some 8, some 4⟩])
      [.startToPlay, .process true, .noteDelete 1, .process true] L ∧
    L.pointers = ([0], none, [0]) ∧ L.Cursors := by
  have hsome : (runAll step (fun L op _ ↦ L.keepsCursors op)
      (fromXml [⟨none, none, some 60, none, some 0, some 4⟩,
        ⟨none, none, some 62, none, some 8, some 4⟩])
      [.startToPlay, .process true, .noteDelete 1, .process true]).map pointers =
      some ([0], none, [0]) := by
    decide +kernel
  obtain ⟨L, hL, hpointers⟩ := Option.map_eq_some_iff.mp hsome
  have hrun := Run.of_runAll hL
  exact ⟨L, hrun, hpointers, (cursors_in_list _).1 _ L hrun⟩

/-- The first note is deleted while it is played: its slot still holds it. -/
theorem active_note_deleted : ¬ ∀ (xs : List NoteXml) (ops : List LoopOp) (L : LoopObject),
    Run step (fun _ _ _ ↦ True) (fromXml xs) ops L → L.Cursors := by
  intro hall
  have hsome : (runAll step (fun _ _ _ ↦ true)
      (fromXml [⟨none, none, some 60, none, some 0, some 4⟩])
      [.startToPlay, .process true, .noteDelete 0]).map pointers = some ([], none, [0]) := by
    decide +kernel
  obtain ⟨L, hL, hpointers⟩ := Option.map_eq_some_iff.mp hsome
  have hc := hall _ _ L ((Run.of_runAll hL).mono fun _ _ _ _ ↦ trivial)
  obtain ⟨hnotes, hrest⟩ := Prod.mk.inj hpointers
  obtain ⟨-, hactive⟩ := Prod.mk.inj hrest
  have hmem : 0 ∈ L.activeNote.filterMap id := by
    rw [hactive]
    exact List.mem_singleton_self 0
  obtain ⟨a, ha, rfl⟩ := List.mem_filterMap.mp hmem
  exact absurd (hnotes ▸ hc.active 0 ha) nofun

end LoopObject

end Vuknob
