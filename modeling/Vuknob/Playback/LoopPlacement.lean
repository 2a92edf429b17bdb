import Vuknob.Playback.SequenceLengths

/-!
# Placing a loop in the sequence

What `internal_set_loop_id_at`, `src_jni/machine_sequencer.cc:543–562`, does to the sequences of all
sequencers when it refuses and when it does not. A position is tested before anything is changed,
the id of a loop after everything has grown.
-/

namespace Vuknob

open Library

/-- An id that `internal_set_loop_id_at` accepts. -/
def LoopStore.accepts (loopId : Int) (s : LoopStore) : Bool :=
  loopId = noteNotSet ∨ (0 ≤ loopId ∧ (s.loop loopId.toNat).isSome)

theorem LoopStore.accepts_eq_false_iff (loopId : Int) (s : LoopStore) :
    s.accepts loopId = false ↔
      loopId ≠ noteNotSet ∧ (loopId < 0 ∨ s.loop loopId.toNat = none) := by
  rw [accepts, decide_eq_false_iff_not, not_or, not_and_or, Int.not_le,
    Option.not_isSome_iff_eq_none]

/-- What becomes of a sequence that reaches beyond the position. -/
theorem LoopStore.internalSetLoopIdAt_eq {position : Int} (h : 0 ≤ position) (loopId : Int)
    (s : LoopStore) : s.internalSetLoopIdAt position loopId = (s.reach position.toNat).map fun s ↦
      if s.accepts loopId then
        (.returned, { s with loopSequence := s.loopSequence.set position.toNat loopId })
      else (.parameterOutOfSpec, s) := by
  rw [internalSetLoopIdAt, if_neg (by omega)]
  congr 1
  funext s
  cases haccepts : s.accepts loopId with
  | true =>
    rw [if_neg, if_pos rfl]
    rw [← accepts_eq_false_iff, haccepts]
    exact Bool.false_ne_true.symm
  | false => rw [if_pos ((accepts_eq_false_iff loopId s).mp haccepts), if_neg Bool.false_ne_true]

namespace MachineSequencers

/-- The static length and all sequences are as they were. -/
structure Unchanged (w w' : MachineSequencers) : Prop where
  sequenceLength : w'.sequenceLength = w.sequenceLength
  loopSequence : ∀ j, (w'.object j).loopSequence = (w.object j).loopSequence

/-- The entry has the id, all other entries that there were have what they had, and new ones have
nothing. -/
structure Placed (k position : Nat) (loopId : Int) (w w' : MachineSequencers) : Prop where
  entry : (w'.object k).loopSequence[position]? = some loopId
  kept : ∀ j i v, ¬(j = k ∧ i = position) →
    (w.object j).loopSequence[i]? = some v → (w'.object j).loopSequence[i]? = some v
  empty : ∀ j i v, ¬(j = k ∧ i = position) → w.length j ≤ i →
    (w'.object j).loopSequence[i]? = some v → v = noteNotSet

/-- A refusal changes nothing; anything else places the loop. -/
def PlacesOrKeeps (k : Nat) (position loopId : Int) (w : MachineSequencers) : Prop :=
  ∃ r w', w.internalSetLoopIdAt k position loopId = some (r, w') ∧
    (r = .parameterOutOfSpec → w.Unchanged w') ∧
    (r ≠ .parameterOutOfSpec → w.Placed k position.toNat loopId w')

/-- The sequences before an entry is set are the old ones, some with new entries at the end. -/
theorem Placed.of_extended {k position : Nat} {loopId : Int} {w w' : MachineSequencers}
    (extra : Nat → Nat) (hposition : position < w.length k + extra k)
    (hk : (w'.object k).loopSequence =
      ((w.object k).loopSequence ++ List.replicate (extra k) noteNotSet).set position loopId)
    (hother : ∀ j, j ≠ k → (w'.object j).loopSequence =
      (w.object j).loopSequence ++ List.replicate (extra j) noteNotSet) :
    w.Placed k position loopId w' := by
  have hsame : ∀ j i, ¬(j = k ∧ i = position) → (w'.object j).loopSequence[i]? =
      ((w.object j).loopSequence ++ List.replicate (extra j) noteNotSet)[i]? := by
    intro j i hne
    by_cases hj : j = k
    · subst hj
      rw [hk, List.getElem?_set_ne fun hi ↦ hne ⟨rfl, hi.symm⟩]
    · rw [hother j hj]
  refine ⟨?_, fun j i v hne hv ↦ ?_, fun j i v hne hi hv ↦ ?_⟩
  · rw [hk, List.getElem?_set_self]
    rw [List.length_append, List.length_replicate]
    exact hposition
  · obtain ⟨hi, -⟩ := List.getElem?_eq_some_iff.mp hv
    rw [hsame j i hne, List.getElem?_append_left hi, hv]
  · rw [hsame j i hne, List.getElem?_append_right hi] at hv
    exact List.eq_of_mem_replicate (List.mem_of_getElem? hv)

theorem loopSequence_setSequenceLength (w : MachineSequencers) (newv : Int) (j : Nat) :
    ((w.setSequenceLength newv).object j).loopSequence = (w.object j).loopSequence ++
      List.replicate (if w.registered j then newv.toNat - w.length j else 0) noteNotSet := by
  show (if w.registered j then _ else _ : LoopStore).loopSequence = _
  split
  · rfl
  · exact (List.append_nil _).symm

/-- The sequencer that is set has been put back, with the static length. -/
theorem loopSequence_update (object : Nat → LoopStore) (k : Nat) (s : LoopStore) (j : Nat) :
    (Function.update object k s j).loopSequence =
      if j = k then s.loopSequence else (object j).loopSequence := by
  rw [Function.update_apply]
  split <;> rfl

/-- Within the sequence, or in front of it, nothing grows. -/
theorem placesOrKeeps_within {k : Nat} {position loopId : Int} {w : MachineSequencers}
    (h : position < w.length k) : w.PlacesOrKeeps k position loopId := by
  have hkept : w.Unchanged { w with object := Function.update w.object k (w.sequencer k) } := by
    refine ⟨rfl, fun j ↦ ?_⟩
    rw [loopSequence_update]
    split
    · next hj => rw [hj, sequencer]
    · rfl
  rw [PlacesOrKeeps, internalSetLoopIdAt]
  by_cases hnegative : position < 0
  · rw [LoopStore.internalSetLoopIdAt, if_pos hnegative]
    simp only [Option.map_some, if_pos h]
    exact ⟨_, _, rfl, fun _ ↦ hkept, fun hr ↦ absurd rfl hr⟩
  · have hreach : (w.sequencer k).reach position.toNat = some (w.sequencer k) :=
      if_pos (show position.toNat < w.length k by omega)
    rw [LoopStore.internalSetLoopIdAt_eq (by omega), hreach]
    simp only [Option.map_some, if_pos h]
    split
    · refine ⟨_, _, rfl, fun hr ↦ (by cases hr),
        fun _ ↦ .of_extended (fun _ ↦ 0) (by omega) ?_ fun j hj ↦ ?_⟩
      · rw [loopSequence_update, if_pos rfl]
        simp [sequencer]
      · rw [loopSequence_update, if_neg hj]
        simp
    · exact ⟨_, _, rfl, fun _ ↦ hkept, fun hr ↦ absurd rfl hr⟩

/-- Behind its end, everything has grown when the id is looked at. -/
theorem placesOrKeeps_beyond {k : Nat} {position loopId : Int} {w : MachineSequencers}
    (h : w.length k ≤ position) : w.PlacesOrKeeps k position loopId ↔
      (w.object k).accepts loopId = true ∧ position + 16 < 2 ^ 31 := by
  have hreach : (w.sequencer k).reach position.toNat =
      (int (position + 16)).map fun newv ↦ (w.sequencer k).setSequenceLength newv := by
    rw [LoopStore.reach, if_neg, Int.toNat_of_nonneg (by omega)]
    show ¬position.toNat < w.length k
    omega
  rw [PlacesOrKeeps, internalSetLoopIdAt, LoopStore.internalSetLoopIdAt_eq (by omega), hreach]
  by_cases hfits : position + 16 < 2 ^ 31
  · have hint : int (position + 16) = some (position + 16) :=
      int_eq_some_iff.mpr ⟨⟨by omega, hfits⟩, rfl⟩
    rw [hint, and_iff_left hfits]
    simp only [Option.map_some, if_neg (by omega : ¬position < w.length k)]
    have hsame : ((w.sequencer k).setSequenceLength (position + 16)).accepts loopId =
      (w.object k).accepts loopId := rfl
    have hgrown : ((w.sequencer k).setSequenceLength (position + 16)).loopSequence =
        (w.object k).loopSequence ++
          List.replicate ((position + 16).toNat - w.length k) noteNotSet := rfl
    rw [hsame]
    cases haccepts : (w.object k).accepts loopId with
    | true =>
      refine iff_of_true ⟨_, _, rfl, fun hr ↦ (by cases hr), fun _ ↦ ?_⟩ rfl
      refine .of_extended (fun j ↦ if w.registered j ∨ j = k then
        (position + 16).toNat - w.length j else 0) ?_ ?_ fun j hj ↦ ?_
      · rw [if_pos (.inr rfl)]
        omega
      · rw [loopSequence_update, if_pos rfl, if_pos (Or.inr (rfl : k = k))]
        exact congrArg (List.set · position.toNat loopId) hgrown
      · rw [loopSequence_update, if_neg hj]
        refine (loopSequence_setSequenceLength w (position + 16) j).trans ?_
        rw [if_congr (or_iff_left hj) rfl rfl]
    | false =>
      refine iff_of_false ?_ Bool.false_ne_true
      rintro ⟨r, w', heq, hrefused, -⟩
      obtain ⟨rfl, rfl⟩ := Prod.mk.inj (Option.some.inj heq)
      have hkept := (hrefused rfl).loopSequence k
      rw [loopSequence_update, if_pos rfl] at hkept
      have hlength := congrArg List.length (hgrown.symm.trans hkept)
      rw [List.length_append, List.length_replicate] at hlength
      change w.length k + _ = w.length k at hlength
      omega
  · have hint : int (position + 16) = none := by
      rw [int, if_neg (by omega)]
    rw [hint]
    refine iff_of_false ?_ fun hall ↦ hfits hall.2
    rintro ⟨r, w', heq, -⟩
    cases heq

/-- A refusal changes nothing, and anything else places the loop, exactly for a position that is
negative or within the sequence, and beyond it for an id that is accepted. -/
theorem placesOrKeeps_iff (k : Nat) (position loopId : Int) (w : MachineSequencers) :
    w.PlacesOrKeeps k position loopId ↔ position < w.length k ∨
      (w.object k).accepts loopId = true ∧ position + 16 < 2 ^ 31 := by
  by_cases h : position < w.length k
  · exact iff_of_true (placesOrKeeps_within h) (.inl h)
  · rw [placesOrKeeps_beyond (by omega), or_iff_right h]

/-- A program with one sequencer, which is registered, is asked for a loop that is not there at a
position behind its end: the request is refused, and the sequence has become longer. -/
theorem refused_placement_grows : ∃ w w', Run step (fun _ _ _ ↦ True) new
      [.construct, .register 0 0] w ∧
    w.internalSetLoopIdAt 0 20 5 = some (.parameterOutOfSpec, w') ∧
    w.sequenceLength = 16 ∧ w'.sequenceLength = 36 ∧ w.length 0 = 16 ∧ w'.length 0 = 36 ∧
    ¬w.PlacesOrKeeps 0 20 5 := by
  have hsome : (runAll step (fun _ _ _ ↦ true) new [.construct, .register 0 0]).bind (fun w ↦
      (w.internalSetLoopIdAt 0 20 5).map fun p ↦
        (p.1, w.sequenceLength, p.2.sequenceLength, w.length 0, p.2.length 0)) =
      some (.parameterOutOfSpec, 16, 36, 16, 36) := by
    decide +kernel
  obtain ⟨w, hw, hset⟩ := Option.bind_eq_some_iff.mp hsome
  obtain ⟨⟨r, w'⟩, hset, heq⟩ := Option.map_eq_some_iff.mp hset
  simp only [Prod.mk.injEq] at heq
  obtain ⟨rfl, hbefore, hafter, hlengths⟩ := heq
  have hrun := (Run.of_runAll hw).mono fun _ _ _ _ ↦ trivial
  refine ⟨w, w', hrun, hset, hbefore, hafter, hlengths.1, hlengths.2, ?_⟩
  rintro ⟨r, w'', hset', hrefused, -⟩
  obtain ⟨rfl, rfl⟩ := Prod.mk.inj (Option.some.inj (hset.symm.trans hset'))
  have hkept := (hrefused rfl).sequenceLength
  rw [hbefore, hafter] at hkept
  exact absurd hkept (by decide)

end MachineSequencers

end Vuknob
