import Mathlib.Data.List.Nodup
import Vuknob.Playback.Pad

/-!
# A tick of a finger

The loop of `process_finger_motions`, `src_jni/engine_code/pad.cc:946–965`, plays every motion for
itself: what it does to one of them does not depend on the others.
-/

namespace Vuknob

namespace PadFinger

/-- The first motions of the list have been started, up to one that does not start. -/
structure Started (position : Int) (l first rest : List Nat) (F F' : PadFinger) : Prop where
  list : l = first ++ rest
  nodup : first.Nodup
  finger : F' = { F with
    motions := F'.motions
    playingMotions := F.playingMotions ++ first
    nextMotionToPlay := rest.head? }
  others : ∀ j ∉ first, F'.motions j = F.motions j
  started : ∀ j ∈ first, (F.motions j).startMotion position = some (F'.motions j)
  waiting : ∀ j ∈ rest.head?, (F'.motions j).startMotion position = none

theorem exists_started_startMotions (position : Int) (l : List Nat) (F : PadFinger) :
    ∃ first rest, Started position l first rest F (F.startMotions position l) := by
  induction l generalizing F with
  | nil =>
    refine ⟨[], [], rfl, .nil, ?_, fun _ _ ↦ rfl, by simp, by simp⟩
    simp [startMotions]
  | cons k rest ih =>
    rw [startMotions]
    cases hk : (F.motions k).startMotion position with
    | none =>
      refine ⟨[], k :: rest, rfl, .nil, ?_, fun _ _ ↦ rfl, by simp, ?_⟩
      · simp
      · intro j hj
        obtain rfl := Option.some.inj hj
        exact hk
    | some m =>
      obtain ⟨first, rest', h⟩ := ih { F.write k m with playingMotions := F.playingMotions ++ [k] }
      have hindex : m.index = 0 := by
        rw [(PadMotion.startMotion_eq_some_iff.mp hk).2]
      -- a motion that has been started does not start again
      have hnot : k ∉ first := by
        intro hmem
        have hagain := (PadMotion.startMotion_eq_some_iff.mp (h.started k hmem)).1.1
        simp [write, hindex] at hagain
      refine ⟨k :: first, rest', ?_, List.nodup_cons.mpr ⟨hnot, h.nodup⟩, ?_, ?_, ?_, h.waiting⟩
      · rw [List.cons_append, ← h.list]
      · refine h.finger.trans ?_
        simp only [write, List.append_assoc, List.singleton_append]
      · intro j hj
        rw [List.mem_cons, not_or] at hj
        rw [h.others j hj.2]
        exact Function.update_of_ne hj.1 ..
      · intro j hj
        rcases List.mem_cons.mp hj with rfl | hj
        · rw [h.others j hnot, hk]
          simp [write]
        · have hstarted := h.started j hj
          have hne : j ≠ k := fun heq ↦ hnot (heq ▸ hj)
          rw [← hstarted]
          simp [write, Function.update_of_ne hne]

/-- Recorded motions may have been started. -/
theorem startRecorded_cases (mute : Bool) (position : Int) (F : PadFinger) :
    (∃ first rest, Started position F.upcoming first rest F (F.startRecorded mute position)) ∨
      F.startRecorded mute position =
        { F with nextMotionToPlay := if mute then none else F.nextMotionToPlay } := by
  rw [startRecorded]
  split
  · exact .inl (exists_started_startMotions position F.upcoming F)
  · split
    · exact .inr rfl
    · exact .inr rfl

theorem mem_recorded_of_mem_upcoming {F : PadFinger} {k : Nat} (h : k ∈ F.upcoming) :
    k ∈ F.recorded := by
  rw [upcoming] at h
  split at h
  · exact (List.dropWhile_sublist _).subset h
  · cases h

section

variable (doRecord mute quantize : Bool) (scales : Scales)

/-- Motions of the list have been played, and those that have finished taken out. -/
structure Ticked (l : List Nat) (F F' : PadFinger) (calls : List PadCall) : Prop where
  calls : calls = l.flatMap fun j ↦ ((F.motions j).processMotion mute scales).1
  toBeDeleted : F'.toBeDeleted = F.toBeDeleted
  fresh : F'.fresh = F.fresh
  nextMotionToPlay : F'.nextMotionToPlay = F.nextMotionToPlay
  playing : F'.playingMotions =
    F.playingMotions.filter fun j ↦ j ∉ l ∨ (F.motions j).finished = false
  current : ∀ j, F'.current = some j ↔
    F.current = some j ∧ (j ∉ l ∨ (F.motions j).finished = false)
  others : ∀ j ∉ l, F'.motions j = F.motions j
  going : ∀ j ∈ l, (F.motions j).finished = false →
    F'.motions j = ((F.motions j).processMotion mute scales).2.2
  gone : ∀ j ∈ l, (F.motions j).finished = true → ∃ startTick, F'.motions j =
    { ((F.motions j).processMotion mute scales).2.2 with startTick := startTick }
  recorded : ∀ j ∈ F'.recorded, j ∈ F.recorded ∨ j ∈ l ∧ (F.motions j).finished = true

theorem ticked_nil (F : PadFinger) : Ticked mute scales [] F F [] where
  calls := rfl
  toBeDeleted := rfl
  fresh := rfl
  nextMotionToPlay := rfl
  playing := by simp
  current := by simp
  others _ _ := rfl
  going j hj := by cases hj
  gone j hj := by cases hj
  recorded j hj := .inl hj

theorem mem_recordMotion {motions : Nat → PadMotion} {k j : Nat} {l : List Nat}
    (h : j ∈ recordMotion motions k l) : j = k ∨ j ∈ l := by
  induction l with
  | nil => exact .inl (List.mem_singleton.mp h)
  | cons top rest ih =>
    rw [recordMotion] at h
    split at h
    · exact List.mem_cons.mp h
    · rcases List.mem_cons.mp h with rfl | h
      · exact .inr (List.mem_cons_self ..)
      · exact (ih h).imp_right (List.mem_cons_of_mem _)

/-- A motion that has finished is taken out, and recorded if it is the current one. -/
theorem finish_write (F : PadFinger) (k : Nat) (m : PadMotion) :
    (F.write k m).finish doRecord quantize k =
      { F.write k { m with
          startTick := if (doRecord ∧ F.current = some k) ∧ quantize then quantizeTick m.startTick
            else m.startTick } with
        playingMotions := F.playingMotions.erase k
        recorded := if doRecord ∧ F.current = some k then
          recordMotion (F.write k m).motions k F.recorded else F.recorded
        links := if doRecord ∧ F.current = some k then
          recordLinks (F.write k m).motions F.fresh k F.links else F.links
        current := if F.current = some k then none else F.current } := by
  rw [finish]
  by_cases hcurrent : F.current = some k
  · cases doRecord <;> cases quantize <;> simp [write, hcurrent, PadMotion.quantize]
  · simp [write, hcurrent]

theorem ticked_playMotion {F : PadFinger} (hnodup : F.playingMotions.Nodup) (k : Nat) :
    Ticked mute scales [k] F (F.playMotion doRecord mute quantize scales k).2
      (F.playMotion doRecord mute quantize scales k).1 := by
  have hresult := PadMotion.snd_processMotion mute scales (F.motions k)
  have hfilter : F.playingMotions.erase k = F.playingMotions.filter (· != k) :=
    hnodup.erase_eq_filter k
  have hothers : ∀ m, ∀ j ∉ [k], Function.update F.motions k m j = F.motions j := by
    intro m j hj
    exact Function.update_of_ne (by simpa using hj) ..
  unfold playMotion
  generalize hplayed : (F.motions k).processMotion mute scales = played at hresult
  obtain ⟨calls, finished, m⟩ := played
  dsimp only at hresult ⊢
  subst hresult
  cases hfinished : (F.motions k).finished with
  | false =>
    rw [if_neg Bool.false_ne_true]
    refine ⟨?_, rfl, rfl, rfl, ?_, ?_, hothers m, ?_, ?_, fun j hj ↦ .inl hj⟩
    · simp [hplayed]
    · symm
      refine List.filter_eq_self.mpr fun j hj ↦ ?_
      by_cases hjk : j = k <;> simp [hjk, hfinished]
    · intro j
      by_cases hjk : j = k <;> simp [write, hjk, hfinished]
    · intro j hj _
      obtain rfl := List.mem_singleton.mp hj
      rw [hplayed]
      exact Function.update_self ..
    · intro j hj hj'
      obtain rfl := List.mem_singleton.mp hj
      rw [hfinished] at hj'
      cases hj'
  | true =>
    have hcurrent : ∀ j, (if F.current = some k then none else F.current) = some j ↔
        F.current = some j ∧ j ≠ k := by
      intro j
      split
      · next hk => simp [hk, eq_comm]
      · next hk =>
        refine ⟨fun hj ↦ ⟨hj, ?_⟩, (·.1)⟩
        rintro rfl
        exact hk hj
    have hrecorded : ∀ j ∈ if doRecord ∧ F.current = some k then
        recordMotion (F.write k m).motions k F.recorded else F.recorded,
          j ∈ F.recorded ∨ j = k := by
      intro j hj
      split at hj
      · exact (mem_recordMotion hj).symm
      · exact .inl hj
    rw [if_pos rfl, finish_write]
    refine ⟨?_, rfl, rfl, rfl, ?_, ?_, hothers _, ?_, ?_, ?_⟩
    · simp [hplayed]
    · dsimp only
      rw [hfilter]
      refine List.filter_congr fun j _ ↦ ?_
      by_cases hjk : j = k <;> simp [hjk, hfinished]
    · intro j
      rw [hcurrent]
      by_cases hjk : j = k <;> simp [hjk, hfinished]
    · intro j hj hj'
      obtain rfl := List.mem_singleton.mp hj
      rw [hfinished] at hj'
      cases hj'
    · intro j hj _
      obtain rfl := List.mem_singleton.mp hj
      rw [hplayed]
      exact ⟨_, Function.update_self ..⟩
    · intro j hj
      refine (hrecorded j hj).imp_right ?_
      rintro rfl
      exact ⟨List.mem_singleton_self j, hfinished⟩

variable {mute scales}

/-- One motion after the other. -/
theorem Ticked.cons {k : Nat} {rest : List Nat} {F F' F'' : PadFinger} {calls more : List PadCall}
    (h : Ticked mute scales [k] F F' calls) (hrest : Ticked mute scales rest F' F'' more)
    (hk : k ∉ rest) : Ticked mute scales (k :: rest) F F'' (calls ++ more) := by
  have hsame : ∀ j, j ≠ k → F'.motions j = F.motions j := by
    intro j hj
    exact h.others j (by simpa using hj)
  have hne : ∀ j ∈ rest, j ≠ k := by
    rintro j hj rfl
    exact hk hj
  refine ⟨?_, hrest.toBeDeleted.trans h.toBeDeleted, hrest.fresh.trans h.fresh,
    hrest.nextMotionToPlay.trans h.nextMotionToPlay, ?_, ?_, ?_, ?_, ?_, ?_⟩
  · rw [h.calls, hrest.calls, List.flatMap_singleton, List.flatMap_cons]
    refine congrArg _ (List.flatMap_congr fun j hj ↦ ?_)
    rw [hsame j (hne j hj)]
  · rw [hrest.playing, h.playing, List.filter_filter]
    refine List.filter_congr fun j _ ↦ ?_
    by_cases hjk : j = k
    · subst hjk
      simp [hk]
    · simp [hjk, hsame j hjk]
  · intro j
    rw [hrest.current, h.current]
    by_cases hjk : j = k
    · subst hjk
      simp [hk]
    · simp [hjk, hsame j hjk]
  · intro j hj
    rw [List.mem_cons, not_or] at hj
    rw [hrest.others j hj.2, hsame j hj.1]
  · intro j hj hgoing
    rcases List.mem_cons.mp hj with rfl | hj
    · rw [hrest.others j hk, h.going j (List.mem_singleton_self j) hgoing]
    · rw [← hsame j (hne j hj)] at hgoing ⊢
      exact hrest.going j hj hgoing
  · intro j hj hgone
    rcases List.mem_cons.mp hj with rfl | hj
    · rw [hrest.others j hk]
      exact h.gone j (List.mem_singleton_self j) hgone
    · rw [← hsame j (hne j hj)] at hgone ⊢
      exact hrest.gone j hj hgone
  · intro j hj
    rcases hrest.recorded j hj with hj | ⟨hj, hgone⟩
    · rcases h.recorded j hj with hj | ⟨hj, hgone⟩
      · exact .inl hj
      · obtain rfl := List.mem_singleton.mp hj
        exact .inr ⟨List.mem_cons_self .., hgone⟩
    · rw [hsame j (hne j hj)] at hgone
      exact .inr ⟨List.mem_cons_of_mem k hj, hgone⟩

variable (mute scales)

/-- The whole loop. -/
theorem ticked_playMotions {F : PadFinger} (hnodup : F.playingMotions.Nodup) {l : List Nat}
    (hl : l.Nodup) : Ticked mute scales l F (F.playMotions doRecord mute quantize scales l).2
      (F.playMotions doRecord mute quantize scales l).1 := by
  induction l generalizing F with
  | nil => exact ticked_nil mute scales F
  | cons k rest ih =>
    obtain ⟨hk, hrest⟩ := List.nodup_cons.mp hl
    have hfirst := ticked_playMotion doRecord mute quantize scales hnodup k
    have hkept : (F.playMotion doRecord mute quantize scales k).2.playingMotions.Nodup := by
      rw [hfirst.playing]
      exact hnodup.filter _
    exact hfirst.cons (ih hkept hrest) hk

end

theorem toBeDeleted_startRecorded (mute : Bool) (position : Int) (F : PadFinger) :
    (F.startRecorded mute position).toBeDeleted = F.toBeDeleted := by
  rcases startRecorded_cases mute position F with ⟨first, rest, h⟩ | heq
  · rw [h.finger]
  · rw [heq]

theorem toBeDeleted_processFingerEvents (F : PadFinger) (config : PadConfiguration)
    (pe : PadEvent) (position : Int) :
    (F.processFingerEvents config pe position).toBeDeleted = F.toBeDeleted := by
  rw [processFingerEvents]
  split
  · rfl
  · split
    · rw [press]
      split <;> rfl
    · rw [onCurrent]
      split <;> rfl
    · rw [onCurrent]
      split <;> rfl
    · rfl

end PadFinger

theorem PadSession.playingMotions_of_completed {s : PadSession} (h : s.completed = true)
    (f : PadFingerId) : (s.finger f).playingMotions = [] := by
  have hf := List.all_eq_true.mp h f (List.mem_finRange f)
  rw [PadFinger.completed, Bool.and_eq_true, List.isEmpty_iff] at hf
  exact hf.1

end Vuknob
