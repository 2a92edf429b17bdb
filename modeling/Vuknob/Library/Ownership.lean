import Mathlib.Data.List.Nodup
import Mathlib.Logic.Function.Basic

/-!
# Things in the hands of one owner

Of the things that have been handed out, those that are held by a family of owners, each of which
keeps them in a list. Nothing is held twice.
-/

namespace Library

variable {α κ : Type} {out : List α} {lists : κ → List α}

/-- The lists hold things that are out, each of them once. -/
structure Owns (out : List α) (lists : κ → List α) : Prop where
  out : ∀ k, ∀ a ∈ lists k, a ∈ out
  nodup : ∀ k, (lists k).Nodup
  apart : ∀ k j, k ≠ j → (lists k).Disjoint (lists j)

theorem Owns.nil : Owns out fun _ : κ ↦ ([] : List α) where
  out _ _ h := by cases h
  nodup _ := List.nodup_nil
  apart _ _ _ := List.disjoint_nil_left _

/-- More things may be out. -/
theorem Owns.mono (h : Owns out lists) {out' : List α} (hsub : ∀ a ∈ out, a ∈ out') :
    Owns out' lists := ⟨fun k a ha ↦ hsub a (h.out k a ha), h.nodup, h.apart⟩

/-- Something that nobody holds may come back. -/
theorem Owns.erase [DecidableEq α] {a : α} (h : Owns out lists) (ha : ∀ k, a ∉ lists k) :
    Owns (out.erase a) lists := by
  refine ⟨fun k b hb ↦ ?_, h.nodup, h.apart⟩
  have hne : b ≠ a := by
    rintro rfl
    exact ha k hb
  exact (List.mem_erase_of_ne hne).mpr (h.out k b hb)

variable [DecidableEq κ]

/-- An owner lets go of things. -/
theorem Owns.update {k : κ} {l : List α} (h : Owns out lists) (hsub : l.Subset (lists k))
    (hnodup : l.Nodup) : Owns out (Function.update lists k l) := by
  have hmem (j : κ) (a : α) (ha : a ∈ Function.update lists k l j) : a ∈ lists j := by
    rw [Function.update_apply] at ha
    split at ha
    · next hj => exact hj ▸ hsub ha
    · exact ha
  refine ⟨fun j a ha ↦ h.out j a (hmem j a ha), fun j ↦ ?_, fun i j hij a hi hj ↦ ?_⟩
  · rw [Function.update_apply]
    split
    · exact hnodup
    · exact h.nodup j
  · exact h.apart i j hij (hmem i a hi) (hmem j a hj)

/-- An owner takes something that was not out, and may let go of other things. -/
theorem Owns.add {k : κ} {a : α} {l l' : List α} (h : Owns out lists) (ha : a ∉ out)
    (hsub : l.Subset (lists k)) (hnodup : l.Nodup) (hperm : l'.Perm (a :: l)) :
    Owns (a :: out) (Function.update lists k l') := by
  have hmem (j : κ) (b : α) (hb : b ∈ Function.update lists k l' j) : b = a ∧ j = k ∨ b ∈ lists j := by
    rw [Function.update_apply] at hb
    split at hb
    · next hj =>
      rcases List.mem_cons.mp (hperm.mem_iff.mp hb) with hb | hb
      · exact .inl ⟨hb, hj⟩
      · exact .inr (hj ▸ hsub hb)
    · exact .inr hb
  have hfresh (j : κ) : a ∉ lists j := fun hj ↦ ha (h.out j a hj)
  refine ⟨fun j b hb ↦ ?_, fun j ↦ ?_, fun i j hij b hi hj ↦ ?_⟩
  · rcases hmem j b hb with ⟨rfl, -⟩ | hb
    · exact List.mem_cons_self
    · exact List.mem_cons_of_mem a (h.out j b hb)
  · rw [Function.update_apply]
    split
    · exact hperm.nodup_iff.mpr (List.nodup_cons.mpr ⟨fun hl ↦ hfresh k (hsub hl), hnodup⟩)
    · exact h.nodup j
  · rcases hmem i b hi with ⟨rfl, rfl⟩ | hi'
    · rcases hmem j b hj with ⟨-, rfl⟩ | hj'
      · exact hij rfl
      · exact hfresh j hj'
    · rcases hmem j b hj with ⟨rfl, -⟩ | hj'
      · exact hfresh i hi'
      · exact h.apart i j hij hi' hj'

/-- An owner gives something back. -/
theorem Owns.remove [DecidableEq α] {k : κ} {a : α} {l : List α} (h : Owns out lists)
    (hperm : (lists k).Perm (a :: l)) :
    a ∈ out ∧ Owns (out.erase a) (Function.update lists k l) := by
  have hk := List.nodup_cons.mp (hperm.nodup_iff.mp (h.nodup k))
  have hmem : a ∈ lists k := hperm.mem_iff.mpr List.mem_cons_self
  refine ⟨h.out k a hmem, (h.update ?_ hk.2).erase fun j hj ↦ ?_⟩
  · exact fun b hb ↦ hperm.mem_iff.mpr (List.mem_cons_of_mem a hb)
  · rw [Function.update_apply] at hj
    split at hj
    · exact hk.1 hj
    · next hne => exact h.apart j k hne hj hmem

/-! ### Everything has an owner -/

/-- The things of a whole are divided among the lists: each of them is in one, once. -/
structure Divides (whole : α → Prop) (lists : κ → List α) : Prop where
  mem : ∀ a, (∃ k, a ∈ lists k) ↔ whole a
  nodup : ∀ k, (lists k).Nodup
  apart : ∀ k j, k ≠ j → (lists k).Disjoint (lists j)

variable {whole whole' : α → Prop}

omit [DecidableEq κ] in
/-- A thing is in the list of one owner only. -/
theorem Divides.owner_unique (h : Divides whole lists) {a : α} {k j : κ} (hk : a ∈ lists k)
    (hj : a ∈ lists j) : k = j :=
  Classical.byContradiction fun hne ↦ h.apart k j hne hk hj

/-- Something new is given to an owner. -/
theorem Divides.grow (h : Divides whole lists) {k : κ} {a : α} {l : List α} (ha : ¬ whole a)
    (hwhole : ∀ b, whole' b ↔ b = a ∨ whole b) (hperm : l.Perm (a :: lists k)) :
    Divides whole' (Function.update lists k l) := by
  have hfresh : ∀ j, a ∉ lists j := fun j hj ↦ ha ((h.mem a).mp ⟨j, hj⟩)
  have hmem : ∀ j b, b ∈ Function.update lists k l j ↔ b = a ∧ j = k ∨ b ∈ lists j := by
    intro j b
    rw [Function.update_apply]
    split
    · next hj => rw [hperm.mem_iff, List.mem_cons, hj, and_iff_left rfl]
    · next hj => rw [or_iff_right fun hboth ↦ hj hboth.2]
  refine ⟨fun b ↦ ?_, fun j ↦ ?_, fun i j hij b hi hj ↦ ?_⟩
  · rw [hwhole, ← h.mem b]
    constructor
    · rintro ⟨j, hj⟩
      rcases (hmem j b).mp hj with ⟨hb, -⟩ | hb
      · exact .inl hb
      · exact .inr ⟨j, hb⟩
    · rintro (hb | ⟨j, hj⟩)
      · exact ⟨k, (hmem k b).mpr (.inl ⟨hb, rfl⟩)⟩
      · exact ⟨j, (hmem j b).mpr (.inr hj)⟩
  · rw [Function.update_apply]
    split
    · exact hperm.nodup_iff.mpr (List.nodup_cons.mpr ⟨hfresh k, h.nodup k⟩)
    · exact h.nodup j
  · rcases (hmem i b).mp hi with ⟨hb, hik⟩ | hbi
    · rcases (hmem j b).mp hj with ⟨-, hjk⟩ | hbj
      · exact hij (hik.trans hjk.symm)
      · exact hfresh j (hb ▸ hbj)
    · rcases (hmem j b).mp hj with ⟨hb, -⟩ | hbj
      · exact hfresh i (hb ▸ hbi)
      · exact h.apart i j hij hbi hbj

/-- An owner gives something away for good. -/
theorem Divides.shrink (h : Divides whole lists) {k : κ} {a : α} {l : List α}
    (hwhole : ∀ b, whole' b ↔ whole b ∧ b ≠ a) (hperm : (lists k).Perm (a :: l)) :
    Divides whole' (Function.update lists k l) := by
  obtain ⟨hal, hl⟩ := List.nodup_cons.mp (hperm.nodup_iff.mp (h.nodup k))
  have hmem : ∀ j b, b ∈ Function.update lists k l j ↔ b ∈ lists j ∧ b ≠ a := by
    intro j b
    rw [Function.update_apply]
    split
    · next hj =>
      rw [hj, hperm.mem_iff, List.mem_cons]
      constructor
      · exact fun hb ↦ ⟨.inr hb, fun hba ↦ hal (hba ▸ hb)⟩
      · exact fun hb ↦ hb.1.resolve_left hb.2
    · next hj =>
      refine (and_iff_left_of_imp fun hb hba ↦ hj ?_).symm
      exact h.owner_unique (hba ▸ hb) (hperm.mem_iff.mpr List.mem_cons_self)
  refine ⟨fun b ↦ ?_, fun j ↦ ?_, fun i j hij b hi hj ↦ ?_⟩
  · rw [hwhole, ← h.mem b]
    constructor
    · rintro ⟨j, hj⟩
      exact ⟨⟨j, ((hmem j b).mp hj).1⟩, ((hmem j b).mp hj).2⟩
    · rintro ⟨⟨j, hj⟩, hne⟩
      exact ⟨j, (hmem j b).mpr ⟨hj, hne⟩⟩
  · rw [Function.update_apply]
    split
    · exact hl
    · exact h.nodup j
  · exact h.apart i j hij ((hmem i b).mp hi).1 ((hmem j b).mp hj).1

/-- Something goes from one owner to another. -/
theorem Divides.move (h : Divides whole lists) {i j : κ} {a : α} {l l' : List α}
    (hij : i ≠ j) (hi : (lists i).Perm (a :: l)) (hj : l'.Perm (a :: lists j)) :
    Divides whole (Function.update (Function.update lists i l) j l') := by
  have hless : Divides (fun b ↦ whole b ∧ b ≠ a) (Function.update lists i l) :=
    h.shrink (fun _ ↦ .rfl) hi
  have ha : whole a := (h.mem a).mp ⟨i, hi.mem_iff.mpr List.mem_cons_self⟩
  refine hless.grow (fun hboth ↦ hboth.2 rfl) (fun b ↦ ?_) ?_
  · by_cases hb : b = a
    · rw [hb]
      exact iff_of_true ha (.inl rfl)
    · rw [or_iff_right hb, and_iff_left hb]
  · rwa [Function.update_of_ne (Ne.symm hij)]

end Library
