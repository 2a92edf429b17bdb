import Mathlib.Data.List.Nodup
import Std.Data.ExtTreeMap

/-!
# Maps filled by a sequence of writes

A write is a pair of a key and a value. Of a sequence of writes to an empty map those
remain whose key is not written again later.
-/

namespace Library

variable {α β : Type} [DecidableEq α]

/-- The writes whose key is written again later. -/
def overwritten : List (α × β) → List (α × β)
  | [] => []
  | e :: es => if e.1 ∈ es.map Prod.fst then e :: overwritten es else overwritten es

/-- The writes whose key is not written again later. -/
def surviving : List (α × β) → List (α × β)
  | [] => []
  | e :: es => if e.1 ∈ es.map Prod.fst then surviving es else e :: surviving es

/-- Every write is overwritten or survives. -/
theorem overwritten_append_surviving_perm (es : List (α × β)) :
    (overwritten es ++ surviving es).Perm es := by
  induction es with
  | nil => exact .nil
  | cons e es ih =>
    rw [overwritten, surviving]
    split
    · exact ih.cons e
    · exact List.perm_middle.trans (ih.cons e)

/-- Writes to distinct keys all survive. -/
theorem surviving_of_nodup {es : List (α × β)} (h : (es.map Prod.fst).Nodup) :
    surviving es = es := by
  induction es with
  | nil => rfl
  | cons e es ih =>
    rw [List.map_cons, List.nodup_cons] at h
    rw [surviving, if_neg h.1, ih h.2]

/-- Writes to distinct keys overwrite none of each other. -/
theorem overwritten_of_nodup {es : List (α × β)} (h : (es.map Prod.fst).Nodup) :
    overwritten es = [] := by
  induction es with
  | nil => rfl
  | cons e es ih =>
    rw [List.map_cons, List.nodup_cons] at h
    rw [overwritten, if_neg h.1, ih h.2]

/-- A surviving write is one of the writes. -/
theorem mem_of_mem_surviving {es : List (α × β)} {e : α × β} (h : e ∈ surviving es) : e ∈ es :=
  (overwritten_append_surviving_perm es).mem_iff.mp (List.mem_append_right _ h)

/-- The keys of the surviving writes are distinct. -/
theorem nodup_surviving (es : List (α × β)) : ((surviving es).map Prod.fst).Nodup := by
  induction es with
  | nil => exact .nil
  | cons e es ih =>
    rw [surviving]
    split
    · exact ih
    · next he =>
      rw [List.map_cons, List.nodup_cons]
      refine ⟨fun h ↦ he ?_, ih⟩
      obtain ⟨e', he', hk⟩ := List.mem_map.mp h
      exact List.mem_map.mpr ⟨e', mem_of_mem_surviving he', hk⟩

/-- Renaming the keys without identifying any keeps the surviving writes. -/
theorem surviving_map {γ δ : Type} [DecidableEq γ] (f : α → γ) (g : β → δ) {es : List (α × β)}
    (hf : ∀ a ∈ es.map Prod.fst, ∀ b ∈ es.map Prod.fst, f a = f b → a = b) :
    surviving (es.map (Prod.map f g)) = (surviving es).map (Prod.map f g) := by
  induction es with
  | nil => rfl
  | cons e es ih =>
    have hkeys : f e.1 ∈ (es.map (Prod.map f g)).map Prod.fst ↔ e.1 ∈ es.map Prod.fst := by
      rw [List.map_map]
      constructor
      · intro h
        obtain ⟨e', he', hk⟩ := List.mem_map.mp h
        have hmem : e'.1 ∈ es.map Prod.fst := List.mem_map_of_mem he'
        rw [← hf e'.1 (List.mem_cons_of_mem _ hmem) e.1 List.mem_cons_self hk]
        exact hmem
      · intro h
        obtain ⟨e', he', hk⟩ := List.mem_map.mp h
        exact List.mem_map.mpr ⟨e', he', congrArg f hk⟩
    have ih := ih fun a ha b hb ↦
      hf a (List.mem_cons_of_mem _ ha) b (List.mem_cons_of_mem _ hb)
    rw [List.map_cons, surviving, surviving, Prod.map_fst, ih]
    by_cases he : e.1 ∈ es.map Prod.fst
    · rw [if_pos he, if_pos (hkeys.mpr he)]
    · rw [if_neg he, if_neg (fun h ↦ he (hkeys.mp h)), List.map_cons]

variable [Ord α] [Std.TransOrd α] [Std.LawfulEqOrd α]

/-- What a key holds after the writes: the value of its surviving write, or what it held
before when it was not written. -/
theorem getElem?_insertMany_eq_some_iff (t : Std.ExtTreeMap α β) (es : List (α × β)) (k : α)
    (v : β) :
    (t.insertMany es)[k]? = some v ↔
      (k, v) ∈ surviving es ∨ k ∉ es.map Prod.fst ∧ t[k]? = some v := by
  induction es generalizing t with
  | nil => simp [surviving]
  | cons e es ih =>
    obtain ⟨k', v'⟩ := e
    rw [Std.ExtTreeMap.insertMany_cons, ih, Std.ExtTreeMap.getElem?_insert, surviving]
    by_cases hk : k' = k
    · subst hk
      by_cases hlater : k' ∈ es.map Prod.fst
      · simp [hlater]
      · have hnot : (k', v) ∉ surviving es := fun h ↦
          hlater (List.mem_map.mpr ⟨_, mem_of_mem_surviving h, rfl⟩)
        simp [hlater, hnot, eq_comm]
    · have hcmp : compare k' k ≠ .eq := fun h ↦ hk (Std.LawfulEqCmp.eq_of_compare h)
      have hk' : k ≠ k' := Ne.symm hk
      rw [if_neg hcmp, List.map_cons, List.mem_cons]
      split
      · simp [hk']
      · simp [hk']

/-- The entries of a map filled from empty are the surviving writes. -/
theorem toList_insertMany_perm (es : List (α × β)) :
    ((∅ : Std.ExtTreeMap α β).insertMany es).toList.Perm (surviving es) := by
  have hmap : ((∅ : Std.ExtTreeMap α β).insertMany es).toList.Nodup :=
    Std.ExtTreeMap.distinct_keys_toList.imp fun {a b} hne (heq : a = b) ↦
      hne (heq ▸ Std.ReflCmp.compare_self)
  refine (List.perm_ext_iff_of_nodup hmap (List.Nodup.of_map _ (nodup_surviving es))).mpr ?_
  rintro ⟨k, v⟩
  rw [Std.ExtTreeMap.mem_toList_iff_getElem?_eq_some, getElem?_insertMany_eq_some_iff]
  simp

/-- The entries of a map filled from empty are the surviving writes put in order. -/
theorem toList_insertMany_eq {es sorted : List (α × β)} (hperm : sorted.Perm (surviving es))
    (hsorted : sorted.Pairwise fun a b ↦ compare a.1 b.1 = .lt) :
    ((∅ : Std.ExtTreeMap α β).insertMany es).toList = sorted := by
  refine List.Perm.eq_of_pairwise (fun a b _ _ hab hba ↦ ?_) Std.ExtTreeMap.ordered_keys_toList
    hsorted ((toList_insertMany_perm es).trans hperm.symm)
  exact absurd hba (Std.OrientedCmp.not_lt_of_lt hab)

/-- Filling a map from the renamed entries of another one is carrying out its writes under
their new names. -/
theorem insertMany_map_toList {γ δ : Type} [DecidableEq γ] [Ord γ] [Std.TransOrd γ]
    [Std.LawfulEqOrd γ] (f : α → γ) (g : β → δ) {es : List (α × β)}
    (hf : ∀ a ∈ es.map Prod.fst, ∀ b ∈ es.map Prod.fst, f a = f b → a = b) :
    (∅ : Std.ExtTreeMap γ δ).insertMany
        (((∅ : Std.ExtTreeMap α β).insertMany es).toList.map (Prod.map f g)) =
      (∅ : Std.ExtTreeMap γ δ).insertMany (es.map (Prod.map f g)) := by
  have hperm := (toList_insertMany_perm es).map (Prod.map f g)
  rw [← surviving_map f g hf] at hperm
  have hnodup := (hperm.map Prod.fst).nodup_iff.mpr (nodup_surviving _)
  apply Std.ExtTreeMap.ext_getElem?
  intro k
  apply Option.ext
  intro v
  rw [getElem?_insertMany_eq_some_iff, getElem?_insertMany_eq_some_iff,
    surviving_of_nodup hnodup, hperm.mem_iff]
  simp

end Library
