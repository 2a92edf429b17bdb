import Mathlib.Data.List.Nodup
import Mathlib.Data.List.Perm.Basic

/-!
# Entries taken in time

Every entry of a list has a time. At time `n` the first entries of what is left are taken, as long
as their time is `n`. All entries are taken at their times if and only if the list is sorted by
them: an entry behind a later one is never the first in time.
-/

namespace Library

variable {α : Type} (time : α → Int) (l : List α)

/-- What is left at time `n`. -/
def leftAt : Nat → List α
  | 0 => l
  | n + 1 => (leftAt n).dropWhile fun a ↦ time a = n

/-- What is taken at time `n`. -/
def takenAt (n : Nat) : List α := (leftAt time l n).takeWhile fun a ↦ time a = n

/-- What has been taken before time `n`. -/
def takenBefore (n : Nat) : List α := (List.range n).flatMap (takenAt time l)

/-- There is a time when all is over. -/
theorem exists_bound : ∃ n : Nat, ∀ a ∈ l, time a < n := by
  induction l with
  | nil => exact ⟨0, nofun⟩
  | cons b l ih =>
    obtain ⟨n, hn⟩ := ih
    refine ⟨n + (time b).toNat + 1, fun a ha ↦ ?_⟩
    rcases List.mem_cons.mp ha with rfl | ha
    · omega
    · have := hn a ha
      omega

theorem takenBefore_append_leftAt (n : Nat) : takenBefore time l n ++ leftAt time l n = l := by
  induction n with
  | zero => rfl
  | succ n ih =>
    rw [takenBefore, List.range_succ, List.flatMap_append, List.flatMap_singleton, leftAt, takenAt,
      List.append_assoc, List.takeWhile_append_dropWhile]
    exact ih

variable {time l}

theorem time_of_mem_takenAt {n : Nat} {a : α} (h : a ∈ takenAt time l n) : time a = n := by
  exact of_decide_eq_true (List.all_eq_true.mp List.all_takeWhile a h)

/-- What is taken is taken in the order of time. -/
theorem pairwise_takenBefore (n : Nat) :
    (takenBefore time l n).Pairwise fun a b ↦ time a ≤ time b := by
  refine List.pairwise_flatMap.mpr ⟨fun i _ ↦ ?_, ?_⟩
  · refine List.pairwise_of_forall_mem_list ?_
    intro a ha b hb
    exact Int.le_of_eq ((time_of_mem_takenAt ha).trans (time_of_mem_takenAt hb).symm)
  · refine List.pairwise_lt_range.imp ?_
    intro i j hij a ha b hb
    rw [time_of_mem_takenAt ha, time_of_mem_takenAt hb]
    omega

/-- Where no entry is earlier than `n`, the first ones are all that are due. -/
theorem takeWhile_eq_filter {n : Int} (hsorted : l.Pairwise fun a b ↦ time a ≤ time b)
    (h : ∀ a ∈ l, n ≤ time a) :
    (l.takeWhile fun a ↦ time a = n) = l.filter (fun a ↦ time a = n) ∧
      (l.dropWhile fun a ↦ time a = n) = l.filter (fun a ↦ n + 1 ≤ time a) := by
  induction l with
  | nil => exact ⟨rfl, rfl⟩
  | cons a l ih =>
    obtain ⟨ha, hl⟩ := List.pairwise_cons.mp hsorted
    obtain ⟨htake, hdrop⟩ := ih hl fun b hb ↦ h b (List.mem_cons_of_mem a hb)
    by_cases hdue : time a = n
    · rw [List.takeWhile_cons_of_pos (by simpa using hdue),
        List.dropWhile_cons_of_pos (by simpa using hdue), List.filter_cons_of_pos (by simpa using hdue),
        List.filter_cons_of_neg (by simp; omega), htake, hdrop]
      exact ⟨rfl, rfl⟩
    · -- all others are later still
      have hfirst := h a (List.mem_cons_self ..)
      have hlater : ∀ b ∈ a :: l, n + 1 ≤ time b := by
        intro b hb
        rcases List.mem_cons.mp hb with rfl | hb
        · omega
        · have := ha b hb
          omega
      rw [List.takeWhile_cons_of_neg (by simpa using hdue),
        List.dropWhile_cons_of_neg (by simpa using hdue)]
      constructor
      · symm
        refine List.filter_eq_nil_iff.mpr fun b hb ↦ ?_
        have := hlater b hb
        simp only [decide_eq_true_eq]
        omega
      · symm
        exact List.filter_eq_self.mpr fun b hb ↦ by simpa using hlater b hb

/-- In a sorted list, what is left is what is not due before. -/
theorem leftAt_eq_filter (hsorted : l.Pairwise fun a b ↦ time a ≤ time b)
    (h : ∀ a ∈ l, 0 ≤ time a) (n : Nat) : leftAt time l n = l.filter fun a ↦ n ≤ time a := by
  induction n with
  | zero =>
    symm
    exact List.filter_eq_self.mpr fun a ha ↦ by simpa using h a ha
  | succ n ih =>
    have hpart := takeWhile_eq_filter (n := n) (hsorted.filter fun a ↦ n ≤ time a)
      fun a ha ↦ by simpa using (List.mem_filter.mp ha).2
    rw [leftAt, ih, hpart.2, List.filter_filter]
    refine List.filter_congr fun a _ ↦ ?_
    rw [← Bool.decide_and]
    exact decide_eq_decide.mpr ⟨fun hle ↦ by omega, fun hle ↦ ⟨by omega, by omega⟩⟩

/-- In a sorted list, what is taken is what is due. -/
theorem takenAt_eq_filter (hsorted : l.Pairwise fun a b ↦ time a ≤ time b)
    (h : ∀ a ∈ l, 0 ≤ time a) (n : Nat) : takenAt time l n = l.filter fun a ↦ time a = n := by
  have hpart := takeWhile_eq_filter (n := n) (hsorted.filter fun a ↦ n ≤ time a)
    fun a ha ↦ by simpa using (List.mem_filter.mp ha).2
  rw [takenAt, leftAt_eq_filter hsorted h, hpart.1, List.filter_filter]
  refine List.filter_congr fun a _ ↦ ?_
  rw [← Bool.decide_and]
  exact decide_eq_decide.mpr ⟨fun heq ↦ heq.1, fun heq ↦ ⟨heq, by omega⟩⟩

/-- All entries are taken at their times if and only if the list is sorted. -/
theorem takenAt_eq_filter_iff (hnodup : l.Nodup) (h : ∀ a ∈ l, 0 ≤ time a) :
    (∀ n : Nat, takenAt time l n = l.filter fun a ↦ time a = n) ↔
      l.Pairwise fun a b ↦ time a ≤ time b := by
  constructor
  · intro htaken
    -- at the end nothing is left, as all has been taken
    obtain ⟨n, hn⟩ := exists_bound time l
    have hall := takenBefore_append_leftAt time l n
    have hend : leftAt time l n = [] := by
      refine List.eq_nil_iff_forall_not_mem.mpr fun a ha ↦ ?_
      have hmem : a ∈ l := hall ▸ List.mem_append_right _ ha
      have hpos := h a hmem
      have hlt := hn a hmem
      refine (List.nodup_append'.mp (hall ▸ hnodup)).2.2 (List.mem_flatMap.mpr
        ⟨(time a).toNat, List.mem_range.mpr (by omega), ?_⟩) ha
      rw [htaken]
      exact List.mem_filter.mpr ⟨hmem, by simp [Int.toNat_of_nonneg hpos]⟩
    rw [hend, List.append_nil] at hall
    rw [← hall]
    exact pairwise_takenBefore n
  · exact fun hsorted ↦ takenAt_eq_filter hsorted h

/-! ## Places in a list -/

/-- Places of exactly those entries that satisfy a condition. -/
theorem perm_filter_of_places {ks : List Nat} (p : α → Bool)
    (hnodup : ks.Nodup) (hmem : ∀ k, k ∈ ks ↔ ∃ a, l[k]? = some a ∧ p a = true) :
    ks.length = (l.filter p).length ∧ (ks.filterMap fun k ↦ l[k]?).Perm (l.filter p) := by
  have hbelow : ((l.zipIdx.filter fun e ↦ p e.1).map Prod.snd).Nodup := by
    refine List.Nodup.sublist (List.filter_sublist.map Prod.snd) ?_
    rw [List.zipIdx_map_snd]
    exact List.nodup_range'
  have hplaces : ks.Perm ((l.zipIdx.filter fun e ↦ p e.1).map Prod.snd) := by
    refine (List.perm_ext_iff_of_nodup hnodup hbelow).mpr fun k ↦ (hmem k).trans ?_
    simp only [List.mem_map, List.mem_filter, Prod.exists, List.mk_mem_zipIdx_iff_getElem?,
      exists_eq_right]
  have hfilter : (l.zipIdx.filter fun e ↦ p e.1).map Prod.fst = l.filter p := by
    conv_rhs => rw [← List.zipIdx_map_fst 0 l, List.filter_map]
    rfl
  constructor
  · rw [hplaces.length_eq, List.length_map, ← hfilter, List.length_map]
  · refine (hplaces.filterMap _).trans (List.Perm.of_eq ?_)
    rw [List.filterMap_map, ← hfilter, ← List.filterMap_eq_map]
    refine List.filterMap_congr fun e he ↦ ?_
    exact List.mk_mem_zipIdx_iff_getElem?.mp (List.mem_of_mem_filter he)

end Library
