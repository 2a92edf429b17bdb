import Mathlib.Data.List.Chain
import Mathlib.Data.List.Nodup
import Mathlib.Logic.Function.Basic

/-!
# Circular linked lists

A list of nodes whose next pointers lead from each node to the one after it, and from the last one
back to the first. The list may be started at any of its nodes.
-/

namespace Library

variable {α : Type}

/-- The next pointers lead once round the list. -/
def Cyclic (next : α → Option α) (l : List α) : Prop :=
  (l ++ l.take 1).IsChain fun a b ↦ next a = some b

/-- A chain depends on the pointers of all its nodes but the last. -/
private theorem isChain_congr {next next' : α → Option α} {l : List α} {z : α}
    (h : (l ++ [z]).IsChain fun a b ↦ next a = some b) (heq : ∀ a ∈ l, next' a = next a) :
    (l ++ [z]).IsChain fun a b ↦ next' a = some b := by
  induction l with
  | nil => exact .singleton z
  | cons a l ih =>
    obtain ⟨hhead, hrest⟩ := List.forall_mem_cons.mp heq
    obtain ⟨hnext, htail⟩ := List.isChain_cons.mp h
    exact List.isChain_cons.mpr ⟨fun b hb ↦ hhead.trans (hnext b hb), ih htail hrest⟩

/-- Only the pointers of the nodes of the list matter. -/
theorem Cyclic.congr {next next' : α → Option α} {l : List α} (h : Cyclic next l)
    (heq : ∀ a ∈ l, next' a = next a) : Cyclic next' l := by
  cases l with
  | nil => exact .nil
  | cons a l => exact isChain_congr h heq

namespace Cyclic

variable {next : α → Option α} {a b t n : α} {l r : List α}

theorem singleton (h : next a = some a) : Cyclic next [a] := by
  simpa [Cyclic] using h

/-- Where the list starts does not matter. -/
theorem rotate (h : Cyclic next (l ++ r)) : Cyclic next (r ++ l) := by
  cases l with
  | nil => simpa using h
  | cons a l =>
    cases r with
    | nil => simpa using h
    | cons b r =>
      have hboth : ((a :: l) ++ b :: (r ++ [a])).IsChain fun a b ↦ next a = some b := by
        simpa [Cyclic] using h
      obtain ⟨hleft, hright⟩ := List.isChain_split.mp hboth
      have hsplit : ((b :: r) ++ a :: (l ++ [b])).IsChain fun a b ↦ next a = some b :=
        List.isChain_split.mpr ⟨by simpa using hright, by simpa using hleft⟩
      simpa [Cyclic] using hsplit

/-- The pointer of a node leads to the one after it. -/
theorem next_eq (h : Cyclic next (l ++ a :: b :: r)) : next a = some b := by
  have hrot : Cyclic next (a :: b :: (r ++ l)) := by simpa using h.rotate
  rw [Cyclic, List.take_succ_cons, List.cons_append, List.cons_append,
    List.isChain_cons_cons] at hrot
  exact hrot.1

/-- The pointer of the last node leads to the first one. -/
theorem next_last (h : Cyclic next (a :: l ++ [t])) : next t = some a := by
  have hrot : Cyclic next (([] : List α) ++ t :: a :: l) := by simpa using h.rotate
  exact hrot.next_eq

/-- A node is put in behind another one: it takes over that one's pointer. -/
theorem insert [DecidableEq α] (h : Cyclic next (l ++ t :: r)) (hnodup : (l ++ t :: r).Nodup)
    (hn : n ∉ l ++ t :: r) (hnext : next n = next t) :
    Cyclic (Function.update next t (some n)) (l ++ t :: n :: r) := by
  have hne : n ≠ t := fun he ↦ hn (by simp [he])
  have ht : t ∉ r ++ l := by
    have := hnodup.perm List.perm_append_comm
    exact (List.nodup_cons.mp this).1
  have hrot : Cyclic next (t :: (r ++ l)) := h.rotate
  have hgoal : Cyclic (Function.update next t (some n)) (t :: n :: (r ++ l)) := by
    generalize r ++ l = m at ht hrot
    have hstart : Function.update next t (some n) n = next t := by
      rw [Function.update_of_ne hne, hnext]
    cases m with
    | nil =>
      have hself : next t = some t := by simpa [Cyclic] using hrot
      simp [Cyclic, hstart, hself]
    | cons c m =>
      have hsplit : ([t] ++ c :: (m ++ [t])).IsChain fun a b ↦ next a = some b := by
        simpa [Cyclic] using hrot
      obtain ⟨hc, hm⟩ := List.isChain_cons_cons.mp hsplit
      have hrest : ((c :: m) ++ [t]).IsChain fun a b ↦
          Function.update next t (some n) a = some b :=
        isChain_congr hm fun a ha ↦ Function.update_of_ne (by rintro rfl; exact ht ha) _ _
      simpa [Cyclic, hstart, hc] using hrest
  have hback : Cyclic (Function.update next t (some n)) ((t :: n :: r) ++ l) := by
    simpa using hgoal
  exact hback.rotate

end Cyclic

end Library
