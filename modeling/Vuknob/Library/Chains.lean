import Mathlib.Data.List.Nodup
import Mathlib.Logic.Function.Basic
import Vuknob.Library.PointerList

/-!
# Chains that share one store of nodes

A family of singly linked chains, none of which meets another, threaded through the same
next pointers. Nodes are taken from the front of a chain and added at either end; every
operation rewrites one next pointer and leaves the other chains as they are.
-/

namespace Library

variable {α ι : Type}

/-- From the head of each chain the next pointers lead through its nodes, and no node is
on two chains. -/
structure Chains (next : α → Option α) (head : ι → Option α) (nodes : ι → List α) : Prop where
  linked : ∀ i, IsList (fun a ↦ some (next a)) (head i) (nodes i)
  apart : ∀ i j, i ≠ j → (nodes i).Disjoint (nodes j)

/-- A chain whose nodes keep their next pointers is still a chain when nodes are added
behind its last one. -/
theorem IsList.snoc [DecidableEq α] {next : α → Option α} {head : Option α} {l : List α}
    {z a : α} (h : IsList (fun x ↦ some (next x)) head (l ++ [z])) (ha : a ∉ l ++ [z])
    (hend : next a = none) :
    IsList (fun x ↦ some (Function.update next z (some a) x)) head (l ++ [z, a]) := by
  have hza : z ∉ l ∧ a ≠ z := by
    have := h.nodup
    simp_all [List.nodup_append]
    grind
  induction l generalizing head with
  | nil =>
    obtain ⟨rfl, _⟩ := h
    exact ⟨rfl, some a, by simp, rfl, none, by simp [hza.2, hend], rfl⟩
  | cons b l ih =>
    obtain ⟨rfl, n, hn, hl⟩ := h
    refine ⟨rfl, n, ?_, ih hl (by simp_all) (by simp_all)⟩
    have hbz : b ≠ z := fun he ↦ hza.1 (by simp [he])
    simpa [hbz] using hn

namespace Chains

variable {next : α → Option α} {head : ι → Option α} {nodes : ι → List α}

/-- The first node of a chain is its head. -/
theorem head_eq (h : Chains next head nodes) (i : ι) : head i = (nodes i).head? := by
  have hi := h.linked i
  cases hl : nodes i with
  | nil =>
    rw [hl] at hi
    exact hi
  | cons a l =>
    rw [hl] at hi
    exact hi.1

/-- No chain visits a node twice. -/
theorem nodup (h : Chains next head nodes) (i : ι) : (nodes i).Nodup := (h.linked i).nodup

/-- Chains depend on the next pointers of their own nodes only. -/
theorem congr (h : Chains next head nodes) {next' : α → Option α} {head' : ι → Option α}
    (hn : ∀ i, ∀ a ∈ nodes i, next' a = next a) (hh : ∀ i, head' i = head i) :
    Chains next' head' nodes where
  linked i := by
    rw [hh]
    exact (h.linked i).congr fun a ha ↦ by rw [hn i a ha]
  apart := h.apart

variable [DecidableEq ι]

/-- A chain may be replaced by one over nodes that are on no other chain. -/
theorem replace {i : ι} {l : List α} {next' : α → Option α} {head' : Option α}
    (h : Chains next head nodes) (hn : ∀ j, j ≠ i → ∀ a ∈ nodes j, next' a = next a)
    (hl : IsList (fun a ↦ some (next' a)) head' l)
    (hapart : ∀ j, j ≠ i → (nodes j).Disjoint l) :
    Chains next' (Function.update head i head') (Function.update nodes i l) where
  linked j := by
    rcases eq_or_ne j i with rfl | hj
    · simpa using hl
    · simpa [hj] using (h.linked j).congr fun a ha ↦ by rw [hn j hj a ha]
  apart j k hjk := by
    rcases eq_or_ne j i with rfl | hj
    · intro a ha hk
      exact hapart k hjk.symm (by simpa [hjk.symm] using hk) (by simpa using ha)
    · rcases eq_or_ne k i with rfl | hk
      · simpa [hj] using hapart j hj
      · simpa [hj, hk] using h.apart j k hjk

/-- A node that is on no chain and ends there makes a chain of its own. -/
theorem singleton (h : Chains next head nodes) (i : ι) {a : α} (ha : ∀ j, a ∉ nodes j)
    (hend : next a = none) :
    Chains next (Function.update head i (some a)) (Function.update nodes i [a]) := by
  apply h.replace
  · exact fun _ _ _ _ ↦ rfl
  · exact ⟨rfl, none, congrArg some hend, rfl⟩
  · intro j _
    simpa using ha j

variable [DecidableEq α]

/-- Taking the first node of a chain. -/
theorem pop (h : Chains next head nodes) {i : ι} {a : α} {l : List α} (hi : nodes i = a :: l) :
    Chains (Function.update next a none) (Function.update head i (next a))
      (Function.update nodes i l) ∧ ∀ j, a ∉ Function.update nodes i l j := by
  have hnd := h.nodup i
  have hlink := h.linked i
  rw [hi] at hnd hlink
  obtain ⟨-, n, hn, hl⟩ := hlink
  obtain rfl := Option.some.inj hn
  have hal := (List.nodup_cons.mp hnd).1
  have hother : ∀ j, j ≠ i → a ∉ nodes j := by
    intro j hj ha
    exact h.apart i j (Ne.symm hj) (by simp [hi]) ha
  constructor
  · apply h.replace
    · intro j hj b hb
      have hba : b ≠ a := by
        rintro rfl
        exact hother j hj hb
      exact Function.update_of_ne hba _ _
    · refine hl.congr fun b hb ↦ ?_
      have hba : b ≠ a := by
        rintro rfl
        exact hal hb
      rw [Function.update_of_ne hba]
    · intro j hj b hb hb'
      exact h.apart j i hj hb (by simp [hi, hb'])
  · intro j
    rcases eq_or_ne j i with rfl | hj
    · simpa using hal
    · simpa [hj] using hother j hj

/-- Adding a node that is on no chain in front of one. -/
theorem push (h : Chains next head nodes) (i : ι) {a : α} (ha : ∀ j, a ∉ nodes j) :
    Chains (Function.update next a (head i)) (Function.update head i (some a))
      (Function.update nodes i (a :: nodes i)) := by
  have hkeep : ∀ j, ∀ b ∈ nodes j, Function.update next a (head i) b = next b := by
    intro j b hb
    have hba : b ≠ a := by
      rintro rfl
      exact ha j hb
    exact Function.update_of_ne hba _ _
  apply h.replace
  · exact fun j _ ↦ hkeep j
  · exact ⟨rfl, head i, by simp, (h.linked i).congr fun b hb ↦ by rw [hkeep i b hb]⟩
  · intro j hj b hb hb'
    rcases List.mem_cons.mp hb' with rfl | hb'
    · exact ha j hb
    · exact h.apart j i hj hb hb'

/-- A node that is on no chain and ends there is added behind the last node of one. -/
theorem snoc (h : Chains next head nodes) {i : ι} {l : List α} {z a : α}
    (hi : nodes i = l ++ [z]) (ha : ∀ j, a ∉ nodes j) (hend : next a = none) :
    Chains (Function.update next z (some a)) head (Function.update nodes i (l ++ [z, a])) := by
  have hlink := h.linked i
  rw [hi] at hlink
  have hnew : Chains (Function.update next z (some a)) (Function.update head i (head i))
      (Function.update nodes i (l ++ [z, a])) := by
    apply h.replace
    · intro j hj b hb
      refine Function.update_of_ne (fun he ↦ ?_) _ _
      exact h.apart j i hj hb (by simp [hi, he])
    · exact hlink.snoc (hi ▸ ha i) hend
    · intro j hj b hb hb'
      have hmem : b ∈ nodes i ∨ b = a := by
        simp_all
        grind
      rcases hmem with hb' | rfl
      · exact h.apart j i hj hb hb'
      · exact ha j hb
  simpa using hnew

end Chains

end Library
