import Mathlib.Combinatorics.SimpleGraph.Acyclic
import Mathlib.Combinatorics.SimpleGraph.DeleteEdges

/-!
# The branches of a forest

In a forest the component of a vertex falls into the vertex itself and one branch for each
neighbour: what the neighbour still reaches once the edges of the vertex are gone. A walk
that visits a tree from the vertex recurses into these branches.
-/

namespace Library

open SimpleGraph

variable {V : Type} {G : SimpleGraph V} {m o p v : V}

/-- The graph without the edges of `m`: `m` reaches only itself. -/
theorem not_reachable_deleteIncidenceSet (h : (G.deleteIncidenceSet m).Reachable o v)
    (ho : o ≠ m) : v ≠ m := by
  obtain ⟨w⟩ := h
  induction w with
  | nil => exact ho
  | cons hadj _ ih => exact ih (deleteIncidenceSet_adj.mp hadj).2.2

/-- What a vertex reaches is the vertex and the branches of its neighbours. -/
theorem reachable_iff_branch :
    G.Reachable m v ↔ v = m ∨ ∃ o, G.Adj m o ∧ (G.deleteIncidenceSet m).Reachable o v := by
  constructor
  · rintro ⟨w⟩
    -- A path leaves `m` once and does not come back to it.
    classical
    obtain ⟨q, hq⟩ := w.toPath
    cases q with
    | nil => exact .inl rfl
    | cons hadj r =>
      refine .inr ⟨_, hadj, ?_⟩
      have hm := (Walk.cons_isPath_iff _ _).mp hq
      refine ⟨r.transfer _ fun e he ↦ ?_⟩
      induction e with
      | h a b =>
        have hG : G.Adj a b := r.adj_of_mem_edges he
        refine deleteIncidenceSet_adj.mpr ⟨hG, ?_, ?_⟩
        · rintro rfl
          exact hm.2 (r.fst_mem_support_of_mem_edges he)
        · rintro rfl
          exact hm.2 (r.snd_mem_support_of_mem_edges he)
  · rintro (rfl | ⟨o, hadj, hr⟩)
    · exact .refl _
    · exact hadj.reachable.trans (hr.mono (G.deleteIncidenceSet_le m))

/-- The branches of two neighbours do not meet, and a branch holds one neighbour only. -/
theorem branch_unique (h : G.IsAcyclic) (ho : G.Adj m o) (hp : G.Adj m p)
    (hr : (G.deleteIncidenceSet m).Reachable o p) : o = p := by
  by_contra hne
  classical
  obtain ⟨w⟩ := hr
  -- One path goes through `m`, the other one cannot.
  let through : G.Walk o p := .cons ho.symm (.cons hp .nil)
  have hthrough : through.IsPath := by
    simp [through, Walk.cons_isPath_iff, hne, ho.ne', hp.ne]
  let around : G.Path o p := (w.mapLe (G.deleteIncidenceSet_le m)).toPath
  have heq := congrArg (fun q : G.Path o p ↦ (q : G.Walk o p).support)
    ((h.subsingleton_path o p).elim ⟨through, hthrough⟩ around)
  have hm : m ∈ (around : G.Walk o p).support := by
    rw [← heq]
    simp [through]
  have hm' := Walk.support_toPath_subset_support _ hm
  rw [Walk.support_mapLe_eq_support] at hm'
  exact not_reachable_deleteIncidenceSet ⟨w.takeUntil m hm'⟩ ho.ne' rfl

end Library
