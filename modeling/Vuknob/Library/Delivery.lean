import Mathlib.Data.List.Forall2

/-!
# Delivery in rounds

Items are handed in one by one and are delivered, in rounds, to numbered places. An item that is
not delivered when it is handed in waits, and the first items of a round are those that wait.
-/

namespace Library

/-- An item, the round in which it was handed in, and the first place that was allowed then. -/
structure Request (α : Type) where
  item : α
  round : Nat
  offset : Int

/-- An item, the round in which it was delivered, its place and the number of places there. -/
structure Receipt (α : Type) where
  item : α
  round : Nat
  place : Int
  size : Int

variable {α : Type}

/-- A delivery is not before the request allowed it. -/
def Receipt.Answers (d : Receipt α) (q : Request α) : Prop :=
  d.item = q.item ∧ (q.round < d.round ∨ q.round = d.round ∧ q.offset ≤ d.place)

/-- One delivery comes before the other. -/
def Receipt.Precedes (d e : Receipt α) : Prop :=
  d.round < e.round ∨ d.round = e.round ∧ d.place < e.place

/-- Nothing is lost, doubled or overtaken: the deliveries answer the first requests one by one and
the items of the others are waiting; places go up within a round and exist. -/
structure Lossless (requests : List (Request α)) (receipts : List (Receipt α))
    (waiting : List α) : Prop where
  answered : ∃ done left, requests = done ++ left ∧ receipts.Forall₂ Receipt.Answers done ∧
    left.map Request.item = waiting
  ordered : receipts.Pairwise Receipt.Precedes
  inside : ∀ d ∈ receipts, 0 ≤ d.place ∧ d.place < d.size

/-- Deliveries have come to a place of a round. -/
structure Delivering (requests : List (Request α)) (receipts : List (Receipt α))
    (waiting : List α) (round : Nat) (position : Int) : Prop
    extends Lossless requests receipts waiting where
  begun : 0 ≤ position
  requested : ∀ q ∈ requests, q.round ≤ round
  reached : ∀ d ∈ receipts, d.round < round ∨ d.round = round ∧ d.place < position

/-- The items with consecutive places. -/
def placesFrom : Int → List α → List (Int × α)
  | _, [] => []
  | position, a :: l => (position, a) :: placesFrom (position + 1) l

@[simp]
theorem map_snd_placesFrom (position : Int) (l : List α) :
    (placesFrom position l).map Prod.snd = l := by
  induction l generalizing position with
  | nil => rfl
  | cons a l ih => simp [placesFrom, ih]

theorem placesFrom_map {β : Type} (f : α → β) (position : Int) (l : List α) :
    placesFrom position (l.map f) = (placesFrom position l).map fun e ↦ (e.1, f e.2) := by
  induction l generalizing position with
  | nil => rfl
  | cons a l ih => simp [placesFrom, ih]

namespace Delivering

variable {requests : List (Request α)} {receipts : List (Receipt α)} {waiting : List α}
  {round : Nat} {position : Int}

theorem nil : Delivering ([] : List (Request α)) [] [] 0 0 where
  answered := ⟨[], [], rfl, .nil, rfl⟩
  ordered := .nil
  inside := by simp
  begun := Int.le_refl 0
  requested := by simp
  reached := by simp

/-- An item is handed in and waits. -/
theorem wait (h : Delivering requests receipts waiting round position) (a : α) (offset : Int) :
    Delivering (requests ++ [⟨a, round, offset⟩]) receipts (waiting ++ [a]) round position where
  answered := by
    obtain ⟨done, left, rfl, hdone, rfl⟩ := h.answered
    exact ⟨done, left ++ [⟨a, round, offset⟩], by simp, hdone, by simp⟩
  ordered := h.ordered
  inside := h.inside
  begun := h.begun
  requested := by
    intro q hq
    rcases List.mem_append.mp hq with hq | hq
    · exact h.requested q hq
    · obtain rfl := List.mem_singleton.mp hq
      exact Nat.le_refl round
  reached := h.reached

/-- Places are left out. -/
theorem advance (h : Delivering requests receipts waiting round position) {later : Int}
    (hle : position ≤ later) : Delivering requests receipts waiting round later where
  toLossless := h.toLossless
  begun := by
    have := h.begun
    omega
  requested := h.requested
  reached d hd := (h.reached d hd).imp_right fun hd ↦ ⟨hd.1, by omega⟩

/-- The next round begins. -/
theorem nextRound (h : Delivering requests receipts waiting round position) :
    Delivering requests receipts waiting (round + 1) 0 where
  toLossless := h.toLossless
  begun := Int.le_refl 0
  requested q hq := Nat.le_succ_of_le (h.requested q hq)
  reached d hd := by
    left
    rcases h.reached d hd with hd | hd <;> omega

private theorem snoc (h : Delivering requests receipts waiting round position) (a : α) {size : Int}
    (hsize : position < size) :
    (receipts ++ [(⟨a, round, position, size⟩ : Receipt α)]).Pairwise Receipt.Precedes ∧
      (∀ d ∈ receipts ++ [⟨a, round, position, size⟩], 0 ≤ d.place ∧ d.place < d.size) ∧
      ∀ d ∈ receipts ++ [⟨a, round, position, size⟩],
        d.round < round ∨ d.round = round ∧ d.place < position + 1 := by
  refine ⟨?_, ?_, ?_⟩
  · refine List.pairwise_append.mpr ⟨h.ordered, List.pairwise_singleton _ _, ?_⟩
    intro d hd e he
    obtain rfl := List.mem_singleton.mp he
    exact h.reached d hd
  · intro d hd
    rcases List.mem_append.mp hd with hd | hd
    · exact h.inside d hd
    · obtain rfl := List.mem_singleton.mp hd
      exact ⟨h.begun, hsize⟩
  · intro d hd
    rcases List.mem_append.mp hd with hd | hd
    · exact (h.reached d hd).imp_right fun hd ↦ ⟨hd.1, by omega⟩
    · obtain rfl := List.mem_singleton.mp hd
      exact .inr ⟨rfl, Int.lt_succ position⟩

/-- An item is handed in and delivered when none waits. -/
theorem deliver (h : Delivering requests receipts [] round position) (a : α) {offset size : Int}
    (hoffset : offset ≤ position) (hsize : position < size) :
    Delivering (requests ++ [⟨a, round, offset⟩]) (receipts ++ [⟨a, round, position, size⟩]) []
      round (position + 1) := by
  obtain ⟨hordered, hinside, hreached⟩ := h.snoc a hsize
  refine ⟨⟨?_, hordered, hinside⟩, by have := h.begun; omega, ?_, hreached⟩
  · obtain ⟨done, left, hq, hdone, hleft⟩ := h.answered
    obtain rfl : left = [] := List.map_eq_nil_iff.mp hleft
    refine ⟨requests ++ [⟨a, round, offset⟩], [], by simp, ?_, rfl⟩
    rw [hq, List.append_nil]
    exact List.rel_append hdone (.cons ⟨rfl, .inr ⟨rfl, hoffset⟩⟩ .nil)
  · exact (h.wait a offset).requested

/-- The first items of a round are those that were handed in before. -/
theorem fill {moved left : List α} {size : Int}
    (h : Delivering requests receipts (moved ++ left) round position)
    (hnew : ∀ q ∈ requests, q.round < round)
    (hsize : moved = [] ∨ position + moved.length ≤ size) :
    Delivering requests
      (receipts ++ (placesFrom position moved).map fun e ↦ ⟨e.2, round, e.1, size⟩) left round
      (position + moved.length) := by
  induction moved generalizing receipts position with
  | nil => simpa [placesFrom] using h
  | cons a moved ih =>
    have hroom : position + (moved.length + 1) ≤ size := by
      simpa using hsize.resolve_left (by simp)
    obtain ⟨hordered, hinside, hreached⟩ := h.snoc a (show position < size by omega)
    have hone : Delivering requests (receipts ++ [⟨a, round, position, size⟩]) (moved ++ left)
        round (position + 1) := by
      refine ⟨⟨?_, hordered, hinside⟩, by have := h.begun; omega, h.requested, hreached⟩
      obtain ⟨done, rest, rfl, hdone, hrest⟩ := h.answered
      cases rest with
      | nil => cases hrest
      | cons q rest =>
        obtain ⟨rfl, htail⟩ := List.cons.inj hrest
        refine ⟨done ++ [q], rest, by simp, ?_, htail⟩
        exact List.rel_append hdone (.cons ⟨rfl, .inl (hnew q (by simp))⟩ .nil)
    have hall := ih hone (.inr (by omega))
    simpa [placesFrom, Int.add_assoc, Int.add_comm 1] using hall

end Delivering
end Library
