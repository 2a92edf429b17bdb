import Mathlib.Data.List.Chain
import Mathlib.Data.List.Sort
import Mathlib.Logic.Function.Basic
import Vuknob.Library.PointerList

/-!
# Sorted doubly linked lists

A head, and a next and a previous pointer for every node. A node is inserted in front of the first
one that it goes before, which a loop along the next pointers looks for, or behind the last one. The
loop has fuel; a list that is no longer than the fuel is searched to its end.
-/

namespace Library

variable {α : Type}

/-- The head of a list and the pointers of its nodes. -/
structure Links (α : Type) where
  head : Option α
  next : α → Option α
  prev : α → Option α

namespace Links

/-- No node is in the list. -/
def empty : Links α := ⟨none, fun _ ↦ none, fun _ ↦ none⟩

/-- From the head, the pointers lead through the nodes of the list, to and fro. -/
structure Leads (L : Links α) (l : List α) : Prop where
  head : L.head = l.head?
  nodup : l.Nodup
  linked : DList L.next L.prev none l

theorem leads_empty : (empty : Links α).Leads [] := ⟨rfl, .nil, trivial⟩

/-- The nodes that come from a pointer on. -/
def nodesFrom (L : Links α) : Nat → Option α → List α
  | fuel + 1, some a => a :: nodesFrom L fuel (L.next a)
  | _, _ => []

/-- The pointers lead through the rest of the list. -/
theorem Leads.nodesFrom {L : Links α} {front rest : List α} (h : L.Leads (front ++ rest))
    {fuel : Nat} (hfuel : rest.length ≤ fuel) : L.nodesFrom fuel rest.head? = rest := by
  induction rest generalizing front fuel with
  | nil => cases fuel <;> rfl
  | cons a rest ih =>
    rw [List.length_cons] at hfuel
    obtain ⟨fuel, rfl⟩ : ∃ n, fuel = n + 1 := ⟨fuel - 1, by omega⟩
    have hnext : L.next a = rest.head? := h.linked.next_eq
    rw [List.append_cons] at h
    rw [List.head?_cons, Links.nodesFrom, hnext, ih h (by omega)]

variable [DecidableEq α]

/-- The list of one node. -/
def insertOnly (a : α) (L : Links α) : Links α where
  head := some a
  next := Function.update L.next a none
  prev := Function.update L.prev a none

/-- Put `a` in front of `b`. -/
def insertBefore (a b : α) (L : Links α) : Links α :=
  let next := Function.update L.next a (some b)
  let prev := Function.update (Function.update L.prev a (L.prev b)) b (some a)
  match L.prev b with
  | none => ⟨some a, next, prev⟩
  | some p => ⟨L.head, Function.update next p (some a), prev⟩

/-- Put `a` behind `b`, which is the last node. -/
def insertLast (a b : α) (L : Links α) : Links α where
  head := L.head
  next := Function.update (Function.update L.next b (some a)) a none
  prev := Function.update L.prev a (some b)

/-- Search for the place of `a` from `b` on. -/
def insertFrom (goesBefore : α → α → Bool) (a : α) : Nat → α → Links α → Links α
  | 0, _, L => L
  | fuel + 1, b, L =>
    if goesBefore a b then L.insertBefore a b
    else
      match L.next b with
      | none => L.insertLast a b
      | some c => insertFrom goesBefore a fuel c L

/-- Insert a node. -/
def insert (goesBefore : α → α → Bool) (fuel : Nat) (a : α) (L : Links α) : Links α :=
  match L.head with
  | none => L.insertOnly a
  | some b => insertFrom goesBefore a fuel b L

/-- Take a node out. -/
def unlink (a : α) (L : Links α) : Links α where
  head := if L.head = some a then L.next a else L.head
  next := match L.prev a with
    | some p => Function.update L.next p (L.next a)
    | none => L.next
  prev := match L.next a with
    | some n => Function.update L.prev n (L.prev a)
    | none => L.prev

/-- A node between the nodes of two halves of a list. -/
theorem Leads.between {L L' : Links α} {a : α} {front back : List α} (h : L.Leads (front ++ back))
    (ha : a ∉ front ++ back) (hhead : L'.head = (front ++ a :: back).head?)
    (hna : L'.next a = back.head?) (hpa : L'.prev a = front.getLast?)
    (hn : ∀ c ∈ front ++ back, L'.next c = if front.getLast? = some c then some a else L.next c)
    (hp : ∀ c ∈ front ++ back, L'.prev c = if back.head? = some c then some a else L.prev c) :
    L'.Leads (front ++ a :: back) := by
  refine ⟨hhead, ?_, ?_⟩
  · rw [List.nodup_middle]
    exact List.nodup_cons.mpr ⟨ha, h.nodup⟩
  · refine h.linked.insert h.nodup nofun hna ?_ hn hp
    rw [hpa, Option.or_none]

theorem leads_insertOnly {L : Links α} (h : L.Leads []) (a : α) :
    (L.insertOnly a).Leads [a] := by
  have hnil : L.Leads ([] ++ []) := h
  refine hnil.between nofun rfl ?_ ?_ nofun nofun
  · exact Function.update_self ..
  · exact Function.update_self ..

theorem leads_insertBefore {L : Links α} {a b : α} {front back : List α}
    (h : L.Leads (front ++ b :: back)) (ha : a ∉ front ++ b :: back) :
    (L.insertBefore a b).Leads (front ++ a :: b :: back) := by
  have hprev : L.prev b = front.getLast? := by
    rw [h.linked.prev_eq, Option.or_none]
  have hne : ∀ c ∈ front ++ b :: back, c ≠ a := fun c hc he ↦ ha (he ▸ hc)
  have hab : a ≠ b := (hne b (by simp)).symm
  refine h.between ha ?_ ?_ ?_ ?_ ?_
  · rw [insertBefore, hprev]
    cases hlast : front.getLast? with
    | none => simp [List.getLast?_eq_none_iff.mp hlast]
    | some p =>
      obtain ⟨c, rest, rfl⟩ := List.exists_cons_of_ne_nil
        (fun he ↦ absurd (he ▸ hlast) nofun : front ≠ [])
      exact h.head
  · rw [insertBefore]
    cases hlast : L.prev b with
    | none => exact Function.update_self ..
    | some p =>
      have hp : p ∈ front ++ b :: back :=
        List.mem_append_left _ (List.mem_of_getLast? (hprev.symm.trans hlast))
      dsimp only
      rw [Function.update_of_ne (hne p hp).symm, Function.update_self]
      rfl
  · have hpa : (L.insertBefore a b).prev =
        Function.update (Function.update L.prev a (L.prev b)) b (some a) := by
      rw [insertBefore]
      split <;> rfl
    rw [hpa, Function.update_of_ne hab, Function.update_self, hprev]
  · intro c hc
    rw [insertBefore, ← hprev]
    cases hlast : L.prev b with
    | none =>
      rw [if_neg nofun]
      exact Function.update_of_ne (hne c hc) ..
    | some p =>
      dsimp only
      by_cases hcp : c = p
      · rw [hcp, Function.update_self, if_pos rfl]
      · rw [Function.update_of_ne hcp, Function.update_of_ne (hne c hc),
          if_neg fun he ↦ hcp (Option.some.inj he).symm]
  · intro c hc
    have hpv : (L.insertBefore a b).prev =
        Function.update (Function.update L.prev a (L.prev b)) b (some a) := by
      rw [insertBefore]
      split <;> rfl
    rw [hpv, List.head?_cons]
    by_cases hcb : c = b
    · rw [hcb, Function.update_self, if_pos rfl]
    · rw [Function.update_of_ne hcb, Function.update_of_ne (hne c hc),
        if_neg fun he ↦ hcb (Option.some.inj he).symm]

theorem leads_insertLast {L : Links α} {a b : α} {front : List α} (h : L.Leads (front ++ [b]))
    (ha : a ∉ front ++ [b]) : (L.insertLast a b).Leads (front ++ [b, a]) := by
  have hne : ∀ c ∈ front ++ [b], c ≠ a := fun c hc he ↦ ha (he ▸ hc)
  have hlinks : L.Leads ((front ++ [b]) ++ []) := by rwa [List.append_nil]
  rw [← List.append_nil (front ++ [b])] at ha
  suffices hall : (L.insertLast a b).Leads ((front ++ [b]) ++ a :: []) by
    rwa [List.append_assoc] at hall
  refine hlinks.between ha ?_ ?_ ?_ ?_ ?_
  · rw [insertLast, h.head]
    cases front <;> rfl
  · exact Function.update_self ..
  · rw [List.getLast?_concat]
    exact Function.update_self ..
  · intro c hc
    rw [List.append_nil] at hc
    rw [insertLast]
    dsimp only
    rw [Function.update_of_ne (hne c hc), List.getLast?_concat]
    by_cases hcb : c = b
    · rw [hcb, Function.update_self, if_pos rfl]
    · rw [Function.update_of_ne hcb, if_neg fun he ↦ hcb (Option.some.inj he).symm]
  · intro c hc
    rw [List.append_nil] at hc
    exact Function.update_of_ne (hne c hc) ..

/-- The search goes past the nodes that the new one does not go before. -/
theorem leads_insertFrom {L : Links α} {goesBefore : α → α → Bool} {a b : α}
    {front back : List α} {fuel : Nat} (h : L.Leads (front ++ b :: back))
    (ha : a ∉ front ++ b :: back) (hfuel : back.length < fuel) :
    (L.insertFrom goesBefore a fuel b).Leads
      (front ++ (b :: back).orderedInsert (fun x y ↦ goesBefore x y) a) := by
  induction fuel generalizing b front back with
  | zero => omega
  | succ fuel ih =>
    rw [insertFrom, List.orderedInsert_cons]
    split
    · exact leads_insertBefore h ha
    · have hnext : L.next b = back.head? := h.linked.next_eq
      cases back with
      | nil =>
        rw [hnext]
        exact leads_insertLast h ha
      | cons c back =>
        rw [hnext]
        rw [List.append_cons] at h ha ⊢
        rw [List.length_cons] at hfuel
        exact ih h ha (by omega)

/-- Inserting a new node. -/
theorem Leads.insert {L : Links α} {l : List α} (h : L.Leads l) (goesBefore : α → α → Bool)
    {fuel : Nat} (hfuel : l.length ≤ fuel) {a : α} (ha : a ∉ l) :
    (L.insert goesBefore fuel a).Leads (l.orderedInsert (fun x y ↦ goesBefore x y) a) := by
  rw [Links.insert, h.head]
  cases l with
  | nil => exact leads_insertOnly h a
  | cons b l =>
    have hwhole : L.Leads ([] ++ b :: l) := h
    exact leads_insertFrom hwhole ha hfuel

/-- Taking a node out. -/
theorem Leads.unlink {L : Links α} {a : α} {front back : List α}
    (h : L.Leads (front ++ a :: back)) : (L.unlink a).Leads (front ++ back) := by
  have hprev : L.prev a = front.getLast? := by
    rw [h.linked.prev_eq, Option.or_none]
  refine ⟨?_, ?_, h.linked.unlink h.nodup nofun ?_ ?_⟩
  · have hnext : L.next a = back.head? := h.linked.next_eq
    rw [Links.unlink, h.head, hnext]
    cases front with
    | nil => exact if_pos rfl
    | cons b front =>
      refine if_neg fun he ↦ ?_
      have hnodup := (List.nodup_cons.mp h.nodup).1
      exact hnodup (Option.some.inj he ▸ by simp)
  · exact (List.nodup_cons.mp (List.nodup_middle.mp h.nodup)).2
  · intro c _
    rw [Links.unlink]
    cases hp : L.prev a with
    | none => exact (if_neg nofun).symm
    | some p =>
      dsimp only
      rw [Function.update_apply]
      exact if_congr (by rw [Option.some.injEq, eq_comm]) rfl rfl
  · intro c _
    rw [Links.unlink]
    cases hn : L.next a with
    | none => exact (if_neg nofun).symm
    | some n =>
      dsimp only
      rw [Function.update_apply]
      exact if_congr (by rw [Option.some.injEq, eq_comm]) rfl rfl

end Links

/-- A list stays in order if the new element is not greater than what it goes before, and not less
than what it does not go before. -/
theorem pairwise_orderedInsert {r le : α → α → Prop} [DecidableRel r] {a : α} {l : List α}
    (h : l.Pairwise le) (hup : ∀ b ∈ l, ∀ c ∈ l, le b c → r a b → r a c)
    (hbefore : ∀ b ∈ l, r a b → le a b) (hbehind : ∀ b ∈ l, ¬ r a b → le b a) :
    (l.orderedInsert r a).Pairwise le := by
  induction l with
  | nil => exact List.pairwise_singleton ..
  | cons b l ih =>
    obtain ⟨hb, hl⟩ := List.pairwise_cons.mp h
    rw [List.orderedInsert_cons]
    split
    · next hab =>
      refine List.pairwise_cons.mpr ⟨fun c hc ↦ hbefore c hc ?_, h⟩
      rcases List.mem_cons.mp hc with rfl | hmem
      · exact hab
      · exact hup b (List.mem_cons_self ..) c hc (hb c hmem) hab
    · next hab =>
      refine List.pairwise_cons.mpr ⟨fun c hc ↦ ?_, ih hl ?_ ?_ ?_⟩
      · rcases (List.mem_orderedInsert r).mp hc with rfl | hmem
        · exact hbehind b (List.mem_cons_self ..) hab
        · exact hb c hmem
      · exact fun c hc d hd ↦ hup c (List.mem_cons_of_mem b hc) d (List.mem_cons_of_mem b hd)
      · exact fun c hc ↦ hbefore c (List.mem_cons_of_mem b hc)
      · exact fun c hc ↦ hbehind c (List.mem_cons_of_mem b hc)

/-- What goes before no element goes behind all of them. -/
theorem orderedInsert_last {r : α → α → Prop} [DecidableRel r] {a : α} {l : List α}
    (h : ∀ b ∈ l, ¬ r a b) : l.orderedInsert r a = l ++ [a] := by
  induction l with
  | nil => rfl
  | cons b l ih =>
    rw [List.orderedInsert_cons, if_neg (h b List.mem_cons_self)]
    exact congrArg (b :: ·) (ih fun c hc ↦ h c (List.mem_cons_of_mem b hc))

/-- A list of different numbers below a bound is not longer than the bound. -/
theorem length_le_of_nodup {l : List Nat} {n : Nat} (hnodup : l.Nodup) (h : ∀ k ∈ l, k < n) :
    l.length ≤ n := by
  have hsub : l ⊆ List.range n := fun k hk ↦ List.mem_range.mpr (h k hk)
  have hle := (List.subperm_of_subset hnodup hsub).length_le
  rwa [List.length_range] at hle

/-- A list in the order of a key, when the key of one element changes. -/
theorem pairwise_of_key_iff {β : Type} [Preorder β] {key key' : α → β} {a : α}
    {front back : List α} (hnodup : (front ++ a :: back).Nodup)
    (hothers : ∀ c, c ≠ a → key' c = key c)
    (h : (front ++ a :: back).Pairwise fun b c ↦ key b ≤ key c) :
    ((front ++ a :: back).Pairwise fun b c ↦ key' b ≤ key' c) ↔
      (∀ p ∈ front.getLast?, key p ≤ key' a) ∧ ∀ n ∈ back.head?, key' a ≤ key n := by
  obtain ⟨hfront, hrest, -⟩ := List.pairwise_append.mp h
  obtain ⟨-, hback⟩ := List.pairwise_cons.mp hrest
  have hne : ∀ c ∈ front ++ back, c ≠ a := by
    rintro c hc rfl
    exact (List.nodup_cons.mp (List.nodup_middle.mp hnodup)).1 hc
  have hsame : ∀ c ∈ front ++ back, key' c = key c := fun c hc ↦ hothers c (hne c hc)
  have hkept : ∀ l : List α, (∀ c ∈ l, c ∈ front ++ back) → (l.Pairwise fun b c ↦ key b ≤ key c) →
      l.IsChain fun b c ↦ key' b ≤ key' c := by
    intro l hl hpairs
    refine (hpairs.imp_of_mem fun {b c} hb hc hle ↦ ?_).isChain
    rwa [hsame b (hl b hb), hsame c (hl c hc)]
  have htrans : IsTrans α fun b c ↦ key' b ≤ key' c := ⟨fun _ _ _ ↦ le_trans⟩
  rw [← List.isChain_iff_pairwise, List.isChain_append, List.isChain_cons]
  constructor
  · rintro ⟨-, ⟨hnext, -⟩, hprev⟩
    refine ⟨fun p hp ↦ ?_, fun n hn ↦ ?_⟩
    · rw [← hsame p (List.mem_append_left _ (List.mem_of_getLast? hp))]
      exact hprev p hp a rfl
    · rw [← hsame n (List.mem_append_right _ (List.mem_of_mem_head? hn))]
      exact hnext n hn
  · rintro ⟨hprev, hnext⟩
    refine ⟨hkept front (fun _ ↦ List.mem_append_left _) hfront, ⟨fun n hn ↦ ?_,
      hkept back (fun _ ↦ List.mem_append_right _) hback⟩, fun p hp c hc ↦ ?_⟩
    · rw [hsame n (List.mem_append_right _ (List.mem_of_mem_head? hn))]
      exact hnext n hn
    · obtain rfl : a = c := Option.some.inj hc
      rw [hsame p (List.mem_append_left _ (List.mem_of_getLast? hp))]
      exact hprev p hp

end Library
