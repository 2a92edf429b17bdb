import Vuknob.Library.SortedLinks

/-!
# Doubly linked lists that share their pointers

A node has one next and one previous pointer, whatever list it is in. What an operation on one list
writes to is a node of that list, so the other lists stay as they are.
-/

namespace Library

namespace Links

variable {α : Type} {L L' : Links α} {l : List α}

/-- A list depends on the pointers of its own nodes only. -/
theorem Leads.congr (h : L.Leads l) (hhead : L'.head = L.head)
    (hnext : ∀ c ∈ l, L'.next c = L.next c) (hprev : ∀ c ∈ l, L'.prev c = L.prev c) :
    L'.Leads l where
  head := hhead.trans h.head
  nodup := h.nodup
  linked := by
    refine h.linked.congr hnext (fun a ha ↦ ?_) fun a ha ↦ hprev a (List.mem_of_mem_tail ha)
    cases l with
    | nil => cases ha
    | cons b l =>
      obtain rfl : b = a := Option.some.inj ha
      rw [hprev b List.mem_cons_self]
      exact h.linked.1

/-- Behind the first node there is the second one. -/
theorem Leads.next_head {a : α} (h : L.Leads (a :: l)) : L.next a = l.head? := h.linked.2.1

/-- A block of nodes, each linked to its neighbours. -/
theorem dlist_range' {next prev : Nat → Option Nat} {start n : Nat} {p : Option Nat}
    (hnext : ∀ c, start ≤ c → c < start + n →
      next c = if c + 1 = start + n then none else some (c + 1))
    (hprev : ∀ c, start ≤ c → c < start + n → prev c = if c = start then p else some (c - 1)) :
    DList next prev p (List.range' start n) := by
  induction n generalizing start p with
  | zero => trivial
  | succ n ih =>
    rw [List.range'_succ]
    refine ⟨?_, ?_, ih (fun c hlow hhigh ↦ ?_) fun c hlow hhigh ↦ ?_⟩
    · rw [hprev start (Nat.le_refl _) (by omega), if_pos rfl]
    · rw [hnext start (Nat.le_refl _) (by omega)]
      cases n with
      | zero => rw [if_pos rfl, List.range'_zero, List.head?_nil]
      | succ n => rw [if_neg (by omega), List.range'_succ, List.head?_cons]
    · rw [hnext c (by omega) (by omega)]
      simp only [Nat.add_right_comm start 1 n, Nat.add_assoc]
    · rw [hprev c (by omega) (by omega), if_neg (by omega)]
      split
      · next hc => rw [hc, Nat.add_sub_cancel]
      · rfl

variable [DecidableEq α]

/-- Put `a` in front of all nodes. -/
def pushFront (a : α) (L : Links α) : Links α where
  head := some a
  next := Function.update L.next a L.head
  prev := match L.head with
    | none => Function.update L.prev a none
    | some b => Function.update (Function.update L.prev a none) b (some a)

/-- What `pushFront` writes to. -/
theorem Leads.pushFront_frame {a c : α} (h : L.Leads l) (hc : c ∉ a :: l) :
    (L.pushFront a).next c = L.next c ∧ (L.pushFront a).prev c = L.prev c := by
  have hca : c ≠ a := fun he ↦ hc (he ▸ List.mem_cons_self)
  refine ⟨Function.update_of_ne hca .., ?_⟩
  rw [pushFront, h.head]
  cases l with
  | nil => exact Function.update_of_ne hca ..
  | cons b l =>
    have hcb : c ≠ b := fun he ↦ hc (he ▸ List.mem_cons_of_mem _ List.mem_cons_self)
    exact (Function.update_of_ne hcb ..).trans (Function.update_of_ne hca ..)

/-- A new node comes to the front. -/
theorem Leads.pushFront {a : α} (h : L.Leads l) (ha : a ∉ l) : (L.pushFront a).Leads (a :: l) := by
  have hne : ∀ c ∈ l, c ≠ a := fun c hc he ↦ ha (he ▸ hc)
  have hwhole : L.Leads ([] ++ l) := h
  refine hwhole.between ha rfl ?_ ?_ (fun c hc ↦ ?_) fun c hc ↦ ?_
  · exact (Function.update_self ..).trans h.head
  · rw [Links.pushFront, h.head]
    cases l with
    | nil => exact Function.update_self ..
    | cons b l =>
      have hab : a ≠ b := (hne b List.mem_cons_self).symm
      exact (Function.update_of_ne hab ..).trans (Function.update_self ..)
  · exact Function.update_of_ne (hne c hc) ..
  · rw [Links.pushFront, h.head]
    cases l with
    | nil => cases hc
    | cons b l =>
      dsimp only [List.head?_cons]
      rw [Function.update_apply, Function.update_of_ne (hne c hc)]
      exact if_congr (by rw [Option.some.injEq, eq_comm]) rfl rfl

/-- What `unlink` writes to. -/
theorem Leads.unlink_frame {a c : α} {front back : List α} (h : L.Leads (front ++ a :: back))
    (hc : c ∉ front ++ back) :
    (L.unlink a).next c = L.next c ∧ (L.unlink a).prev c = L.prev c := by
  have hnext : L.next a = back.head? := h.linked.next_eq
  have hprev : L.prev a = front.getLast? := by rw [h.linked.prev_eq, Option.or_none]
  constructor
  · rw [Links.unlink, hprev]
    cases hlast : front.getLast? with
    | none => rfl
    | some p =>
      refine Function.update_of_ne (fun he ↦ hc ?_) ..
      exact List.mem_append_left _ (he ▸ List.mem_of_getLast? hlast)
  · rw [Links.unlink, hnext]
    cases hfirst : back.head? with
    | none => rfl
    | some n =>
      refine Function.update_of_ne (fun he ↦ hc ?_) ..
      exact List.mem_append_right _ (he ▸ List.mem_of_mem_head? hfirst)

end Links

end Library
