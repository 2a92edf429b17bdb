import Mathlib.Data.List.Basic

/-!
# Counted loops over memory

A loop whose counter goes up from zero, with a body that may be undefined, and the reads and writes
of an array, which are undefined outside of it.
-/

namespace Library

section

variable {S : Type} {f : Nat → S → Option S} {n : Nat} {s t : S}

/-- `for(i = 0; i < n; i++) body(i)`. -/
def loop (body : Nat → S → Option S) : Nat → S → Option S
  | 0, s => some s
  | n + 1, s => (loop body n s).bind (body n)

/-- What holds before the loop and is carried from each round to the next one holds behind it. -/
theorem loop_rule (M : Nat → S → Prop) (hstart : M 0 s)
    (hround : ∀ i < n, ∀ t, M i t → ∃ t', f i t = some t' ∧ M (i + 1) t') :
    ∃ t, loop f n s = some t ∧ M n t := by
  induction n with
  | zero => exact ⟨s, rfl, hstart⟩
  | succ n ih =>
    obtain ⟨t, ht, hM⟩ := ih fun i hi ↦ hround i (Nat.lt_succ_of_lt hi)
    obtain ⟨t', ht', hM'⟩ := hround n (Nat.lt_succ_self n) t hM
    exact ⟨t', by rw [loop, ht, Option.bind_some, ht'], hM'⟩

/-- What every round keeps, a loop that is defined keeps. -/
theorem loop_keeps (M : S → Prop) (hstart : M s)
    (hround : ∀ i t t', M t → f i t = some t' → M t') (h : loop f n s = some t) : M t := by
  induction n generalizing t with
  | zero => exact Option.some.inj h ▸ hstart
  | succ n ih =>
    obtain ⟨u, hu, hbody⟩ := Option.bind_eq_some_iff.mp h
    exact hround n u t (ih hu) hbody

/-- A loop that is defined has gone through all of its rounds. -/
theorem exists_of_loop (h : loop f n s = some t) {i : Nat} (hi : i < n) :
    ∃ u u', loop f i s = some u ∧ f i u = some u' := by
  induction n generalizing t with
  | zero => omega
  | succ n ih =>
    obtain ⟨u, hu, hbody⟩ := Option.bind_eq_some_iff.mp h
    by_cases he : i = n
    · subst he
      exact ⟨u, t, hu, hbody⟩
    · exact ih hu (by omega)

/-- Two bodies that do the same in each round make the same loop. -/
theorem loop_congr {g : Nat → S → Option S} (h : ∀ i < n, ∀ t, f i t = g i t) :
    loop f n s = loop g n s := by
  induction n with
  | zero => rfl
  | succ n ih =>
    rw [loop, loop, ih fun i hi ↦ h i (Nat.lt_succ_of_lt hi)]
    congr 1
    funext t
    exact h n (Nat.lt_succ_self n) t

end

section

variable {α : Type} {mem mem' : List α} {i : Int} {a b : α}

/-- `mem[i]`. -/
def fetch (mem : List α) (i : Int) : Option α := if 0 ≤ i then mem[i.toNat]? else none

/-- `mem[i] = a`. -/
def store (mem : List α) (i : Int) (a : α) : Option (List α) :=
  if 0 ≤ i ∧ i < mem.length then some (mem.set i.toNat a) else none

@[simp] theorem fetch_natCast (mem : List α) (k : Nat) : fetch mem k = mem[k]? := by
  rw [fetch, if_pos (Int.natCast_nonneg k), Int.toNat_natCast]

theorem store_natCast {k : Nat} (hk : k < mem.length) : store mem k a = some (mem.set k a) := by
  rw [store, if_pos ⟨Int.natCast_nonneg k, by omega⟩, Int.toNat_natCast]

/-- An access that is defined is inside of the array. -/
theorem lt_of_fetch (h : fetch mem i = some a) : 0 ≤ i ∧ i < mem.length := by
  rw [fetch] at h
  split at h
  · have := (List.getElem?_eq_some_iff.mp h).1
    omega
  · cases h

theorem lt_of_store (h : store mem i a = some mem') : 0 ≤ i ∧ i < mem.length := by
  rw [store] at h
  split at h
  · next hi => exact hi
  · cases h

theorem length_store (h : store mem i a = some mem') : mem'.length = mem.length := by
  rw [store] at h
  split at h
  · rw [← Option.some.inj h, List.length_set]
  · cases h

/-- An array that is filled from its start on. -/
theorem store_fill (xs mem : List α) (h : xs.length < mem.length) (a : α) :
    store (xs ++ mem.drop xs.length) xs.length a =
      some (xs ++ [a] ++ mem.drop (xs.length + 1)) := by
  have hlt : xs.length < (xs ++ mem.drop xs.length).length := by
    rw [List.length_append, List.length_drop]
    omega
  rw [store_natCast hlt, List.set_append_right _ _ (Nat.le_refl _), Nat.sub_self,
    List.drop_eq_getElem_cons h, List.set_cons_zero, List.append_assoc]
  rfl

end

end Library
