import Mathlib.Logic.Function.Basic

/-!
# Recursive locks

A monitor that one thread at a time may enter, and enter again while it is inside. What it holds is
the thread inside with the number of times it has entered behind the first.
-/

namespace Library

/-- The thread inside, with the number of times it has entered again. -/
structure Monitor (τ : Type) where
  holder : Option (τ × Nat)

namespace Monitor

variable {τ : Type} [DecidableEq τ]

/-- Nobody is inside. -/
def free : Monitor τ := ⟨none⟩

/-- Enter; a thread has to wait for another one inside. -/
def enter (m : Monitor τ) (t : τ) : Option (Monitor τ) :=
  match m.holder with
  | none => some ⟨some (t, 0)⟩
  | some (u, n) => if u = t then some ⟨some (t, n + 1)⟩ else none

/-- Leave; only the thread inside can. -/
def leave (m : Monitor τ) (t : τ) : Option (Monitor τ) :=
  match m.holder with
  | none => none
  | some (u, n) =>
    if u = t then
      match n with
      | 0 => some ⟨none⟩
      | n + 1 => some ⟨some (t, n)⟩
    else none

/-- How many times a thread is inside. -/
def depth (m : Monitor τ) (t : τ) : Nat :=
  match m.holder with
  | none => 0
  | some (u, n) => if u = t then n + 1 else 0

/-- How many times anybody is inside. -/
def count (m : Monitor τ) : Nat :=
  match m.holder with
  | none => 0
  | some (_, n) => n + 1

variable {m m' : Monitor τ} {t u : τ}

@[simp]
theorem depth_free (t : τ) : (free : Monitor τ).depth t = 0 := rfl

omit [DecidableEq τ] in
@[simp]
theorem count_free : (free : Monitor τ).count = 0 := rfl

/-- Where no other thread is inside, the count is that of the thread. -/
theorem count_eq_depth_of_others (h : ∀ u, u ≠ t → m.depth u = 0) : m.count = m.depth t := by
  obtain ⟨_ | ⟨u, n⟩⟩ := m
  · rfl
  · by_cases hu : u = t
    · simp [count, depth, hu]
    · have := h u hu
      simp [depth] at this

theorem enter_spec (h : m.enter t = some m') :
    m'.count = m.count + 1 ∧ m'.depth = Function.update m.depth t (m.depth t + 1) := by
  obtain ⟨_ | ⟨u, n⟩⟩ := m
  · obtain rfl := Option.some.inj h
    refine ⟨rfl, funext fun v ↦ ?_⟩
    simp only [depth, Function.update_apply, eq_comm]
  · simp only [enter] at h
    split at h
    · next hu =>
      obtain rfl := Option.some.inj h
      subst hu
      refine ⟨rfl, funext fun v ↦ ?_⟩
      simp only [depth, Function.update_apply, if_true, eq_comm]
      split <;> rfl
    · cases h

/-- A thread inside can leave. -/
theorem leave_spec (h : 0 < m.depth t) :
    ∃ m', m.leave t = some m' ∧ m'.count + 1 = m.count ∧
      m'.depth = Function.update m.depth t (m.depth t - 1) := by
  obtain ⟨_ | ⟨u, n⟩⟩ := m
  · exact absurd h (Nat.lt_irrefl 0)
  · simp only [depth] at h
    split at h
    · next hu =>
      subst hu
      cases n with
      | zero =>
        refine ⟨⟨none⟩, by simp [leave], rfl, funext fun v ↦ ?_⟩
        simp only [depth, Function.update_apply, if_true, eq_comm]
        split <;> rfl
      | succ n =>
        refine ⟨⟨some (u, n)⟩, by simp [leave], rfl, funext fun v ↦ ?_⟩
        simp only [depth, Function.update_apply, if_true, eq_comm]
        split <;> rfl
    · exact absurd h (Nat.lt_irrefl 0)

end Monitor

end Library
