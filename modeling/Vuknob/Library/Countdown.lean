import Mathlib.Data.List.Basic
import Vuknob.Library.Runs

/-!
# Runs that come to a goal

Some commands are ticks. A state may be so many ticks away from a goal; if every tick brings it one
closer and no other command takes it away, then a run with that many ticks comes to the goal, and
without a goal it has no more ticks.
-/

namespace Library

variable {S A R : Type} {step : S → A → Option (R × S)} {ok : S → A → R → Prop}

/-- A run with these commands comes to the goal, at its beginning or later. -/
def Passes (step : S → A → Option (R × S)) (ok : S → A → R → Prop) (goal : S → Prop) (s : S)
    (as : List A) : Prop :=
  ∃ front back u, as = front ++ back ∧ Run step ok s front u ∧ goal u

variable {goal : S → Prop} {s s' : S} {a : A} {r : R} {as : List A}

theorem Passes.here (h : goal s) : Passes step ok goal s as := ⟨[], as, s, rfl, .nil s, h⟩

theorem Passes.cons (hstep : step s a = some (r, s')) (hok : ok s a r)
    (h : Passes step ok goal s' as) : Passes step ok goal s (a :: as) := by
  obtain ⟨front, back, u, rfl, hrun, hgoal⟩ := h
  exact ⟨a :: front, back, u, rfl, .cons hstep hok hrun, hgoal⟩

/-- `left n s` says that `n + 1` ticks bring the state to the goal. -/
theorem Run.passes {tick : A → Bool} (left : Nat → S → Prop)
    (hidle : ∀ n s a r s', left n s → ¬ goal s → ok s a r → step s a = some (r, s') →
      tick a = false → goal s' ∨ left n s')
    (hlast : ∀ s a r s', left 0 s → ¬ goal s → ok s a r → step s a = some (r, s') →
      tick a = true → goal s')
    (htick : ∀ n s a r s', left (n + 1) s → ¬ goal s → ok s a r → step s a = some (r, s') →
      tick a = true → goal s' ∨ left n s')
    {t : S} (hrun : Run step ok s as t) {n : Nat} (hleft : left n s) (hn : n < as.countP tick) :
    Passes step ok goal s as := by
  induction hrun generalizing n with
  | nil s => cases hn
  | @cons s s' t a r as hstep hok _ ih =>
    by_cases hgoal : goal s
    · exact .here hgoal
    by_cases ha : tick a = true
    · rw [List.countP_cons_of_pos ha] at hn
      cases n with
      | zero => exact .cons hstep hok (.here (hlast _ _ _ _ hleft hgoal hok hstep ha))
      | succ n =>
        rcases htick _ _ _ _ _ hleft hgoal hok hstep ha with h | h
        · exact .cons hstep hok (.here h)
        · exact .cons hstep hok (ih h (Nat.lt_of_succ_lt_succ hn))
    · rw [List.countP_cons_of_neg ha] at hn
      rcases hidle _ _ _ _ _ hleft hgoal hok hstep (Bool.eq_false_iff.mpr ha) with h | h
      · exact .cons hstep hok (.here h)
      · exact .cons hstep hok (ih h hn)

/-- A rank that falls with every tick, and rises with no other command, bounds how many ticks there
are; `P` says which commands the run may have. -/
theorem Run.countP_add_rank_le {P : A → Prop} (tick : A → Bool) (rank : S → Nat) (Inv : S → Prop)
    (hstep : ∀ s a r s', Inv s → P a → step s a = some (r, s') →
      Inv s' ∧ rank s' + (if tick a then 1 else 0) ≤ rank s)
    {t : S} (hrun : Run step ok s as t) (has : ∀ a ∈ as, P a) (hs : Inv s) :
    Inv t ∧ as.countP tick + rank t ≤ rank s := by
  induction hrun with
  | nil s => exact ⟨hs, Nat.le_of_eq (Nat.zero_add _)⟩
  | @cons s s' t a r as hst _ _ ih =>
    obtain ⟨ha, has⟩ := List.forall_mem_cons.mp has
    obtain ⟨hinv, hle⟩ := hstep _ _ _ _ hs ha hst
    obtain ⟨hlast, hcount⟩ := ih has hinv
    refine ⟨hlast, ?_⟩
    rw [List.countP_cons]
    omega

end Library
