/-!
# Runs of a machine with a step function

A step takes a state and a command to a result and a new state, or is undefined. A run
is a list of commands carried out one after the other; `ok` says which steps it may take.
-/

namespace Library

variable {S A R : Type}

/-- `Run step ok s as t`: the commands `as` lead from `s` to `t`, every step satisfying
`ok` at the state before it. -/
inductive Run (step : S → A → Option (R × S)) (ok : S → A → R → Prop) :
    S → List A → S → Prop
  | nil (s : S) : Run step ok s [] s
  | cons {s s' t : S} {a : A} {r : R} {as : List A} (hstep : step s a = some (r, s'))
      (hok : ok s a r) (hrest : Run step ok s' as t) : Run step ok s (a :: as) t

variable {step : S → A → Option (R × S)} {ok : S → A → R → Prop}

/-- What every permitted step keeps holds after every run. -/
theorem Run.invariant (Inv : S → Prop)
    (hstep : ∀ s a r s', Inv s → ok s a r → step s a = some (r, s') → Inv s')
    {s t : S} {as : List A} (hrun : Run step ok s as t) (hs : Inv s) : Inv t := by
  induction hrun with
  | nil s => exact hs
  | cons hst hok _ ih => exact ih (hstep _ _ _ _ hs hok hst)

/-- What commands of one kind keep holds after a run of such commands. -/
theorem Run.invariant_of_forall (Inv : S → Prop) {P : A → Prop}
    (hstep : ∀ s a r s', Inv s → P a → step s a = some (r, s') → Inv s')
    {s t : S} {as : List A} (hrun : Run step ok s as t) (has : ∀ a ∈ as, P a) (hs : Inv s) :
    Inv t := by
  induction hrun with
  | nil s => exact hs
  | cons hst _ _ ih =>
    obtain ⟨ha, has⟩ := List.forall_mem_cons.mp has
    exact ih has (hstep _ _ _ _ hs ha hst)

/-- A run goes on with another one. -/
theorem Run.append {s t u : S} {as bs : List A} (hrun : Run step ok s as t)
    (hmore : Run step ok t bs u) : Run step ok s (as ++ bs) u := by
  induction hrun with
  | nil s => exact hmore
  | cons hst hok _ ih => exact .cons hst hok (ih hmore)

/-- What is permitted of a step that is taken may be replaced by what follows from it. -/
theorem Run.of_step {o : S → A → R → Prop}
    (h : ∀ s a r s', step s a = some (r, s') → ok s a r → o s a r) {s t : S} {as : List A}
    (hrun : Run step ok s as t) : Run step o s as t := by
  induction hrun with
  | nil s => exact .nil s
  | cons hst hok _ ih => exact .cons hst (h _ _ _ _ hst hok) ih

/-- A run may be read with weaker permissions. -/
theorem Run.mono {o : S → A → R → Prop} (h : ∀ s a r, ok s a r → o s a r) {s t : S}
    {as : List A} (hrun : Run step ok s as t) : Run step o s as t :=
  hrun.of_step fun s a r _ _ ↦ h s a r

/-- Two ways to say which steps are permitted make the same runs if they agree wherever an
invariant of one of them holds. -/
theorem Run.iff_of_invariant {o : S → A → R → Prop} (Inv : S → Prop)
    (hiff : ∀ s a r s', Inv s → step s a = some (r, s') → (ok s a r ↔ o s a r))
    (hstep : ∀ s a r s', Inv s → ok s a r → step s a = some (r, s') → Inv s')
    {s t : S} {as : List A} (hs : Inv s) : Run step ok s as t ↔ Run step o s as t := by
  constructor
  · intro hrun
    induction hrun with
    | nil s => exact .nil s
    | cons hst hok _ ih =>
      exact .cons hst ((hiff _ _ _ _ hs hst).mp hok) (ih (hstep _ _ _ _ hs hok hst))
  · intro hrun
    induction hrun with
    | nil s => exact .nil s
    | cons hst hok _ ih =>
      have hok' := (hiff _ _ _ _ hs hst).mpr hok
      exact .cons hst hok' (ih (hstep _ _ _ _ hs hok' hst))

/-- Carry out a list of commands, as long as every step passes the check. -/
def runAll (step : S → A → Option (R × S)) (check : S → A → R → Bool) : S → List A → Option S
  | s, [] => some s
  | s, a :: as =>
    match step s a with
    | none => none
    | some (r, s') => if check s a r then runAll step check s' as else none

/-- Executing the commands is a run whose steps pass the check. -/
theorem Run.of_runAll {check : S → A → R → Bool} {s t : S} {as : List A}
    (h : runAll step check s as = some t) : Run step (fun s a r ↦ check s a r = true) s as t := by
  induction as generalizing s with
  | nil =>
    obtain rfl := Option.some.inj h
    exact .nil s
  | cons a as ih =>
    rw [runAll] at h
    split at h
    · cases h
    · next r s' hs =>
      split at h
      · next hc => exact .cons hs hc (ih h)
      · cases h

/-! ## Steps that write a log -/

section

variable {step : S → A → List R × S}

/-- Carry out commands that are always defined, one after the other, with all that they log. -/
def runLogged (step : S → A → List R × S) : S → List A → List R × S
  | s, [] => ([], s)
  | s, a :: as =>
    let (log, s') := step s a
    let (more, t) := runLogged step s' as
    (log ++ more, t)

/-- Every command meets a condition at the state before it. -/
def Meets (step : S → A → List R × S) (ready : S → A → Prop) : S → List A → Prop
  | _, [] => True
  | s, a :: as => ready s a ∧ Meets step ready (step s a).2 as

theorem Meets.replicate {ready : S → A → Prop} {a : A} (h : ∀ s, ready s a) (n : Nat) (s : S) :
    Meets step ready s (List.replicate n a) := by
  induction n generalizing s with
  | zero => trivial
  | succ n ih => exact ⟨h s, ih _⟩

/-- If every command that meets the condition keeps an invariant and logs only what it should, then
so do commands that all meet it. -/
theorem Meets.runLogged {ready : S → A → Prop} (Inv : S → Prop) (P : R → Prop)
    (hstep : ∀ s a, Inv s → ready s a → Inv (step s a).2 ∧ ∀ r ∈ (step s a).1, P r)
    {s : S} {as : List A} (hmeets : Meets step ready s as) (hs : Inv s) :
    Inv (runLogged step s as).2 ∧ ∀ r ∈ (runLogged step s as).1, P r := by
  induction as generalizing s with
  | nil => exact ⟨hs, fun r hr ↦ by cases hr⟩
  | cons a as ih =>
    obtain ⟨hready, hrest⟩ := hmeets
    obtain ⟨hinv, hlog⟩ := hstep s a hs hready
    obtain ⟨hlast, hmore⟩ := ih hrest hinv
    exact ⟨hlast, fun r hr ↦ (List.mem_append.mp hr).elim (hlog r) (hmore r)⟩

end

end Library
