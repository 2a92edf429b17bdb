import Mathlib.Logic.Function.Basic

/-!
# Jobs in the order of their arrival

Jobs are numbered as they arrive. A job is run at once, or waits in a queue from which workers
take one at a time and run it. When is the `n`-th job to be run the `n`-th that arrived?
-/

namespace Library

/-- The jobs that have been run, those that workers hold, and those that wait. -/
structure Ledger (κ : Type) where
  arrived : Nat
  executed : List Nat
  held : κ → Option Nat
  waiting : List Nat

namespace Ledger

variable {κ : Type}

/-- What happens to the jobs. -/
inductive Action (κ : Type)
  | rest
  | bypass
  | submit
  | take (w : κ)
  | run (w : κ)

/-- The jobs after an action; a worker holds one job at most. -/
def act [DecidableEq κ] (l : Ledger κ) : Action κ → Option (Ledger κ)
  | .rest => some l
  | .bypass => some { l with arrived := l.arrived + 1, executed := l.executed ++ [l.arrived] }
  | .submit => some { l with arrived := l.arrived + 1, waiting := l.waiting ++ [l.arrived] }
  | .take w =>
    match l.held w, l.waiting with
    | none, job :: waiting =>
      some { l with held := Function.update l.held w (some job), waiting := waiting }
    | _, _ => none
  | .run w => (l.held w).map fun job ↦
      { l with held := Function.update l.held w none, executed := l.executed ++ [job] }

/-- The `n`-th job that was run is the `n`-th that arrived. -/
def InTurn (l : Ledger κ) : Prop := l.executed = List.range l.executed.length

/-- No job is held or waits. -/
def Idle (l : Ledger κ) : Prop := l.waiting = [] ∧ ∀ w, l.held w = none

/-- The jobs have been run in turn; those that follow are held, each by one worker, and those
behind them wait. -/
structure Accounted (l : Ledger κ) : Prop where
  inTurn : l.InTurn
  waiting : l.waiting = List.range' (l.arrived - l.waiting.length) l.waiting.length
  behind : l.executed.length + l.waiting.length ≤ l.arrived
  held : ∀ w job, l.held w = some job →
    l.executed.length ≤ job ∧ job + l.waiting.length < l.arrived
  unique : ∀ w v job, l.held w = some job → l.held v = some job → w = v
  covered : ∀ job, l.executed.length ≤ job → job + l.waiting.length < l.arrived →
    ∃ w, l.held w = some job

/-- Nothing has happened yet. -/
def initial : Ledger κ := ⟨0, [], fun _ ↦ none, []⟩

theorem accounted_initial : (initial : Ledger κ).Accounted where
  inTurn := rfl
  waiting := rfl
  behind := Nat.le_refl 0
  held _ _ h := by cases h
  unique _ _ _ h := by cases h
  covered job _ h := by
    simp only [initial, List.length_nil] at h
    omega

variable {l l' : Ledger κ}

/-- One more job has been run in turn. -/
theorem inTurn_append {executed : List Nat} {job : Nat} (h : executed = List.range executed.length) :
    executed ++ [job] = List.range (executed ++ [job]).length ↔ job = executed.length := by
  rw [List.length_append, List.length_singleton, List.range_succ]
  constructor
  · intro heq
    have := (List.append_inj heq (by simp)).2
    simpa using this
  · rintro rfl
    rw [← h]

/-- All jobs have been run exactly if none is held or waits. -/
theorem Accounted.length_eq_iff (h : l.Accounted) : l.executed.length = l.arrived ↔ l.Idle := by
  have hbehind := h.behind
  constructor
  · intro heq
    have hwaiting : l.waiting = [] := List.eq_nil_of_length_eq_zero (by omega)
    refine ⟨hwaiting, fun w ↦ ?_⟩
    cases hw : l.held w with
    | none => rfl
    | some job =>
      have := h.held w job hw
      omega
  · rintro ⟨hwaiting, hheld⟩
    by_contra hne
    have hlength : l.waiting.length = 0 := by rw [hwaiting, List.length_nil]
    obtain ⟨w, hw⟩ := h.covered l.executed.length (Nat.le_refl _) (by omega)
    rw [hheld w] at hw
    cases hw

variable [DecidableEq κ]

private theorem update_some_cases {held : κ → Option Nat} {w v : κ} {job j : Nat}
    (h : Function.update held w (some job) v = some j) : v = w ∧ j = job ∨ held v = some j := by
  rw [Function.update_apply] at h
  split at h
  · next hvw => exact .inl ⟨hvw, (Option.some.inj h).symm⟩
  · exact .inr h

private theorem update_none_cases {held : κ → Option Nat} {w v : κ} {j : Nat}
    (h : Function.update held w none v = some j) : v ≠ w ∧ held v = some j := by
  rw [Function.update_apply] at h
  split at h
  · cases h
  · next hvw => exact ⟨hvw, h⟩

/-- A job that is run on arrival is in turn exactly if no other is held or waits. -/
theorem Accounted.bypass (h : l.Accounted) (hact : l.act .bypass = some l') :
    (l'.InTurn ↔ l.Idle) ∧ (l.Idle → l'.Accounted) := by
  obtain rfl := Option.some.inj hact
  have hturn : InTurn { l with arrived := l.arrived + 1, executed := l.executed ++ [l.arrived] } ↔
      l.Idle := by
    rw [← h.length_eq_iff, InTurn, inTurn_append h.inTurn]
    exact eq_comm
  refine ⟨hturn, fun hidle ↦ ?_⟩
  obtain ⟨hwaiting, hheld⟩ := hidle
  have hlength : l.waiting.length = 0 := by rw [hwaiting, List.length_nil]
  have harrived := h.length_eq_iff.mpr ⟨hwaiting, hheld⟩
  exact
    { inTurn := hturn.mpr ⟨hwaiting, hheld⟩
      waiting := by simp [hwaiting]
      behind := by simp only [List.length_append, List.length_singleton]; omega
      held := fun w job hw ↦ by simp [hheld w] at hw
      unique := h.unique
      covered := fun job hle hlt ↦ by
        simp only [List.length_append, List.length_singleton] at hle hlt
        omega }

/-- A job that is queued waits behind the others. -/
theorem Accounted.submit (h : l.Accounted) (hact : l.act .submit = some l') : l'.Accounted := by
  obtain rfl := Option.some.inj hact
  obtain ⟨hturn, hwaiting, hbehind, hheld, hunique, hcovered⟩ := h
  have hstart : l.arrived + 1 - (l.waiting.length + 1) = l.arrived - l.waiting.length := by omega
  have hlast : l.arrived - l.waiting.length + l.waiting.length = l.arrived := by omega
  refine ⟨hturn, ?_, ?_, ?_, hunique, ?_⟩
  · rw [List.length_append, List.length_singleton, hstart, List.range'_concat, Nat.one_mul, hlast,
      ← hwaiting]
  · simp only [List.length_append, List.length_singleton]
    omega
  · intro w job hw
    have := hheld w job hw
    simp only [List.length_append, List.length_singleton]
    omega
  · intro job hle hlt
    simp only [List.length_append, List.length_singleton] at hlt
    exact hcovered job hle (by omega)

/-- A worker takes the job that comes next. -/
theorem Accounted.take {w : κ} (h : l.Accounted) (hact : l.act (.take w) = some l') :
    l'.Accounted := by
  rw [act] at hact
  split at hact
  · next job waiting hnone hcons =>
    obtain rfl := Option.some.inj hact
    obtain ⟨hturn, hwaiting, hbehind, hheld, hunique, hcovered⟩ := h
    rw [hcons, List.length_cons] at hwaiting hbehind
    simp only [hcons, List.length_cons] at hheld hcovered
    rw [List.range'_succ, List.cons.injEq] at hwaiting
    obtain ⟨hjob, hwaiting⟩ := hwaiting
    have hfresh (v : κ) : l.held v ≠ some job := by
      intro hv
      have := hheld v job hv
      omega
    have hstart : l.arrived - waiting.length = l.arrived - (waiting.length + 1) + 1 := by omega
    refine ⟨hturn, ?_, ?_, ?_, ?_, ?_⟩
    · rw [hstart]
      exact hwaiting
    · simp only
      omega
    · intro v j hv
      simp only
      rcases update_some_cases hv with ⟨-, rfl⟩ | hv
      · omega
      · have := hheld v j hv
        omega
    · intro v u j hv hu
      rcases update_some_cases hv with ⟨rfl, rfl⟩ | hvj
      · rcases update_some_cases hu with ⟨rfl, -⟩ | huj
        · rfl
        · exact absurd huj (hfresh u)
      · rcases update_some_cases hu with ⟨-, rfl⟩ | huj
        · exact absurd hvj (hfresh v)
        · exact hunique v u j hvj huj
    · intro j hle hlt
      by_cases hj : j = job
      · exact ⟨w, by rw [hj]; exact Function.update_self w (some job) l.held⟩
      · obtain ⟨v, hv⟩ := hcovered j hle (by simp only at hlt; omega)
        have hvw : v ≠ w := by
          rintro rfl
          rw [hnone] at hv
          cases hv
        exact ⟨v, (Function.update_of_ne hvw (some job) l.held).trans hv⟩
  · cases hact

/-- A job that a worker runs is in turn exactly if no other worker holds one from before it. -/
theorem Accounted.run {w : κ} (h : l.Accounted) (hact : l.act (.run w) = some l') :
    (l'.InTurn ↔ ∀ job, l.held w = some job → ∀ v j, l.held v = some j → job ≤ j) ∧
      (l'.InTurn → l'.Accounted) := by
  simp only [act, Option.map_eq_some_iff] at hact
  obtain ⟨job, hjob, rfl⟩ := hact
  obtain ⟨hturn, hwaiting, hbehind, hheld, hunique, hcovered⟩ := h
  have hjob' := hheld w job hjob
  have hnext : InTurn { l with
      held := Function.update l.held w none, executed := l.executed ++ [job] } ↔
      job = l.executed.length := inTurn_append hturn
  refine ⟨hnext.trans ⟨?_, ?_⟩, fun hturn' ↦ ?_⟩
  · rintro rfl j hj v i hi
    obtain rfl := Option.some.inj (hjob.symm.trans hj)
    exact (hheld v i hi).1
  · intro hleast
    obtain ⟨v, hv⟩ := hcovered l.executed.length (Nat.le_refl _) (by omega)
    have := hleast job hjob v _ hv
    omega
  · have heq := hnext.mp hturn'
    refine ⟨hturn', hwaiting, ?_, ?_, ?_, ?_⟩
    · simp only [List.length_append, List.length_singleton]
      omega
    · intro v j hv
      obtain ⟨hvw, hvj⟩ := update_none_cases hv
      have hne : j ≠ job := by
        rintro rfl
        exact hvw (hunique v w j hvj hjob)
      have := hheld v j hvj
      simp only [List.length_append, List.length_singleton]
      omega
    · intro v u j hv hu
      exact hunique v u j (update_none_cases hv).2 (update_none_cases hu).2
    · intro j hle hlt
      simp only [List.length_append, List.length_singleton] at hle
      obtain ⟨v, hv⟩ := hcovered j (by omega) hlt
      have hvw : v ≠ w := by
        rintro rfl
        obtain rfl := Option.some.inj (hjob.symm.trans hv)
        omega
      exact ⟨v, (Function.update_of_ne hvw none l.held).trans hv⟩

/-! ### Jobs in any order -/

/-- The job is held or waits. -/
def Pending (l : Ledger κ) (job : Nat) : Prop := job ∈ l.waiting ∨ ∃ w, l.held w = some job

/-- Every job that is held or waits is so at one place, and has arrived. -/
structure Distinct (l : Ledger κ) : Prop where
  waiting : l.waiting.Nodup
  apart : ∀ w job, l.held w = some job → job ∉ l.waiting
  unique : ∀ w v job, l.held w = some job → l.held v = some job → w = v
  arrived : ∀ job, l.Pending job → job < l.arrived

omit [DecidableEq κ] in
theorem distinct_initial : (initial : Ledger κ).Distinct where
  waiting := List.nodup_nil
  apart _ _ h := by cases h
  unique _ _ _ h := by cases h
  arrived job h := by
    rcases h with h | ⟨w, h⟩
    · cases h
    · cases h

/-- A job that has arrived and is not pending has been seen to. -/
def Settled (l : Ledger κ) (job : Nat) : Prop := job < l.arrived ∧ ¬ l.Pending job

/-- What can be pending after an action. -/
theorem pending_act {a : Action κ} (hact : l.act a = some l') {job : Nat} (h : l'.Pending job) :
    l.Pending job ∨ a = .submit ∧ job = l.arrived := by
  cases a with
  | rest =>
    obtain rfl := Option.some.inj hact
    exact .inl h
  | bypass =>
    obtain rfl := Option.some.inj hact
    exact .inl h
  | submit =>
    obtain rfl := Option.some.inj hact
    rcases h with h | h
    · rcases List.mem_append.mp h with h | h
      · exact .inl (.inl h)
      · exact .inr ⟨rfl, List.mem_singleton.mp h⟩
    · exact .inl (.inr h)
  | take w =>
    rw [act] at hact
    split at hact
    · next j waiting hnone hcons =>
      obtain rfl := Option.some.inj hact
      rcases h with h | ⟨v, hv⟩
      · exact .inl (.inl (hcons ▸ List.mem_cons_of_mem j h))
      · rcases update_some_cases hv with ⟨-, rfl⟩ | hv
        · exact .inl (.inl (hcons ▸ List.mem_cons_self))
        · exact .inl (.inr ⟨v, hv⟩)
    · cases hact
  | run w =>
    simp only [act, Option.map_eq_some_iff] at hact
    obtain ⟨j, -, rfl⟩ := hact
    rcases h with h | ⟨v, hv⟩
    · exact .inl (.inl h)
    · exact .inl (.inr ⟨v, (update_none_cases hv).2⟩)

theorem arrived_le_act {a : Action κ} (hact : l.act a = some l') : l.arrived ≤ l'.arrived := by
  cases a with
  | rest | bypass | submit =>
    obtain rfl := Option.some.inj hact
    simp
  | take w =>
    rw [act] at hact
    split at hact
    · obtain rfl := Option.some.inj hact
      exact Nat.le_refl _
    · cases hact
  | run w =>
    simp only [act, Option.map_eq_some_iff] at hact
    obtain ⟨j, -, rfl⟩ := hact
    exact Nat.le_refl _

/-- What has been seen to is not pending again. -/
theorem Settled.act {a : Action κ} {job : Nat} (h : l.Settled job) (hact : l.act a = some l') :
    l'.Settled job := by
  refine ⟨Nat.lt_of_lt_of_le h.1 (arrived_le_act hact), fun hp ↦ ?_⟩
  rcases pending_act hact hp with hp | ⟨-, heq⟩
  · exact h.2 hp
  · have := h.1
    omega

/-- A worker that runs a job has seen to it. -/
theorem Distinct.settled_run {w : κ} {job : Nat} (h : l.Distinct) (hjob : l.held w = some job)
    (hact : l.act (.run w) = some l') : l'.Settled job := by
  simp only [Ledger.act, hjob, Option.map_some] at hact
  obtain rfl := Option.some.inj hact
  refine ⟨h.arrived job (.inr ⟨w, hjob⟩), ?_⟩
  rintro (hw | ⟨v, hv⟩)
  · exact h.apart w job hjob hw
  · obtain ⟨hvw, hv⟩ := update_none_cases hv
    exact hvw (h.unique v w job hv hjob)

/-- Jobs stay distinct. -/
theorem Distinct.act {a : Action κ} (h : l.Distinct) (hact : l.act a = some l') : l'.Distinct := by
  have harrived (job : Nat) (hp : l'.Pending job) : job < l'.arrived := by
    have hle := arrived_le_act hact
    rcases pending_act hact hp with hp | ⟨rfl, rfl⟩
    · exact Nat.lt_of_lt_of_le (h.arrived job hp) hle
    · obtain rfl := Option.some.inj hact
      exact Nat.lt_succ_self _
  have hfresh (job : Nat) (hp : l.Pending job) : job ≠ l.arrived := Nat.ne_of_lt (h.arrived job hp)
  obtain ⟨hwaiting, hapart, hunique, -⟩ := h
  cases a with
  | rest | bypass =>
    obtain rfl := Option.some.inj hact
    exact ⟨hwaiting, hapart, hunique, harrived⟩
  | submit =>
    obtain rfl := Option.some.inj hact
    refine ⟨?_, fun w job hw hmem ↦ ?_, hunique, harrived⟩
    · refine List.nodup_append.mpr ⟨hwaiting, by simp, ?_⟩
      intro job hmem j hj
      obtain rfl := List.mem_singleton.mp hj
      exact hfresh job (.inl hmem)
    · rcases List.mem_append.mp hmem with hmem | hmem
      · exact hapart w job hw hmem
      · exact hfresh job (.inr ⟨w, hw⟩) (List.mem_singleton.mp hmem)
  | take w =>
    rw [Ledger.act] at hact
    split at hact
    · next j waiting hnone hcons =>
      obtain rfl := Option.some.inj hact
      rw [hcons, List.nodup_cons] at hwaiting
      have hj (v : κ) : l.held v ≠ some j := fun hv ↦
        hapart v j hv (hcons ▸ List.mem_cons_self)
      refine ⟨hwaiting.2, fun v i hv hmem ↦ ?_, fun v u i hv hu ↦ ?_, harrived⟩
      · rcases update_some_cases hv with ⟨-, rfl⟩ | hvi
        · exact hwaiting.1 hmem
        · exact hapart v i hvi (hcons ▸ List.mem_cons_of_mem j hmem)
      · rcases update_some_cases hv with ⟨rfl, rfl⟩ | hvi
        · rcases update_some_cases hu with ⟨rfl, -⟩ | hui
          · rfl
          · exact absurd hui (hj u)
        · rcases update_some_cases hu with ⟨-, rfl⟩ | hui
          · exact absurd hvi (hj v)
          · exact hunique v u i hvi hui
    · cases hact
  | run w =>
    simp only [Ledger.act, Option.map_eq_some_iff] at hact
    obtain ⟨j, -, rfl⟩ := hact
    exact ⟨hwaiting, fun v i hv ↦ hapart v i (update_none_cases hv).2,
      fun v u i hv hu ↦ hunique v u i (update_none_cases hv).2 (update_none_cases hu).2, harrived⟩

end Ledger

end Library
