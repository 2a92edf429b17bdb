import Vuknob.Machine.Operations

/-!
# What the caller of an operation gets to know

A callback that is called directly throws through `machine_operation_enqueue`,
`src_jni/machine.cc:954–960`. From the queue only a `jException` gets back to the caller, in the
synch object, where the type `NO_ERROR` means that there was none,
`src_jni/machine.cc:982–988,1014–1026`; any other exception ends the program.
-/

namespace Vuknob

open Library

namespace Operations

variable {ε : Type} [DecidableEq ε] {noError : ε} {s s' : Operations ε}
  {command : OperationCommand ε} {r : OperationResult ε}

/-- The command by which a thread goes on with its loop. -/
def Consumer.resume : Consumer → OperationCommand ε
  | .audio => .audioDequeue
  | .deactivating => .deactivateDequeue

/-- The synch objects of the operations that are to be called are as constructed. -/
structure Fresh (noError : ε) (s : Operations ε) : Prop where
  distinct : s.ledger.Distinct
  synch : ∀ call, s.ledger.Pending call → (s.synch call).exceptionType = noError

/-- A caller that waits is told of what the callback did whenever it gets to wake up, as it is
where the callback is called directly. -/
def Alike (noError : ε) (callback : Completion ε) : Prop :=
  ∀ commands s, Run (step noError) (fun _ _ _ ↦ True) (initial noError) commands s →
    (s.direct → ∀ r s', s.step noError (.enqueue callback true) = some (r, s') →
      r = .ended s.passed callback) ∧
    ∀ c mo, s.taken c = some mo → mo.callback = callback → mo.doSync = true →
      ∀ r s', s.step noError c.resume = some (r, s') → s'.exited = false ∧
        ∀ later s'', Run (step noError) (fun _ _ _ ↦ True) s' later s'' →
          .awake mo.call ∉ later → s''.exited = false →
          ∃ t, s''.step noError (.awake mo.call) = some (.ended mo.call callback, t)

/-! ### The synch objects -/

/-- A thread that has taken an operation calls it next. -/
theorem resume_of_taken {c : Consumer} {mo : MachineOperation ε} (hmo : s.taken c = some mo)
    (h : s.step noError c.resume = some (r, s')) :
    s.action c.resume = .run c ∧ s'.synch = (s.callOperation mo).synch ∧
      s'.exited = (s.callOperation mo).exited := by
  rw [step, Option.ite_none_left_eq_some] at h
  obtain ⟨-, h⟩ := h
  cases c with
  | audio =>
    simp only [Consumer.resume, proceed] at h
    split at h
    · next d haudio =>
      have hd : d.mo = some mo := by simpa only [taken, haudio] using hmo
      obtain ⟨-, rfl⟩ := Prod.mk.inj (Option.some.inj h)
      have hstep : s.dequeueStep d = (some { d with mo := none }, s.callOperation mo) := by
        simp only [dequeueStep, hd]
      simp only [Consumer.resume, action, haudio, dequeueAction, hd, hstep, Option.isSome_some,
        if_true, and_self]
    · cases h
  | deactivating =>
    simp only [Consumer.resume, proceed, Option.map_eq_some_iff, Prod.mk.injEq] at h
    obtain ⟨d, hdeactivating, -, rfl⟩ := h
    have hd : d.mo = some mo := by simpa only [taken, hdeactivating, Option.bind_some] using hmo
    have hstep : s.dequeueStep d = (some { d with mo := none }, s.callOperation mo) := by
      simp only [dequeueStep, hd]
    simp only [Consumer.resume, action, hdeactivating, dequeueAction, hd, hstep,
      Option.isSome_some, if_true, and_self]

theorem callOperation_synch_of_ne {mo : MachineOperation ε} {i : Nat} (hi : mo.call ≠ i) :
    (s.callOperation mo).synch i = s.synch i := by
  simp only [callOperation]
  split
  · split
    · exact Function.update_of_ne (Ne.symm hi) _ _
    · rfl
  · split <;> rfl

private theorem dequeueStep_synch {d : Dequeue ε} {i : Nat}
    (hd : ∀ mo, d.mo = some mo → mo.call ≠ i) : (s.dequeueStep d).2.synch i = s.synch i := by
  rcases dequeueStep_cases (s := s) d with ⟨mo, hmo, hstep⟩ | ⟨-, -, hstep⟩ |
    ⟨mo, queue, -, -, -, hstep⟩
  · rw [hstep]
    exact callOperation_synch_of_ne (hd mo hmo)
  · rw [hstep]
  · rw [hstep]

/-- Only its own call and its caller change a synch object. -/
theorem synch_step {i : Nat} (h : s.step noError command = some (r, s')) (hi : i ≠ s.passed)
    (hcall : ∀ c mo, s.taken c = some mo → mo.call = i → command ≠ c.resume) :
    (s'.synch i).exceptionType = (s.synch i).exceptionType ∧
      (command ≠ .awake i → s'.synch i = s.synch i) := by
  rw [step, Option.ite_none_left_eq_some] at h
  obtain ⟨-, h⟩ := h
  have hsame (heq : s'.synch i = s.synch i) : (s'.synch i).exceptionType =
      (s.synch i).exceptionType ∧ (command ≠ .awake i → s'.synch i = s.synch i) :=
    ⟨congrArg SynchObject.exceptionType heq, fun _ ↦ heq⟩
  cases command with
  | enqueue callback doSync =>
    simp only [proceed, enqueue, Option.ite_none_left_eq_some, Option.some.injEq] at h
    obtain ⟨-, h⟩ := h
    split at h
    · obtain ⟨-, rfl⟩ := Prod.mk.inj h
      exact hsame rfl
    · obtain ⟨-, rfl⟩ := Prod.mk.inj h
      exact hsame (Function.update_of_ne hi _ _)
  | awake call =>
    simp only [proceed, Option.ite_none_right_eq_some, Option.some.injEq, Prod.mk.injEq] at h
    obtain ⟨-, -, rfl⟩ := h
    by_cases hc : i = call
    · subst hc
      exact ⟨by simp, fun hne ↦ absurd rfl hne⟩
    · exact hsame (Function.update_of_ne hc _ _)
  | registerSink m | unregisterSink m =>
    simp only [proceed, Option.ite_none_left_eq_some] at h
    obtain ⟨-, h⟩ := h
    split at h
    all_goals
      obtain ⟨-, rfl⟩ := Prod.mk.inj (Option.some.inj h)
      exact hsame rfl
  | activateLowLatencyMode | deactivateLowLatencyMode =>
    simp only [proceed, Option.ite_none_left_eq_some, Option.some.injEq, Prod.mk.injEq] at h
    obtain ⟨-, -, rfl⟩ := h
    exact hsame rfl
  | deactivateDequeue =>
    simp only [proceed, Option.map_eq_some_iff, Prod.mk.injEq] at h
    obtain ⟨d, hd, -, rfl⟩ := h
    refine hsame (dequeueStep_synch fun mo hmo heq ↦ ?_)
    refine hcall .deactivating mo ?_ heq rfl
    simp only [taken, hd, Option.bind_some, hmo]
  | fillThisSink m =>
    simp only [proceed] at h
    split at h
    · split at h
      all_goals
        obtain ⟨-, rfl⟩ := Prod.mk.inj (Option.some.inj h)
        exact hsame rfl
    · cases h
  | audioFilled =>
    simp only [proceed] at h
    split at h
    · obtain ⟨-, rfl⟩ := Prod.mk.inj (Option.some.inj h)
      exact hsame rfl
    · cases h
  | audioDequeue =>
    simp only [proceed] at h
    split at h
    · next d haudio =>
      obtain ⟨-, rfl⟩ := Prod.mk.inj (Option.some.inj h)
      refine hsame (dequeueStep_synch fun mo hmo heq ↦ ?_)
      refine hcall .audio mo ?_ heq rfl
      simp only [taken, haudio, hmo]
    · cases h

/-- An operation is queued by `machine_operation_enqueue` only, with a new synch object. -/
private theorem exceptionType_of_submit (h : s.step noError command = some (r, s'))
    (hsubmit : s.action command = .submit) : (s'.synch s.passed).exceptionType = noError := by
  have hdequeue (c : Consumer) (d : Dequeue ε) : s.dequeueAction c d ≠ .submit := by
    rw [dequeueAction]
    split
    · simp
    · split <;> simp
  rw [step, Option.ite_none_left_eq_some] at h
  obtain ⟨-, h⟩ := h
  cases command with
  | enqueue callback doSync =>
    rw [action] at hsubmit
    split at hsubmit
    · cases hsubmit
    · next hdirect =>
      simp only [proceed, enqueue, hdirect, if_false, Option.ite_none_left_eq_some,
        Option.some.injEq, Prod.mk.injEq] at h
      obtain ⟨-, -, rfl⟩ := h
      simp
  | deactivateDequeue =>
    rw [action] at hsubmit
    split at hsubmit
    · exact absurd hsubmit (hdequeue _ _)
    · cases hsubmit
  | audioDequeue =>
    rw [action] at hsubmit
    split at hsubmit
    · exact absurd hsubmit (hdequeue _ _)
    · cases hsubmit
  | _ => cases hsubmit

/-- The synch objects stay fresh until the operation is called. -/
theorem Fresh.step (hs : s.Fresh noError) (h : s.step noError command = some (r, s')) :
    s'.Fresh noError := by
  have hact := step_ledger h
  refine ⟨hs.distinct.act hact, fun call hpending ↦ ?_⟩
  rcases Ledger.pending_act hact hpending with hbefore | ⟨hsubmit, rfl⟩
  · have hlt : call < s.passed := hs.distinct.arrived call hbefore
    refine (synch_step h (Nat.ne_of_lt hlt) ?_).1.trans (hs.synch call hbefore)
    rintro c mo hmo rfl rfl
    rw [(resume_of_taken hmo h).1] at hact
    have hheld : s.ledger.held c = some mo.call := by simp only [ledger, hmo, Option.map_some]
    exact (hs.distinct.settled_run hheld hact).2 hpending
  · exact exceptionType_of_submit h hsubmit

omit [DecidableEq ε] in
theorem fresh_initial : (initial noError).Fresh noError where
  distinct := by
    have hledger : Ledger.initial = (initial noError).ledger := ledger_initial noError
    exact hledger ▸ Ledger.distinct_initial
  synch _ _ := rfl

/-- A synch object that has been triggered stays as it is until its caller is awake. -/
theorem synch_run {commands : List (OperationCommand ε)} {call : Nat}
    (hrun : Run (Operations.step noError) (fun _ _ _ ↦ True) s commands s')
    (hsettled : s.ledger.Settled call) (hawake : .awake call ∉ commands) :
    s'.synch call = s.synch call := by
  induction hrun with
  | nil => rfl
  | cons hstep _ _ ih =>
    rw [List.mem_cons, not_or] at hawake
    have hact := step_ledger hstep
    rw [ih (hsettled.act hact) hawake.2]
    refine (synch_step hstep (Nat.ne_of_lt hsettled.1) ?_).2 (Ne.symm hawake.1)
    rintro c mo hmo rfl -
    refine hsettled.2 (.inr ⟨c, ?_⟩)
    simp only [ledger, hmo, Option.map_some]

/-! ### Completions -/

/-- The callbacks whose completion comes through: it returns, or throws a `jException` whose type
is not the one for no error. -/
def Reportable (noError : ε) (callback : Completion ε) : Prop :=
  callback = .returned ∨ ∃ message type, callback = .jException message type ∧ type ≠ noError

/-- The callback throws an exception that `machine_operation_dequeue` has no way to report. -/
def Unexpected (callback : Completion ε) : Prop :=
  (∃ what, callback = .stdException what) ∨ callback = .unknownException

/-- A fresh synch object takes a reportable completion to the caller. -/
private theorem exists_report {callback : Completion ε} (h : Reportable noError callback)
    {o : SynchObject ε} (ho : o.exceptionType = noError) :
    ∃ o', report o callback = some o' ∧ o'.triggered = true ∧ afterWait noError o' = callback := by
  rcases h with rfl | ⟨message, type, rfl, hne⟩
  · exact ⟨{ o with triggered := true }, rfl, rfl, if_neg (by simp [ho])⟩
  · exact ⟨⟨true, message, type⟩, rfl, rfl, if_pos hne⟩

private theorem exited_of_step (h : s.step noError command = some (r, s')) : s.exited = false := by
  rw [step, Option.ite_none_left_eq_some] at h
  exact Bool.eq_false_iff.mpr h.1

/-- A reportable completion comes through the queue. -/
private theorem alike_of_reportable {callback : Completion ε} (hcallback : Reportable noError callback) :
    Alike noError callback := by
  intro commands s hrun
  have hfresh : s.Fresh noError :=
    hrun.invariant (fun s ↦ s.Fresh noError) (fun _ _ _ _ hs _ h ↦ hs.step h) fresh_initial
  refine ⟨fun hdirect r s' h ↦ ?_, ?_⟩
  · rw [step, Option.ite_none_left_eq_some] at h
    simp only [proceed, enqueue, hdirect, if_true, Option.ite_none_left_eq_some, Option.some.injEq,
      Prod.mk.injEq] at h
    exact h.2.2.1.symm
  · rintro c mo hmo rfl hsync r s' h
    have hheld : s.ledger.held c = some mo.call := by simp only [ledger, hmo, Option.map_some]
    obtain ⟨haction, hsynch, hexited⟩ := resume_of_taken hmo h
    have hact := step_ledger h
    rw [haction] at hact
    obtain ⟨o, ho, htriggered, hwait⟩ :=
      exists_report hcallback (hfresh.synch mo.call (.inr ⟨c, hheld⟩))
    simp only [callOperation, hsync, if_true, ho] at hsynch hexited
    refine ⟨hexited.trans (exited_of_step h), fun later s'' hlater hawake hruns ↦ ?_⟩
    have hkept := synch_run hlater (hfresh.distinct.settled_run hheld hact) hawake
    rw [hsynch, Function.update_self] at hkept
    simp only [step, hruns, proceed, hkept, htriggered, hwait]
    exact ⟨_, rfl⟩

/-- A synchronous operation in the hands of the audio thread, which goes on to call it. -/
private theorem exists_resume (noError : ε) (callback : Completion ε) :
    ∃ commands s r s', Run (step noError) (fun _ _ _ ↦ True) (initial noError) commands s ∧
      s.taken .audio = some ⟨0, callback, true⟩ ∧
      s.step noError Consumer.audio.resume = some (r, s') :=
  ⟨[.registerSink 1, .activateLowLatencyMode, .enqueue callback true, .fillThisSink 1,
      .audioFilled, .audioDequeue], _, _, _,
    .cons rfl trivial (.cons rfl trivial (.cons rfl trivial (.cons rfl trivial
      (.cons rfl trivial (.cons rfl trivial (.nil _)))))), rfl, rfl⟩

/-- An unexpected exception ends the program. -/
private theorem exited_of_unexpected {c : Consumer} {mo : MachineOperation ε}
    (hmo : s.taken c = some mo) (hcallback : Unexpected mo.callback) (hsync : mo.doSync = true)
    (h : s.step noError c.resume = some (r, s')) : s'.exited = true := by
  rw [(resume_of_taken hmo h).2.2]
  rcases hcallback with ⟨what, hwhat⟩ | hunknown
  · simp only [callOperation, hsync, hwhat, report, if_true]
  · simp only [callOperation, hsync, hunknown, report, if_true]

/-- The caller of a synchronous operation is told the same whether the callback is called directly
or from the queue, in every run, exactly if the callback returns or throws a `jException` whose
type is not the one for no error; any other exception from the queue ends the program. -/
theorem alike_iff (noError : ε) (callback : Completion ε) :
    (Alike noError callback ↔ Reportable noError callback) ∧
    (Unexpected callback → ∀ s c mo, taken s c = some mo → mo.callback = callback →
      mo.doSync = true → ∀ r s', s.step noError c.resume = some (r, s') → s'.exited = true) := by
  refine ⟨⟨fun halike ↦ ?_, alike_of_reportable⟩, ?_⟩
  swap
  · rintro hunexpected s c mo hmo rfl hsync r s' h
    exact exited_of_unexpected hmo hunexpected hsync h
  obtain ⟨commands, s, r, s', hrun, hmo, h⟩ := exists_resume noError callback
  obtain ⟨hexited, hlater⟩ := (halike commands s hrun).2 .audio _ hmo rfl rfl r s' h
  obtain ⟨-, hsynch', -⟩ := resume_of_taken hmo h
  obtain ⟨t, hawake⟩ := hlater [] s' (.nil s') (List.not_mem_nil) hexited
  cases callback with
  | returned => exact .inl rfl
  | jException message type =>
    refine .inr ⟨message, type, rfl, fun heq ↦ ?_⟩
    simp only [callOperation, report, if_true] at hsynch'
    simp [step, hexited, proceed, hsynch', afterWait, heq] at hawake
  | stdException what =>
    rw [exited_of_unexpected hmo (.inl ⟨what, rfl⟩) rfl h] at hexited
    cases hexited
  | unknownException =>
    rw [exited_of_unexpected hmo (.inr rfl) rfl h] at hexited
    cases hexited

/-- `ParameterOutOfSpec`, `src_jni/machine.hh:81–85`, is such an exception: called from the queue
it ends the program, and the caller is never told. -/
theorem parameterOutOfSpec_lost :
    ¬ ∀ callback : Completion Bool, Alike false callback := by
  intro hclaim
  obtain ⟨commands, s, r, s', hrun, hmo, h⟩ := exists_resume false
    (.stdException (str "Internal parameter outside of acceptable scope."))
  have hexited := ((hclaim _ commands s hrun).2 .audio _ hmo rfl rfl r s' h).1
  rw [exited_of_unexpected hmo (.inl ⟨_, rfl⟩) rfl h] at hexited
  cases hexited

end Operations

end Vuknob
