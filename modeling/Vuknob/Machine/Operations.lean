import Vuknob.Library.Dispatch
import Vuknob.Library.Runs
import Vuknob.Machine.Space

/-!
# Machine operations

`machine_operation_enqueue` and `machine_operation_dequeue`, `src_jni/machine.cc:948–1044`, with
the switch of the mode and of the sink that decide between the two ways an operation can take,
`src_jni/machine.cc:1049–1066,1110–1146,1695–1722`. What is done under the machine space lock is
one step; the audio thread does not take the lock in low latency mode, so that taking an
operation from the queue and calling it are two. The queue is first in, first out.
-/

namespace Vuknob

open Library

/-- How a callback ends; the type of a `jException` comes from a library. -/
inductive Completion (ε : Type)
  | returned
  | jException (message : StdString) (type : ε)
  | stdException (what : StdString)
  | unknownException
  deriving DecidableEq

/-- `MachineOperationSynchObject`, `src_jni/machine.cc:913–934`. -/
structure SynchObject (ε : Type) where
  triggered : Bool
  exceptionMessage : StdString
  exceptionType : ε

/-- `MachineOperation`, `src_jni/machine.cc:936–943`, with the number of the call of
`machine_operation_enqueue` that it is from; the synch object is that of the call. -/
structure MachineOperation (ε : Type) where
  call : Nat
  callback : Completion ε
  doSync : Bool

/-- The variables of `machine_operation_dequeue`: `mo` is an operation that has been taken from
the queue and not yet been called. -/
structure Dequeue (ε : Type) where
  kount : Nat
  mo : Option (MachineOperation ε)

/-- Where the audio thread is in `fill_this_sink`, `src_jni/machine.cc:1110–1146`, in low latency
mode. -/
inductive AudioThread (ε : Type)
  | outside
  | filling
  | dequeuing (d : Dequeue ε)

/-- The static members, the queue and the threads. The calls of `machine_operation_enqueue` are
numbered as they pass the lock, and the operations listed as they are called. `deactivating` is
the thread that holds the lock in `deactivate_low_latency_mode`. -/
structure Operations (ε : Type) where
  sink : Option MachineId
  lowLatencyMode : Bool
  queue : List (MachineOperation ε)
  audio : AudioThread ε
  deactivating : Option (Dequeue ε)
  synch : Nat → SynchObject ε
  passed : Nat
  executed : List Nat
  exited : Bool

/-- What a thread does next. -/
inductive OperationCommand (ε : Type)
  | enqueue (callback : Completion ε) (doSync : Bool)
  | awake (call : Nat)
  | registerSink (m : MachineId)
  | unregisterSink (m : MachineId)
  | activateLowLatencyMode
  | deactivateLowLatencyMode
  | deactivateDequeue
  | fillThisSink (m : MachineId)
  | audioFilled
  | audioDequeue

/-- What comes of it: a call of `machine_operation_enqueue` has ended, or
`deactivate_low_latency_mode` has. -/
inductive OperationResult (ε : Type)
  | continues
  | ended (call : Nat) (completion : Completion ε)
  | sanityError (message : StdString)
  | deactivated
  deriving DecidableEq

namespace Operations

variable {ε : Type} [DecidableEq ε] (noError : ε) (s : Operations ε)

/-- The lock is taken from one step to another only by `deactivate_low_latency_mode`. -/
def locked : Bool := s.deactivating.isSome

/-- Nobody executes operations, `src_jni/machine.cc:951`. -/
def direct : Prop := s.sink = none ∨ s.lowLatencyMode = false

instance : Decidable s.direct := inferInstanceAs (Decidable (_ ∨ _))

/-- The part of `machine_operation_enqueue` under the lock, `src_jni/machine.cc:948–975`. -/
def enqueue (callback : Completion ε) (doSync : Bool) : OperationResult ε × Operations ε :=
  if s.direct then
    (.ended s.passed callback,
      { s with passed := s.passed + 1, executed := s.executed ++ [s.passed] })
  else
    (if doSync then .continues else .ended s.passed .returned,
      { s with
        passed := s.passed + 1
        queue := s.queue ++ [⟨s.passed, callback, doSync⟩]
        synch := Function.update s.synch s.passed ⟨false, [], noError⟩ })

/-- The part behind the wait, `src_jni/machine.cc:979–988`. -/
def afterWait (o : SynchObject ε) : Completion ε :=
  if o.exceptionType ≠ noError then .jException o.exceptionMessage o.exceptionType else .returned

/-- What the call of an operation with a synch object does to it, or `none` where the program
ends, `src_jni/machine.cc:1014–1026`. -/
def report (o : SynchObject ε) : Completion ε → Option (SynchObject ε)
  | .returned => some { o with triggered := true }
  | .jException message type => some ⟨true, message, type⟩
  | .stdException _ | .unknownException => none

/-- Call an operation, `src_jni/machine.cc:1011–1042`. -/
def callOperation (mo : MachineOperation ε) : Operations ε :=
  let s := { s with executed := s.executed ++ [mo.call] }
  if mo.doSync then
    match report (s.synch mo.call) mo.callback with
    | some o => { s with synch := Function.update s.synch mo.call o }
    | none => { s with exited := true }
  else if mo.callback = .returned then s else { s with exited := true }

/-- Half a round of `machine_operation_dequeue`: call the operation that has been taken, or take
one; the loop can end instead, `src_jni/machine.cc:1008–1009`. -/
def dequeueStep (d : Dequeue ε) : Option (Dequeue ε) × Operations ε :=
  match d.mo with
  | some mo => (some { d with mo := none }, s.callOperation mo)
  | none =>
    if d.kount = 0 then (none, s)
    else
      match s.queue with
      | [] => (none, s)
      | mo :: queue => (some ⟨d.kount - 1, some mo⟩, { s with queue := queue })

/-- The limit of `machine_operation_dequeue`, `src_jni/machine.cc:1007`. -/
def dequeueLimit : Nat := 50

/-- Carry out a command while the program runs; where the result is `none` the thread has to
wait, or is elsewhere. -/
def proceed : OperationCommand ε → Option (OperationResult ε × Operations ε)
  | .enqueue callback doSync =>
    if s.locked then none else some (s.enqueue noError callback doSync)
  | .awake call =>
    if (s.synch call).triggered then
      some (.ended call (afterWait noError (s.synch call)),
        { s with synch := Function.update s.synch call { s.synch call with triggered := false } })
    else none
  | .registerSink m =>
    if s.locked then none
    else if s.sink.isSome then some (.sanityError (str "Multiple sinks not allowed."), s)
    else some (.continues, { s with sink := some m })
  | .unregisterSink m =>
    if s.locked then none
    else if s.sink ≠ some m then some (.sanityError (str "Sink not registered."), s)
    else some (.continues, { s with sink := none })
  | .activateLowLatencyMode =>
    if s.locked then none else some (.continues, { s with lowLatencyMode := true })
  | .deactivateLowLatencyMode =>
    if s.locked then none
    else some (.continues,
      { s with lowLatencyMode := false, deactivating := some ⟨dequeueLimit, none⟩ })
  | .deactivateDequeue =>
    s.deactivating.map fun d ↦
      (if (s.dequeueStep d).1.isSome then .continues else .deactivated,
        { (s.dequeueStep d).2 with deactivating := (s.dequeueStep d).1 })
  | .fillThisSink m =>
    match s.audio with
    | .outside =>
      if s.sink = some m ∧ s.lowLatencyMode = true then
        some (.continues, { s with audio := .filling })
      else some (.continues, s)
    | _ => none
  | .audioFilled =>
    match s.audio with
    | .filling => some (.continues, { s with audio := .dequeuing ⟨dequeueLimit, none⟩ })
    | _ => none
  | .audioDequeue =>
    match s.audio with
    | .dequeuing d =>
      some (.continues,
        { (s.dequeueStep d).2 with audio := (s.dequeueStep d).1.elim .outside .dequeuing })
    | _ => none

/-- Carry out a command, unless the program has ended. -/
def step (command : OperationCommand ε) : Option (OperationResult ε × Operations ε) :=
  if s.exited then none else s.proceed noError command

/-- The start of the program. -/
def initial : Operations ε where
  sink := none
  lowLatencyMode := false
  queue := []
  audio := .outside
  deactivating := none
  synch _ := ⟨false, [], noError⟩
  passed := 0
  executed := []
  exited := false

/-! ### The order of the operations -/

/-- The threads that take operations from the queue. -/
inductive Consumer
  | audio
  | deactivating
  deriving DecidableEq

/-- The operation that a thread has taken and not yet called. -/
def taken : Consumer → Option (MachineOperation ε)
  | .audio =>
    match s.audio with
    | .dequeuing d => d.mo
    | _ => none
  | .deactivating => s.deactivating.bind Dequeue.mo

/-- The operations by their numbers. -/
def ledger (s : Operations ε) : Ledger Consumer where
  arrived := s.passed
  executed := s.executed
  held c := (s.taken c).map MachineOperation.call
  waiting := s.queue.map MachineOperation.call

variable {noError} {s} {s' : Operations ε} {command : OperationCommand ε} {r : OperationResult ε}

/-- What half a round of `machine_operation_dequeue` does to the ledger. -/
def dequeueAction (s : Operations ε) (c : Consumer) (d : Dequeue ε) : Ledger.Action Consumer :=
  if d.mo.isSome then .run c else if d.kount = 0 ∨ s.queue = [] then .rest else .take c

/-- What a command does to the ledger. -/
def action (s : Operations ε) : OperationCommand ε → Ledger.Action Consumer
  | .enqueue _ _ => if s.direct then .bypass else .submit
  | .deactivateDequeue =>
    match s.deactivating with
    | some d => s.dequeueAction .deactivating d
    | none => .rest
  | .audioDequeue =>
    match s.audio with
    | .dequeuing d => s.dequeueAction .audio d
    | _ => .rest
  | _ => .rest

/-- To call an operation leaves the queue and the threads alone. -/
theorem callOperation_eq (mo : MachineOperation ε) :
    ∃ synch exited, s.callOperation mo =
      { s with executed := s.executed ++ [mo.call], synch := synch, exited := exited } := by
  simp only [callOperation]
  split
  · split
    · exact ⟨_, _, rfl⟩
    · exact ⟨_, _, rfl⟩
  · split
    · exact ⟨_, _, rfl⟩
    · exact ⟨_, _, rfl⟩

/-- What half a round of `machine_operation_dequeue` can do. -/
theorem dequeueStep_cases (d : Dequeue ε) :
    (∃ mo, d.mo = some mo ∧ s.dequeueStep d = (some { d with mo := none }, s.callOperation mo)) ∨
      (d.mo = none ∧ (d.kount = 0 ∨ s.queue = []) ∧ s.dequeueStep d = (none, s)) ∨
      ∃ mo queue, d.mo = none ∧ ¬ (d.kount = 0 ∨ s.queue = []) ∧ s.queue = mo :: queue ∧
        s.dequeueStep d = (some ⟨d.kount - 1, some mo⟩, { s with queue := queue }) := by
  obtain ⟨kount, mo⟩ := d
  cases mo with
  | some mo => exact .inl ⟨mo, rfl, rfl⟩
  | none =>
    by_cases hkount : kount = 0
    · exact .inr (.inl ⟨rfl, .inl hkount, by simp only [dequeueStep, hkount, if_true]⟩)
    · cases hqueue : s.queue with
      | nil =>
        refine .inr (.inl ⟨rfl, .inr rfl, ?_⟩)
        simp only [dequeueStep, hkount, hqueue, if_false]
      | cons mo queue =>
        refine .inr (.inr ⟨mo, queue, rfl, by simp [hkount], rfl, ?_⟩)
        simp only [dequeueStep, hkount, hqueue, if_false]

private theorem dequeueStep_threads (d : Dequeue ε) :
    (s.dequeueStep d).2.audio = s.audio ∧ (s.dequeueStep d).2.deactivating = s.deactivating := by
  rcases dequeueStep_cases (s := s) d with ⟨mo, -, hstep⟩ | ⟨-, -, hstep⟩ | ⟨mo, queue, -, -, -, hstep⟩
  · obtain ⟨synch, exited, hcall⟩ := callOperation_eq (s := s) mo
    rw [hstep, hcall]
    exact ⟨rfl, rfl⟩
  · rw [hstep]
    exact ⟨rfl, rfl⟩
  · rw [hstep]
    exact ⟨rfl, rfl⟩

omit [DecidableEq ε] in
private theorem held_update {c : Consumer} {mo : Option (MachineOperation ε)}
    (htaken : s'.taken = Function.update s.taken c mo) :
    s'.ledger.held = Function.update s.ledger.held c (mo.map MachineOperation.call) := by
  funext c'
  simp only [ledger, htaken, Function.update_apply]
  split <;> rfl

omit [DecidableEq ε] in
private theorem ledger_ext {l : Ledger Consumer} (hpassed : l.arrived = s.passed)
    (hexecuted : l.executed = s.executed) (hheld : l.held = s.ledger.held)
    (hqueue : l.waiting = s.queue.map MachineOperation.call) : l = s.ledger := by
  obtain ⟨arrived, executed, held, waiting⟩ := l
  rw [ledger, Ledger.mk.injEq]
  exact ⟨hpassed, hexecuted, hheld, hqueue⟩

omit [DecidableEq ε] in
theorem ledger_initial (noError : ε) : Ledger.initial = (initial noError).ledger :=
  ledger_ext rfl rfl (funext fun c ↦ by cases c <;> rfl) rfl

/-- The ledger after half a round by a thread that then holds what is left of it. -/
private theorem ledger_dequeueStep {c : Consumer} {d : Dequeue ε} (hd : s.taken c = d.mo)
    (hpassed : s'.passed = (s.dequeueStep d).2.passed)
    (hexecuted : s'.executed = (s.dequeueStep d).2.executed)
    (hqueue : s'.queue = (s.dequeueStep d).2.queue)
    (htaken : s'.taken = Function.update s.taken c ((s.dequeueStep d).1.bind Dequeue.mo)) :
    s.ledger.act (s.dequeueAction c d) = some s'.ledger := by
  have hheld := held_update htaken
  rcases dequeueStep_cases (s := s) d with ⟨mo, hmo, hstep⟩ | ⟨hmo, hend, hstep⟩ |
    ⟨mo, queue, hmo, hgo, hcons, hstep⟩
  · obtain ⟨synch, exited, hcall⟩ := callOperation_eq (s := s) mo
    rw [hstep, hcall] at hpassed hexecuted hqueue
    rw [hstep] at hheld
    have hlheld : s.ledger.held c = some mo.call := by
      simp only [ledger, hd, hmo, Option.map_some]
    rw [dequeueAction, hmo, Option.isSome_some, if_pos rfl, Ledger.act, hlheld, Option.map_some]
    refine congrArg some (ledger_ext hpassed.symm hexecuted.symm hheld.symm ?_)
    rw [hqueue]
    rfl
  · rw [hstep] at hpassed hexecuted hqueue hheld
    rw [dequeueAction, hmo, Option.isSome_none, if_neg Bool.false_ne_true, if_pos hend, Ledger.act]
    refine congrArg some (ledger_ext hpassed.symm hexecuted.symm ?_ (by rw [hqueue]; rfl))
    rw [hheld]
    refine (Function.update_eq_self_iff.mpr ?_).symm
    simp only [ledger, hd, hmo, Option.bind_none, Option.map_none]
  · rw [hstep] at hpassed hexecuted hqueue hheld
    have hlheld : s.ledger.held c = none := by simp only [ledger, hd, hmo, Option.map_none]
    have hwaiting : s.ledger.waiting = mo.call :: queue.map MachineOperation.call := by
      simp only [ledger, hcons, List.map_cons]
    rw [dequeueAction, hmo, Option.isSome_none, if_neg Bool.false_ne_true, if_neg hgo, Ledger.act,
      hlheld, hwaiting]
    refine congrArg some (ledger_ext hpassed.symm hexecuted.symm hheld.symm ?_)
    rw [hqueue]

/-- Every step is an action of the ledger. -/
theorem step_ledger (h : s.step noError command = some (r, s')) :
    s.ledger.act (s.action command) = some s'.ledger := by
  rw [step, Option.ite_none_left_eq_some] at h
  obtain ⟨-, h⟩ := h
  cases command with
  | enqueue callback doSync =>
    simp only [proceed, Option.ite_none_left_eq_some, Option.some.injEq, enqueue] at h
    obtain ⟨-, h⟩ := h
    rw [action]
    split at h
    · next hdirect =>
      obtain ⟨-, rfl⟩ := Prod.mk.inj h
      rw [if_pos hdirect]
      rfl
    · next hdirect =>
      obtain ⟨-, rfl⟩ := Prod.mk.inj h
      rw [if_neg hdirect, Ledger.act]
      refine congrArg some (ledger_ext rfl rfl rfl ?_)
      simp only [ledger, List.map_append, List.map_cons, List.map_nil]
  | awake call =>
    simp only [proceed, Option.ite_none_right_eq_some, Option.some.injEq, Prod.mk.injEq] at h
    obtain ⟨-, -, rfl⟩ := h
    rfl
  | registerSink m | unregisterSink m =>
    simp only [proceed, Option.ite_none_left_eq_some] at h
    obtain ⟨-, h⟩ := h
    split at h
    all_goals
      obtain ⟨-, rfl⟩ := Prod.mk.inj (Option.some.inj h)
      rfl
  | activateLowLatencyMode =>
    simp only [proceed, Option.ite_none_left_eq_some, Option.some.injEq, Prod.mk.injEq] at h
    obtain ⟨-, -, rfl⟩ := h
    rfl
  | deactivateLowLatencyMode =>
    simp only [proceed, Option.ite_none_left_eq_some, Option.some.injEq, Prod.mk.injEq] at h
    obtain ⟨hlock, -, rfl⟩ := h
    have hfree := Option.not_isSome_iff_eq_none.mp hlock
    refine congrArg some (ledger_ext rfl rfl (funext fun c ↦ ?_) rfl)
    cases c with
    | audio => rfl
    | deactivating => simp only [ledger, taken, hfree, Option.bind_none, Option.bind_some]
  | deactivateDequeue =>
    simp only [proceed, Option.map_eq_some_iff, Prod.mk.injEq] at h
    obtain ⟨d, hd, -, rfl⟩ := h
    simp only [action, hd]
    refine ledger_dequeueStep (by simp only [taken, hd, Option.bind_some]) rfl rfl rfl
      (funext fun c ↦ ?_)
    cases c with
    | audio => simp [taken, (dequeueStep_threads d).1]
    | deactivating => rfl
  | fillThisSink m =>
    simp only [proceed] at h
    split at h
    · next haudio =>
      split at h
      · obtain ⟨-, rfl⟩ := Prod.mk.inj (Option.some.inj h)
        refine congrArg some (ledger_ext rfl rfl (funext fun c ↦ ?_) rfl)
        cases c with
        | audio => simp only [ledger, taken, haudio]
        | deactivating => rfl
      · obtain ⟨-, rfl⟩ := Prod.mk.inj (Option.some.inj h)
        rfl
    · cases h
  | audioFilled =>
    simp only [proceed] at h
    split at h
    · next haudio =>
      obtain ⟨-, rfl⟩ := Prod.mk.inj (Option.some.inj h)
      refine congrArg some (ledger_ext rfl rfl (funext fun c ↦ ?_) rfl)
      cases c with
      | audio => simp only [ledger, taken, haudio]
      | deactivating => rfl
    · cases h
  | audioDequeue =>
    simp only [proceed] at h
    split at h
    · next d haudio =>
      obtain ⟨-, rfl⟩ := Prod.mk.inj (Option.some.inj h)
      simp only [action, haudio]
      refine ledger_dequeueStep (by simp only [taken, haudio]) rfl rfl rfl
        (funext fun c ↦ ?_)
      cases c with
      | audio =>
        rw [Function.update_self, taken]
        cases (s.dequeueStep d).1 <;> rfl
      | deactivating => simp [taken, (dequeueStep_threads d).2]
    · cases h

/-- The `n`-th operation that is executed is the `n`-th that passed the lock, and when
`deactivate_low_latency_mode` returns all have been executed. -/
def Ordered (noError : ε) (s : Operations ε) (command : OperationCommand ε)
    (r : OperationResult ε) : Prop :=
  ∀ s', s.step noError command = some (r, s') →
    s'.executed = List.range s'.executed.length ∧
      (r = .deactivated → s'.executed.length = s'.passed)

/-- An operation is executed directly only when none is in the queue or in the hands of the audio
thread; of two threads that have taken one, the one with the earlier operation calls first; and
when `deactivate_low_latency_mode` stops taking operations, after fifty at the latest, there are
none left. -/
def MindsOrder (s : Operations ε) (command : OperationCommand ε) (_ : OperationResult ε) : Prop :=
  match command with
  | .enqueue _ _ => s.direct → s.queue = [] ∧ s.taken .audio = none
  | .audioDequeue => ∀ mo mo', s.taken .audio = some mo → s.taken .deactivating = some mo' →
      mo.call < mo'.call
  | .deactivateDequeue =>
    (∀ mo mo', s.taken .deactivating = some mo → s.taken .audio = some mo' →
      mo.call < mo'.call) ∧
    ∀ d, s.deactivating = some d → d.mo = none → d.kount = 0 ∨ s.queue = [] →
      s.queue = [] ∧ s.taken .audio = none
  | _ => True

private theorem ordered_iff (h : s.step noError command = some (r, s')) :
    s.Ordered noError command r ↔
      s'.ledger.InTurn ∧ (r = .deactivated → s'.ledger.executed.length = s'.ledger.arrived) := by
  constructor
  · intro hk
    exact hk s' h
  · intro hk t ht
    obtain ⟨-, rfl⟩ := Prod.mk.inj (Option.some.inj (h.symm.trans ht))
    exact hk

omit [DecidableEq ε] in
private theorem idle_iff (hfree : s.taken .deactivating = none) :
    s.ledger.Idle ↔ s.queue = [] ∧ s.taken .audio = none := by
  simp only [Ledger.Idle, ledger, List.map_eq_nil_iff, Option.map_eq_none_iff]
  refine and_congr_right' ⟨fun h ↦ h .audio, fun h c ↦ ?_⟩
  cases c with
  | audio => exact h
  | deactivating => exact hfree

omit [DecidableEq ε] in
/-- Of two threads that have taken an operation, the one with the earlier operation is next. -/
private theorem next_iff {c c' : Consumer} {mo : MachineOperation ε} (hs : s.ledger.Accounted)
    (hne : c ≠ c') (hmo : s.taken c = some mo) :
    (∀ job, s.ledger.held c = some job → ∀ v j, s.ledger.held v = some j → job ≤ j) ↔
      ∀ mo mo', s.taken c = some mo → s.taken c' = some mo' → mo.call < mo'.call := by
  have hheld (v : Consumer) (mo : MachineOperation ε) (h : s.taken v = some mo) :
      s.ledger.held v = some mo.call := by simp only [ledger, h, Option.map_some]
  constructor
  · intro hleast m m' hm hm'
    have hle := hleast m.call (hheld c m hm) c' m'.call (hheld c' m' hm')
    refine Nat.lt_of_le_of_ne hle fun heq ↦ hne ?_
    exact hs.unique c c' m'.call (heq ▸ hheld c m hm) (hheld c' m' hm')
  · intro hfirst job hjob v j hj
    obtain rfl : mo.call = job := Option.some.inj ((hheld c mo hmo).symm.trans hjob)
    by_cases hv : v = c
    · rw [hv, hjob] at hj
      exact Nat.le_of_eq (Option.some.inj hj)
    · have hv' : v = c' := by
        cases v <;> cases c <;> cases c' <;> first | rfl | exact absurd rfl hv | exact absurd rfl hne
      obtain ⟨mo', hmo', rfl⟩ := Option.map_eq_some_iff.mp hj
      exact Nat.le_of_lt (hfirst mo mo' hmo (hv' ▸ hmo'))

private theorem accounted_step_enqueue {callback : Completion ε} {doSync : Bool}
    (hs : s.ledger.Accounted) (h : s.step noError (.enqueue callback doSync) = some (r, s')) :
    (s.MindsOrder (.enqueue callback doSync) r ↔ s.Ordered noError (.enqueue callback doSync) r) ∧
      (s.MindsOrder (.enqueue callback doSync) r → s'.ledger.Accounted) := by
  have hact := step_ledger h
  rw [ordered_iff h]
  rw [step, Option.ite_none_left_eq_some] at h
  simp only [proceed, Option.ite_none_left_eq_some, Option.some.injEq] at h
  obtain ⟨-, hlock, h⟩ := h
  have hfree : s.taken .deactivating = none := by
    simp only [taken, Option.not_isSome_iff_eq_none.mp hlock, Option.bind_none]
  have hr : r ≠ .deactivated := by
    rw [enqueue] at h
    split at h
    · obtain ⟨rfl, -⟩ := Prod.mk.inj h
      nofun
    · obtain ⟨rfl, -⟩ := Prod.mk.inj h
      split <;> nofun
  rw [action] at hact
  by_cases hdirect : s.direct
  · rw [if_pos hdirect] at hact
    obtain ⟨hturn, hacc⟩ := hs.bypass hact
    rw [idle_iff hfree] at hturn hacc
    simp only [MindsOrder, hdirect, true_imp_iff]
    exact ⟨⟨fun hm ↦ ⟨hturn.mpr hm, fun he ↦ absurd he hr⟩, fun ho ↦ hturn.mp ho.1⟩, hacc⟩
  · rw [if_neg hdirect] at hact
    have hacc := hs.submit hact
    simp only [MindsOrder, hdirect, false_imp_iff, true_iff]
    exact ⟨⟨hacc.inTurn, fun he ↦ absurd he hr⟩, fun _ ↦ hacc⟩

omit [DecidableEq ε] in
/-- Half a round keeps the order exactly if the thread does not call an operation before the other
thread has called an earlier one. -/
private theorem accounted_dequeueStep {c c' : Consumer} {d : Dequeue ε} (hs : s.ledger.Accounted)
    (hne : c ≠ c') (hd : s.taken c = d.mo)
    (hact : s.ledger.act (s.dequeueAction c d) = some s'.ledger) :
    (s'.ledger.InTurn ↔
      ∀ mo mo', s.taken c = some mo → s.taken c' = some mo' → mo.call < mo'.call) ∧
      (s'.ledger.InTurn → s'.ledger.Accounted) := by
  rw [dequeueAction] at hact
  cases hmo : d.mo with
  | some mo =>
    rw [hmo, Option.isSome_some, if_pos rfl] at hact
    obtain ⟨hturn, hacc⟩ := hs.run hact
    exact ⟨hturn.trans (next_iff hs hne (hd.trans hmo)), hacc⟩
  | none =>
    rw [hmo, Option.isSome_none, if_neg nofun] at hact
    have hnone (mo : MachineOperation ε) : s.taken c ≠ some mo := by
      rw [hd, hmo]
      nofun
    have hacc : s'.ledger.Accounted := by
      split at hact
      · rw [← Option.some.inj hact]
        exact hs
      · exact hs.take hact
    exact ⟨iff_of_true hacc.inTurn fun mo _ h ↦ absurd h (hnone mo), fun _ ↦ hacc⟩

private theorem accounted_step_audio (hs : s.ledger.Accounted)
    (h : s.step noError .audioDequeue = some (r, s')) :
    (s.MindsOrder .audioDequeue r ↔ s.Ordered noError .audioDequeue r) ∧
      (s.MindsOrder .audioDequeue r → s'.ledger.Accounted) := by
  have hact := step_ledger h
  rw [ordered_iff h]
  rw [step, Option.ite_none_left_eq_some] at h
  obtain ⟨-, h⟩ := h
  simp only [proceed] at h
  split at h
  · next d haudio =>
    obtain ⟨rfl, -⟩ := Prod.mk.inj (Option.some.inj h)
    simp only [action, haudio] at hact
    obtain ⟨hturn, hacc⟩ := accounted_dequeueStep hs
      (show Consumer.audio ≠ .deactivating by decide) (by simp only [taken, haudio]) hact
    refine ⟨⟨fun hm ↦ ⟨hturn.mpr hm, nofun⟩, fun ho ↦ hturn.mp ho.1⟩, fun hm ↦ ?_⟩
    exact hacc (hturn.mpr hm)
  · cases h

private theorem accounted_step_deactivating (hs : s.ledger.Accounted)
    (h : s.step noError .deactivateDequeue = some (r, s')) :
    (s.MindsOrder .deactivateDequeue r ↔ s.Ordered noError .deactivateDequeue r) ∧
      (s.MindsOrder .deactivateDequeue r → s'.ledger.Accounted) := by
  have hact := step_ledger h
  rw [ordered_iff h]
  rw [step, Option.ite_none_left_eq_some] at h
  simp only [proceed, Option.map_eq_some_iff, Prod.mk.injEq] at h
  obtain ⟨-, d, hd, hr, -⟩ := h
  simp only [action, hd] at hact
  have htaken : s.taken .deactivating = d.mo := by simp only [taken, hd, Option.bind_some]
  obtain ⟨hturn, hacc⟩ := accounted_dequeueStep hs
    (show Consumer.deactivating ≠ .audio by decide) htaken hact
  -- The loop ends exactly when nothing is in hand and nothing more is to be taken.
  have hend : r = .deactivated ↔ d.mo = none ∧ (d.kount = 0 ∨ s.queue = []) := by
    rw [← hr]
    rcases dequeueStep_cases (s := s) d with ⟨mo, hmo, hstep⟩ | ⟨hmo, hover, hstep⟩ |
      ⟨mo, queue, hmo, hgo, -, hstep⟩
    · simp [hstep, hmo]
    · simp [hstep, hmo, hover]
    · simp only [hstep, hmo, hgo, Option.isSome_some, if_true, and_false, iff_false]
      nofun
  have hall (hmo : d.mo = none) (hover : d.kount = 0 ∨ s.queue = []) :
      s'.ledger.executed.length = s'.ledger.arrived ↔ s.queue = [] ∧ s.taken .audio = none := by
    rw [dequeueAction, hmo, Option.isSome_none, if_neg nofun, if_pos hover] at hact
    rw [← Option.some.inj hact, hs.length_eq_iff, idle_iff (htaken.trans hmo)]
  refine ⟨⟨fun hm ↦ ⟨hturn.mpr hm.1, fun hret ↦ ?_⟩, fun ho ↦ ⟨hturn.mp ho.1, ?_⟩⟩, fun hm ↦ ?_⟩
  · obtain ⟨hmo, hover⟩ := hend.mp hret
    exact (hall hmo hover).mpr (hm.2 d hd hmo hover)
  · intro d' hd' hmo hover
    obtain rfl := Option.some.inj (hd.symm.trans hd')
    exact (hall hmo hover).mp (ho.2 (hend.mpr ⟨hmo, hover⟩))
  · exact hacc (hturn.mpr hm.1)

/-- Only one step is the end of `deactivate_low_latency_mode`. -/
private theorem eq_deactivateDequeue (h : s.step noError command = some (.deactivated, s')) :
    command = .deactivateDequeue := by
  rw [step, Option.ite_none_left_eq_some] at h
  obtain ⟨-, h⟩ := h
  cases command with
  | deactivateDequeue => rfl
  | enqueue callback doSync =>
    simp only [proceed, enqueue, Option.ite_none_left_eq_some, Option.some.injEq] at h
    obtain ⟨-, h⟩ := h
    split at h
    · cases (Prod.mk.inj h).1
    · split at h <;> cases (Prod.mk.inj h).1
  | awake call =>
    simp only [proceed, Option.ite_none_right_eq_some] at h
    cases (Prod.mk.inj (Option.some.inj h.2)).1
  | registerSink m | unregisterSink m =>
    simp only [proceed, Option.ite_none_left_eq_some] at h
    obtain ⟨-, h⟩ := h
    split at h <;> cases (Prod.mk.inj (Option.some.inj h)).1
  | activateLowLatencyMode | deactivateLowLatencyMode =>
    simp only [proceed, Option.ite_none_left_eq_some] at h
    cases (Prod.mk.inj (Option.some.inj h.2)).1
  | fillThisSink m =>
    simp only [proceed] at h
    split at h
    · split at h <;> cases (Prod.mk.inj (Option.some.inj h)).1
    · cases h
  | audioFilled | audioDequeue =>
    simp only [proceed] at h
    split at h
    · cases (Prod.mk.inj (Option.some.inj h)).1
    · cases h

/-- A step keeps the order exactly if it minds it. -/
theorem accounted_step (hs : s.ledger.Accounted) (h : s.step noError command = some (r, s')) :
    (s.MindsOrder command r ↔ s.Ordered noError command r) ∧
      (s.MindsOrder command r → s'.ledger.Accounted) := by
  have hrest (haction : s.action command = .rest) (hc : command ≠ .deactivateDequeue) :
      s.Ordered noError command r ∧ s'.ledger.Accounted := by
    have hact := step_ledger h
    rw [haction] at hact
    rw [ordered_iff h, ← Option.some.inj hact]
    exact ⟨⟨hs.inTurn, fun he ↦ absurd (eq_deactivateDequeue (he ▸ h)) hc⟩, hs⟩
  cases command with
  | enqueue callback doSync => exact accounted_step_enqueue hs h
  | audioDequeue => exact accounted_step_audio hs h
  | deactivateDequeue => exact accounted_step_deactivating hs h
  | _ =>
    obtain ⟨hordered, hacc⟩ := hrest rfl nofun
    exact ⟨iff_of_true trivial hordered, fun _ ↦ hacc⟩

/-- From the start of the program on, operations are executed once and in the order in which they
passed the lock, and none is left behind by `deactivate_low_latency_mode`, exactly in the runs
that mind the order. -/
theorem operations_ordered_iff (noError : ε) (commands : List (OperationCommand ε))
    (s : Operations ε) :
    (Run (step noError) MindsOrder (initial noError) commands s ↔
      Run (step noError) (Ordered noError) (initial noError) commands s) ∧
    (Run (step noError) MindsOrder (initial noError) commands s →
      s.executed.Pairwise (· < ·) ∧ ∀ i ∈ s.executed, i < s.passed) := by
  have hinitial : (initial noError).ledger.Accounted :=
    ledger_initial noError ▸ Ledger.accounted_initial
  constructor
  · refine Run.iff_of_invariant (fun s ↦ s.ledger.Accounted) ?_ ?_ hinitial
    · intro s command r s' hs h
      exact (accounted_step hs h).1
    · intro s command r s' hs hm h
      exact (accounted_step hs h).2 hm
  · intro hrun
    have hacc : s.ledger.Accounted := by
      refine hrun.invariant (fun s ↦ s.ledger.Accounted) ?_ hinitial
      intro s command r s' hs hm h
      exact (accounted_step hs h).2 hm
    have hexecuted : s.executed = List.range s.executed.length := hacc.inTurn
    have hbehind : s.executed.length + (s.ledger.waiting).length ≤ s.passed := hacc.behind
    rw [hexecuted]
    refine ⟨List.pairwise_lt_range, fun i hi ↦ ?_⟩
    rw [List.mem_range] at hi
    omega

/-- A sink in low latency mode, 51 operations in the queue that nobody waits for, and then the
mode is switched off. -/
def switchedOff : List (OperationCommand Bool) :=
  [.registerSink 1, .activateLowLatencyMode] ++ List.replicate 51 (.enqueue .returned false) ++
    [.deactivateLowLatencyMode] ++ List.replicate 100 .deactivateDequeue

/-- When the switch returns, the last of the 51 operations is still in the queue; the next one is
executed before it. -/
theorem operation_overtaken :
    (¬ ∀ (commands : List (OperationCommand Bool)) (s s' : Operations Bool),
      Run (step false) (fun _ _ _ ↦ True) (initial false) commands s →
      s.step false .deactivateDequeue = some (.deactivated, s') →
      s'.executed.length = s'.passed) ∧
    ¬ ∀ (commands : List (OperationCommand Bool)) (s : Operations Bool),
      Run (step false) (fun _ _ _ ↦ True) (initial false) commands s →
      s.executed.Pairwise (· < ·) := by
  constructor
  · intro hclaim
    have hleft : (runAll (step false) (fun _ _ _ ↦ true) (initial false) switchedOff).any
        (fun s ↦ (s.step false .deactivateDequeue).any fun (r, s') ↦
          r = .deactivated ∧ s'.executed.length = 50 ∧ s'.passed = 51) = true := by
      decide +kernel
    obtain ⟨s, hs, hstep⟩ := (Option.any_eq_true _ _).mp hleft
    obtain ⟨⟨r, s'⟩, hs', hr⟩ := (Option.any_eq_true _ _).mp hstep
    obtain ⟨rfl, hexecuted, hpassed⟩ := of_decide_eq_true hr
    have hrun := (Run.of_runAll hs).mono (o := fun _ _ _ ↦ True) fun _ _ _ _ ↦ trivial
    have heq := hclaim switchedOff s s' hrun hs'
    omega
  · intro hclaim
    have hlater : (runAll (step false) (fun _ _ _ ↦ true) (initial false)
        (switchedOff ++ [.deactivateDequeue, .enqueue .returned false, .activateLowLatencyMode,
          .fillThisSink 1, .audioFilled, .audioDequeue, .audioDequeue])).any
        (fun s ↦ s.executed = List.range 50 ++ [51, 50]) = true := by
      decide +kernel
    obtain ⟨s, hs, hexecuted⟩ := (Option.any_eq_true _ _).mp hlater
    have hrun := (Run.of_runAll hs).mono (o := fun _ _ _ ↦ True) fun _ _ _ _ ↦ trivial
    have hsorted := hclaim _ s hrun
    rw [of_decide_eq_true hexecuted, List.pairwise_append] at hsorted
    exact absurd hsorted.2.1 (by decide)

end Operations

end Vuknob
