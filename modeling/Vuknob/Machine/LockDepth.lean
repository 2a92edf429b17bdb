import Mathlib.Algebra.Order.Ring.Int
import Vuknob.Library.Monitor
import Vuknob.Machine.Operations

/-!
# The depth of the machine space lock

`lock_machine_space` and `unlock_machine_space`, `src_jni/machine.cc:2270–2289`, count in `tupla_p`
how often the lock is held. The functions that call them, `src_jni/machine.cc:948–1066,1110–1146,
1695–1722`, call callbacks that may call any of them again. A thread is a stack of such calls, and
one step of it goes from one call, callback or wait to the next.
-/

namespace Vuknob

open Library

/-- What a callback does: the calls it makes, each with what it does behind it for every way the
call can end. `fillThisSink` has what `internal_fill_sink` does. -/
inductive Code (ε : Type)
  | ends (completion : Completion ε)
  | enqueue (callback : Code ε) (doSync : Bool) (next : Completion ε → Code ε)
  | fillThisSink (m : MachineId) (fill : Code ε) (next : Completion ε → Code ε)
  | registerSink (m : MachineId) (next : Completion ε → Code ε)
  | unregisterSink (m : MachineId) (next : Completion ε → Code ε)
  | activateLowLatencyMode (next : Completion ε → Code ε)
  | deactivateLowLatencyMode (next : Completion ε → Code ε)

/-- An operation in the queue; the synch object is that of the call. -/
structure CodeOperation (ε : Type) where
  call : Nat
  callback : Code ε
  doSync : Bool

/-- A function that waits for another one to end. -/
inductive Frame (ε : Type)
  | calling (next : Completion ε → Code ε)
  | executing
  | filling
  | fillingLocked
  | dequeuingFilled
  | dequeuingDeactivated
  | operation (kount : Nat) (mo : CodeOperation ε)

/-- Where a thread is in the function on top of its stack: `unlock_machine_space` does not return
when the lock has been given back too often. -/
inductive Control (ε : Type)
  | running (code : Code ε)
  | ended (completion : Completion ε)
  | dequeuing (kount : Nat)
  | waiting (call : Nat)
  | failing

/-- A thread with its stack. -/
structure CodeThread (ε : Type) where
  control : Control ε
  stack : List (Frame ε)

/-- The lock with its counter, what the functions above share, and the threads. -/
structure LockedSpace (τ ε : Type) where
  machineSpaceLock : Monitor τ
  tuplaP : Int
  sink : Option MachineId
  lowLatencyMode : Bool
  queue : List (CodeOperation ε)
  synch : Nat → SynchObject ε
  passed : Nat
  threads : τ → CodeThread ε
  exited : Bool

/-- A thread starts to execute something, or goes on. -/
inductive ThreadAction (τ ε : Type)
  | start (t : τ) (code : Code ε)
  | go (t : τ)

namespace LockedSpace

variable {τ ε : Type} [DecidableEq τ] [DecidableEq ε] (noError sanityError : ε) (s : LockedSpace τ ε)

/-- The thread goes on elsewhere. -/
def setThread (t : τ) (control : Control ε) (stack : List (Frame ε)) : LockedSpace τ ε :=
  { s with threads := Function.update s.threads t ⟨control, stack⟩ }

/-- `lock_machine_space`, `src_jni/machine.cc:2272–2276`; `none` where the thread has to wait. -/
def lockMachineSpace (t : τ) : Option (LockedSpace τ ε) :=
  (s.machineSpaceLock.enter t).map fun lock ↦
    { s with machineSpaceLock := lock, tuplaP := s.tuplaP + 1 }

/-- `unlock_machine_space`, `src_jni/machine.cc:2278–2289`, and what the thread does behind it. -/
def unlockMachineSpace (t : τ) (control : Control ε) (stack : List (Frame ε)) :
    Option (LockedSpace τ ε) :=
  if s.tuplaP - 1 < 0 then
    some ({ s with tuplaP := s.tuplaP - 1 }.setThread t .failing stack)
  else
    (s.machineSpaceLock.leave t).map fun lock ↦
      { s with machineSpaceLock := lock, tuplaP := s.tuplaP - 1 }.setThread t control stack

/-- `machine_operation_enqueue` up to its callback or its wait, `src_jni/machine.cc:948–978`. -/
def enqueue (t : τ) (callback : Code ε) (doSync : Bool) (stack : List (Frame ε)) :
    Option (LockedSpace τ ε) :=
  (s.lockMachineSpace t).bind fun s ↦
    if s.sink = none ∨ s.lowLatencyMode = false then
      some (s.setThread t (.running callback) (.executing :: stack))
    else
      let mo : CodeOperation ε := ⟨s.passed, callback, doSync⟩
      { s with
        passed := s.passed + 1
        queue := s.queue ++ [mo]
        synch := Function.update s.synch s.passed ⟨false, [], noError⟩ }.unlockMachineSpace t
          (if doSync then .waiting s.passed else .ended .returned) stack

/-- `fill_this_sink` up to `internal_fill_sink`, `src_jni/machine.cc:1110–1137`. -/
def fillThisSink (t : τ) (m : MachineId) (fill : Code ε) (stack : List (Frame ε)) :
    Option (LockedSpace τ ε) :=
  if s.sink ≠ some m then some (s.setThread t (.ended .returned) stack)
  else if s.lowLatencyMode then some (s.setThread t (.running fill) (.filling :: stack))
  else (s.lockMachineSpace t).map fun s ↦ s.setThread t (.running fill) (.fillingLocked :: stack)

/-- `internal_register_sink`, `src_jni/machine.cc:1695–1708`. -/
def internalRegisterSink (t : τ) (m : MachineId) (stack : List (Frame ε)) :
    Option (LockedSpace τ ε) :=
  (s.lockMachineSpace t).bind fun s ↦
    if s.sink.isSome then
      s.unlockMachineSpace t
        (.ended (.jException (str "Multiple sinks not allowed.") sanityError)) stack
    else { s with sink := some m }.unlockMachineSpace t (.ended .returned) stack

/-- `internal_unregister_sink`, `src_jni/machine.cc:1710–1722`. -/
def internalUnregisterSink (t : τ) (m : MachineId) (stack : List (Frame ε)) :
    Option (LockedSpace τ ε) :=
  (s.lockMachineSpace t).bind fun s ↦
    if s.sink ≠ some m then
      s.unlockMachineSpace t (.ended (.jException (str "Sink not registered.") sanityError)) stack
    else { s with sink := none }.unlockMachineSpace t (.ended .returned) stack

/-- `activate_low_latency_mode`, `src_jni/machine.cc:1049–1056`. -/
def activateLowLatencyMode (t : τ) (stack : List (Frame ε)) : Option (LockedSpace τ ε) :=
  (s.lockMachineSpace t).bind fun s ↦
    { s with lowLatencyMode := true }.unlockMachineSpace t (.ended .returned) stack

/-- `deactivate_low_latency_mode` up to its loop, `src_jni/machine.cc:1058–1062`. -/
def deactivateLowLatencyMode (t : τ) (stack : List (Frame ε)) : Option (LockedSpace τ ε) :=
  (s.lockMachineSpace t).map fun s ↦
    { s with lowLatencyMode := false }.setThread t (.dequeuing Operations.dequeueLimit)
      (.dequeuingDeactivated :: stack)

/-- The thread executes code. -/
def execute (t : τ) (stack : List (Frame ε)) : Code ε → Option (LockedSpace τ ε)
  | .ends completion => some (s.setThread t (.ended completion) stack)
  | .enqueue callback doSync next => s.enqueue noError t callback doSync (.calling next :: stack)
  | .fillThisSink m fill next => s.fillThisSink t m fill (.calling next :: stack)
  | .registerSink m next => s.internalRegisterSink sanityError t m (.calling next :: stack)
  | .unregisterSink m next => s.internalUnregisterSink sanityError t m (.calling next :: stack)
  | .activateLowLatencyMode next => s.activateLowLatencyMode t (.calling next :: stack)
  | .deactivateLowLatencyMode next => s.deactivateLowLatencyMode t (.calling next :: stack)

/-- The loop of `machine_operation_dequeue`, `src_jni/machine.cc:1007–1018`. -/
def dequeue (t : τ) (stack : List (Frame ε)) (kount : Nat) : LockedSpace τ ε :=
  if kount = 0 then s.setThread t (.ended .returned) stack
  else
    match s.queue with
    | [] => s.setThread t (.ended .returned) stack
    | mo :: queue =>
      { s with queue := queue }.setThread t (.running mo.callback)
        (.operation (kount - 1) mo :: stack)

/-- The callback of an operation has ended, `src_jni/machine.cc:1018–1042`. -/
def operationEnded (t : τ) (stack : List (Frame ε)) (kount : Nat) (mo : CodeOperation ε)
    (completion : Completion ε) : LockedSpace τ ε :=
  if mo.doSync then
    match Operations.report (s.synch mo.call) completion with
    | some o =>
      { s with synch := Function.update s.synch mo.call o }.setThread t (.dequeuing kount) stack
    | none => { s with exited := true }
  else if completion = .returned then s.setThread t (.dequeuing kount) stack
  else { s with exited := true }

/-- A function has ended and the one it was called by goes on. The handler of `fill_this_sink`,
`src_jni/machine.cc:1138–1140`, unlocks and does not throw again. -/
def resume (t : τ) (completion : Completion ε) (stack : List (Frame ε)) :
    Frame ε → Option (LockedSpace τ ε)
  | .calling next => some (s.setThread t (.running (next completion)) stack)
  | .executing => s.unlockMachineSpace t (.ended completion) stack
  | .filling =>
    if completion = .returned then
      some (s.setThread t (.dequeuing Operations.dequeueLimit) (.dequeuingFilled :: stack))
    else some (s.setThread t (.ended completion) stack)
  | .fillingLocked =>
    if completion = .returned then s.unlockMachineSpace t (.ended .returned) stack
    else s.unlockMachineSpace t (.ended .returned) (.fillingLocked :: stack)
  | .dequeuingFilled => some (s.setThread t (.ended .returned) stack)
  | .dequeuingDeactivated => s.unlockMachineSpace t (.ended .returned) stack
  | .operation kount mo => some (s.operationEnded t stack kount mo completion)

/-- A thread goes on; `none` where it has to wait, or has ended. -/
def proceed (t : τ) : Option (LockedSpace τ ε) :=
  match s.threads t with
  | ⟨.running code, stack⟩ => s.execute noError sanityError t stack code
  | ⟨.ended _, []⟩ => none
  | ⟨.ended completion, frame :: stack⟩ => s.resume t completion stack frame
  | ⟨.dequeuing kount, stack⟩ => some (s.dequeue t stack kount)
  | ⟨.waiting call, stack⟩ =>
    if (s.synch call).triggered then
      some (s.setThread t (.ended (Operations.afterWait noError (s.synch call))) stack)
    else none
  | ⟨.failing, _⟩ => none

/-- One step, unless the program has ended. -/
def step (action : ThreadAction τ ε) : Option (Unit × LockedSpace τ ε) :=
  if s.exited then none
  else
    match action with
    | .start t code =>
      match s.threads t with
      | ⟨.ended _, []⟩ => some ((), s.setThread t (.running code) [])
      | _ => none
    | .go t => (s.proceed noError sanityError t).map ((), ·)

/-- The start of the program. -/
def initial : LockedSpace τ ε where
  machineSpaceLock := .free
  tuplaP := 0
  sink := none
  lowLatencyMode := false
  queue := []
  synch _ := ⟨false, [], noError⟩
  passed := 0
  threads _ := ⟨.ended .returned, []⟩
  exited := false

/-! ### Balance -/

end LockedSpace

/-- How often a function holds the lock. -/
def Frame.locks {ε : Type} : Frame ε → Nat
  | .executing | .fillingLocked | .dequeuingDeactivated => 1
  | .calling _ | .filling | .dequeuingFilled | .operation _ _ => 0

/-- How often the functions on a stack hold the lock. -/
def Frame.depth {ε : Type} (stack : List (Frame ε)) : Nat := (stack.map Frame.locks).sum

theorem Frame.depth_cons {ε : Type} (frame : Frame ε) (stack : List (Frame ε)) :
    Frame.depth (frame :: stack) = Frame.depth stack + frame.locks := by
  rw [Frame.depth, List.map_cons, List.sum_cons, Nat.add_comm]
  rfl

namespace LockedSpace

variable {τ ε : Type} [DecidableEq τ]

/-- Every thread other than `t` is inside as often as its functions hold the lock, and `t` is
inside `n` times. -/
structure Balance (lock : Monitor τ) (tuplaP : Int) (threads : τ → CodeThread ε) (t : τ) (n : Nat) :
    Prop where
  count : tuplaP = lock.count
  this : lock.depth t = n
  others : ∀ u, u ≠ t → lock.depth u = Frame.depth (threads u).stack ∧ (threads u).control ≠ .failing

/-- The thread has `n` locks in hand. -/
abbrev Has (s : LockedSpace τ ε) (t : τ) (n : Nat) : Prop :=
  Balance s.machineSpaceLock s.tuplaP s.threads t n

/-- Every thread is inside as often as its functions hold the lock. -/
structure Balanced (s : LockedSpace τ ε) : Prop where
  count : s.tuplaP = s.machineSpaceLock.count
  depth : ∀ t, s.machineSpaceLock.depth t = Frame.depth (s.threads t).stack
  control : ∀ t, (s.threads t).control ≠ .failing

variable {s s' : LockedSpace τ ε} {t : τ} {n : Nat} {control : Control ε} {stack : List (Frame ε)}

theorem Balanced.has (h : s.Balanced) (t : τ) : s.Has t (Frame.depth (s.threads t).stack) :=
  ⟨h.count, h.depth t, fun u _ ↦ ⟨h.depth u, h.control u⟩⟩

private theorem Balance.setThread (h : s.Has t n) (hcontrol : control ≠ .failing)
    (hstack : Frame.depth stack = n) : (s.setThread t control stack).Balanced := by
  refine ⟨h.count, fun u ↦ ?_, fun u ↦ ?_⟩
  · by_cases hu : u = t
    · subst hu
      simpa [LockedSpace.setThread, hstack] using h.this
    · simpa [LockedSpace.setThread, hu] using (h.others u hu).1
  · by_cases hu : u = t
    · subst hu
      simpa [LockedSpace.setThread] using hcontrol
    · simpa [LockedSpace.setThread, hu] using (h.others u hu).2

private theorem Balance.lock (h : s.Has t n) (hlock : s.lockMachineSpace t = some s') :
    s'.Has t (n + 1) := by
  obtain ⟨lock, henter, rfl⟩ := Option.map_eq_some_iff.mp hlock
  obtain ⟨hcount, hdepth⟩ := Monitor.enter_spec henter
  refine ⟨?_, ?_, fun u hu ↦ ?_⟩
  · simp only [hcount, h.count]
    omega
  · simp only [hdepth, Function.update_self, h.this]
  · simp only [hdepth, Function.update_of_ne hu]
    exact h.others u hu

private theorem balanced_unlock (hunlock : s.unlockMachineSpace t control stack = some s')
    (h : s.Has t (n + 1)) (hstack : Frame.depth stack = n) (hcontrol : control ≠ .failing) :
    s'.Balanced := by
  have hin : 0 < s.machineSpaceLock.depth t := by
    rw [h.this]
    omega
  obtain ⟨lock, hleave, hcount, hdepth⟩ := Monitor.leave_spec hin
  have hpos : ¬ s.tuplaP - 1 < 0 := by
    have := h.count
    omega
  rw [unlockMachineSpace, if_neg hpos, hleave, Option.map_some, Option.some.injEq] at hunlock
  subst hunlock
  have hleft : Balance lock (s.tuplaP - 1) s.threads t n := by
    refine ⟨?_, ?_, fun u hu ↦ ?_⟩
    · have := h.count
      omega
    · rw [hdepth, Function.update_self, h.this]
      rfl
    · rw [hdepth, Function.update_of_ne hu]
      exact h.others u hu
  exact Balance.setThread (s := { s with machineSpaceLock := lock, tuplaP := s.tuplaP - 1 }) hleft
    hcontrol hstack

/-! ### Steps -/

variable [DecidableEq ε] {noError sanityError : ε} {action : ThreadAction τ ε}

section Functions

variable (h : s.Has t (Frame.depth stack))

include h

omit [DecidableEq ε] in
private theorem balanced_enqueue {callback : Code ε} {doSync : Bool}
    (hstep : s.enqueue noError t callback doSync stack = some s') : s'.Balanced := by
  obtain ⟨s₁, hlock, hstep⟩ := Option.bind_eq_some_iff.mp hstep
  have h₁ := Balance.lock h hlock
  split at hstep
  · obtain rfl := Option.some.inj hstep
    exact Balance.setThread h₁ nofun (Frame.depth_cons _ _)
  · refine balanced_unlock hstep h₁ rfl ?_
    split <;> nofun

omit [DecidableEq ε] in
private theorem balanced_fillThisSink {m : MachineId} {fill : Code ε}
    (hstep : s.fillThisSink t m fill stack = some s') : s'.Balanced := by
  rw [fillThisSink] at hstep
  split at hstep
  · obtain rfl := Option.some.inj hstep
    exact Balance.setThread h nofun rfl
  · split at hstep
    · obtain rfl := Option.some.inj hstep
      exact Balance.setThread h nofun (Frame.depth_cons _ _)
    · obtain ⟨s₁, hlock, rfl⟩ := Option.map_eq_some_iff.mp hstep
      exact Balance.setThread (Balance.lock h hlock) nofun (Frame.depth_cons _ _)

omit [DecidableEq ε] in
private theorem balanced_internalRegisterSink {m : MachineId}
    (hstep : s.internalRegisterSink sanityError t m stack = some s') : s'.Balanced := by
  obtain ⟨s₁, hlock, hstep⟩ := Option.bind_eq_some_iff.mp hstep
  have h₁ := Balance.lock h hlock
  split at hstep
  · exact balanced_unlock hstep h₁ rfl nofun
  · exact balanced_unlock hstep h₁ rfl nofun

omit [DecidableEq ε] in
private theorem balanced_internalUnregisterSink {m : MachineId}
    (hstep : s.internalUnregisterSink sanityError t m stack = some s') : s'.Balanced := by
  obtain ⟨s₁, hlock, hstep⟩ := Option.bind_eq_some_iff.mp hstep
  have h₁ := Balance.lock h hlock
  split at hstep
  · exact balanced_unlock hstep h₁ rfl nofun
  · exact balanced_unlock hstep h₁ rfl nofun

omit [DecidableEq ε] in
private theorem balanced_activateLowLatencyMode
    (hstep : s.activateLowLatencyMode t stack = some s') : s'.Balanced := by
  obtain ⟨s₁, hlock, hstep⟩ := Option.bind_eq_some_iff.mp hstep
  have h₁ := Balance.lock h hlock
  exact balanced_unlock hstep h₁ rfl nofun

omit [DecidableEq ε] in
private theorem balanced_deactivateLowLatencyMode
    (hstep : s.deactivateLowLatencyMode t stack = some s') : s'.Balanced := by
  obtain ⟨s₁, hlock, rfl⟩ := Option.map_eq_some_iff.mp hstep
  have h₁ := Balance.lock h hlock
  exact Balance.setThread h₁ nofun (Frame.depth_cons _ _)

omit [DecidableEq ε] in
private theorem balanced_execute {code : Code ε}
    (hstep : s.execute noError sanityError t stack code = some s') : s'.Balanced := by
  have hcalling (next : Completion ε → Code ε) :
      s.Has t (Frame.depth (.calling next :: stack)) := by
    rwa [Frame.depth_cons]
  cases code with
  | ends completion =>
    obtain rfl := Option.some.inj hstep
    exact Balance.setThread h nofun rfl
  | enqueue callback doSync next => exact balanced_enqueue (hcalling next) hstep
  | fillThisSink m fill next => exact balanced_fillThisSink (hcalling next) hstep
  | registerSink m next => exact balanced_internalRegisterSink (hcalling next) hstep
  | unregisterSink m next => exact balanced_internalUnregisterSink (hcalling next) hstep
  | activateLowLatencyMode next => exact balanced_activateLowLatencyMode (hcalling next) hstep
  | deactivateLowLatencyMode next => exact balanced_deactivateLowLatencyMode (hcalling next) hstep

omit [DecidableEq ε] in
private theorem balanced_dequeue (kount : Nat) : (s.dequeue t stack kount).Balanced := by
  rw [dequeue]
  split
  · exact Balance.setThread h nofun rfl
  · split
    · exact Balance.setThread h nofun rfl
    · exact Balance.setThread h nofun (Frame.depth_cons _ _)

end Functions

/-- The end of the program leaves the threads where they are. -/
private theorem balanced_operationEnded {kount : Nat} {mo : CodeOperation ε}
    {completion : Completion ε} (hs : s.Balanced)
    (hstack : Frame.depth (s.threads t).stack = Frame.depth stack) :
    (s.operationEnded t stack kount mo completion).Balanced := by
  have h : s.Has t (Frame.depth stack) := hstack ▸ hs.has t
  rw [operationEnded]
  split
  · split
    · exact Balance.setThread h nofun rfl
    · exact ⟨hs.count, hs.depth, hs.control⟩
  · split
    · exact Balance.setThread h nofun rfl
    · exact ⟨hs.count, hs.depth, hs.control⟩

/-- `fill_this_sink` does not catch an exception of `internal_fill_sink` with the lock in hand. -/
def fillReturns (s : LockedSpace τ ε) : ThreadAction τ ε → Bool
  | .start _ _ => true
  | .go t =>
    match s.threads t with
    | ⟨.ended completion, .fillingLocked :: _⟩ => completion = .returned
    | _ => true

private theorem balanced_resume {completion : Completion ε} {frame : Frame ε} (hs : s.Balanced)
    (hthread : s.threads t = ⟨.ended completion, frame :: stack⟩)
    (hfill : s.fillReturns (.go t) = true) (hstep : s.resume t completion stack frame = some s') :
    s'.Balanced := by
  have h : s.Has t (Frame.depth stack + frame.locks) := by
    have := hs.has t
    rwa [hthread, Frame.depth_cons] at this
  cases frame with
  | calling next | dequeuingFilled =>
    obtain rfl := Option.some.inj hstep
    exact Balance.setThread h nofun rfl
  | executing | dequeuingDeactivated =>
    exact balanced_unlock hstep h rfl nofun
  | filling =>
    simp only [resume] at hstep
    split at hstep
    · obtain rfl := Option.some.inj hstep
      exact Balance.setThread h nofun (Frame.depth_cons _ _)
    · obtain rfl := Option.some.inj hstep
      exact Balance.setThread h nofun rfl
  | fillingLocked =>
    have hreturned : completion = .returned := by simpa [fillReturns, hthread] using hfill
    rw [resume, if_pos hreturned] at hstep
    exact balanced_unlock hstep h rfl nofun
  | operation kount mo =>
    obtain rfl := Option.some.inj hstep
    exact balanced_operationEnded hs (hthread ▸ Frame.depth_cons _ _)

private theorem balanced_proceed (hs : s.Balanced) (hfill : s.fillReturns (.go t) = true)
    (hstep : s.proceed noError sanityError t = some s') : s'.Balanced := by
  have h := hs.has t
  rw [proceed] at hstep
  split at hstep
  · next code stack hthread =>
    rw [hthread] at h
    exact balanced_execute h hstep
  · cases hstep
  · next completion frame stack hthread => exact balanced_resume hs hthread hfill hstep
  · next kount stack hthread =>
    rw [hthread] at h
    obtain rfl := Option.some.inj hstep
    exact balanced_dequeue h kount
  · next call stack hthread =>
    rw [hthread] at h
    obtain ⟨-, heq⟩ := Option.ite_none_right_eq_some.mp hstep
    obtain rfl := Option.some.inj heq
    exact Balance.setThread h nofun rfl
  · cases hstep

/-- Every step keeps the balance as long as `internal_fill_sink` does not throw under the lock. -/
theorem balanced_step {r : Unit} (hs : s.Balanced) (hfill : s.fillReturns action = true)
    (hstep : s.step noError sanityError action = some (r, s')) : s'.Balanced := by
  cases action with
  | start t code =>
    simp only [step, Option.ite_none_left_eq_some] at hstep
    obtain ⟨-, hstep⟩ := hstep
    split at hstep
    · next completion hthread =>
      obtain ⟨-, rfl⟩ := Prod.mk.inj (Option.some.inj hstep)
      have h := hs.has t
      rw [hthread] at h
      exact Balance.setThread h nofun rfl
    · cases hstep
  | go t =>
    simp only [step, Option.ite_none_left_eq_some] at hstep
    obtain ⟨-, hstep⟩ := hstep
    obtain ⟨s₁, hproceed, heq⟩ := Option.map_eq_some_iff.mp hstep
    obtain ⟨-, rfl⟩ := Prod.mk.inj heq
    exact balanced_proceed hs hfill hproceed

omit [DecidableEq ε] in
theorem balanced_initial (noError : ε) : (initial noError : LockedSpace τ ε).Balanced :=
  ⟨rfl, fun _ ↦ rfl, fun _ ↦ nofun⟩

/-- As long as `internal_fill_sink` does not throw under the lock, the counter is never negative,
`unlock_machine_space` always returns, and a thread that is back on the same stack of functions
has the lock as often as it had it then: between two such moments without other threads inside,
the counter is the same. -/
theorem lock_depth_kept {actions actions' : List (ThreadAction τ ε)}
    (hs : Run (step noError sanityError) (fun s action _ ↦ s.fillReturns action = true)
      (initial noError) actions s)
    (hs' : Run (step noError sanityError) (fun s action _ ↦ s.fillReturns action = true)
      s actions' s') (t : τ) :
    (0 ≤ s'.tuplaP ∧ (s'.threads t).control ≠ .failing) ∧
    ((s'.threads t).stack = (s.threads t).stack →
      s'.machineSpaceLock.depth t = s.machineSpaceLock.depth t ∧
      ((∀ u, u ≠ t → s.machineSpaceLock.depth u = 0 ∧ s'.machineSpaceLock.depth u = 0) →
        s'.tuplaP = s.tuplaP)) := by
  have hstep : ∀ (s : LockedSpace τ ε) action r s', s.Balanced → s.fillReturns action = true →
      s.step noError sanityError action = some (r, s') → s'.Balanced :=
    fun _ _ _ _ hs hfill h ↦ balanced_step hs hfill h
  have hb : s.Balanced := hs.invariant Balanced hstep (balanced_initial noError)
  have hb' : s'.Balanced := hs'.invariant Balanced hstep hb
  refine ⟨⟨hb'.count ▸ Int.natCast_nonneg _, hb'.control t⟩, fun hstack ↦ ?_⟩
  have hdepth : s'.machineSpaceLock.depth t = s.machineSpaceLock.depth t := by
    rw [hb'.depth, hb.depth, hstack]
  refine ⟨hdepth, fun hothers ↦ ?_⟩
  rw [hb'.count, hb.count, Monitor.count_eq_depth_of_others fun u hu ↦ (hothers u hu).1,
    Monitor.count_eq_depth_of_others fun u hu ↦ (hothers u hu).2, hdepth]

/-- Make machine 1 the sink and fill it; filling ends in `fill`. -/
def fillFirst (fill : Completion Bool) : List (ThreadAction Nat Bool) :=
  [.start 0 (.registerSink 1 .ends), .go 0, .go 0, .go 0,
    .start 0 (.fillThisSink 1 (.ends fill) .ends), .go 0, .go 0, .go 0]

/-- Fill the sink; then another thread leaves the low latency mode from inside an operation. -/
def deactivateInside : List (ThreadAction Nat Bool) :=
  fillFirst .returned ++
    [.start 1 (.enqueue (.deactivateLowLatencyMode .ends) true .ends), .go 1, .go 1, .go 1, .go 1,
      .go 1, .go 1, .go 1, .go 1]

theorem lock_depth_kept_deactivateInside :
    ∃ s : LockedSpace Nat Bool,
      Run (step false true) (fun s action _ ↦ s.fillReturns action = true) (initial false)
        deactivateInside s ∧
      (0 ≤ s.tuplaP ∧ (s.threads 1).control ≠ .failing) ∧ s.machineSpaceLock.depth 1 = 0 := by
  have hsome : (runAll (step false true) (fun s action _ ↦ s.fillReturns action)
      (initial false : LockedSpace Nat Bool) deactivateInside).isSome = true := by decide
  have hback : (runAll (step false true) (fun s action _ ↦ s.fillReturns action)
      (initial false : LockedSpace Nat Bool) deactivateInside).map
        (fun s ↦ (s.threads 1).stack.isEmpty) = some true := by decide
  obtain ⟨s, hs⟩ := Option.isSome_iff_exists.mp hsome
  rw [hs, Option.map_some, Option.some.injEq, List.isEmpty_iff] at hback
  have hkept := lock_depth_kept (.nil _) (Run.of_runAll hs) 1
  exact ⟨s, Run.of_runAll hs, hkept.1, (hkept.2 hback).1⟩

/-- An exception of `internal_fill_sink` makes `fill_this_sink` unlock twice, and the second time
`unlock_machine_space` does not return. -/
theorem lock_given_back_twice :
    ∃ s : LockedSpace Nat Bool,
      Run (step false true) (fun _ _ _ ↦ True) (initial false)
        (fillFirst (.jException (str "no sound") true) ++ [.go 0]) s ∧
      s.tuplaP = -1 ∧ (s.threads 0).control = .failing := by
  have hrun : (runAll (step false true) (fun _ _ _ ↦ true) (initial false : LockedSpace Nat Bool)
      (fillFirst (.jException (str "no sound") true) ++ [.go 0])).map
        (fun s ↦ (s.tuplaP, match (s.threads 0).control with | .failing => true | _ => false)) =
      some (-1, true) := by decide
  obtain ⟨s, hs, heq⟩ := Option.map_eq_some_iff.mp hrun
  obtain ⟨htupla, hfailing⟩ := Prod.mk.inj heq
  refine ⟨s, (Run.of_runAll hs).mono fun _ _ _ _ ↦ trivial, htupla, ?_⟩
  split at hfailing
  · assumption
  · cases hfailing

end LockedSpace

end Vuknob
