import Vuknob.Queue.Linearization

/-!
# The thread of the asynchronous operations

`src_jni/async_operations.cc`. Events go round: from the pool of free events to a thread that
requests an operation, through the thread's own queue to the thread, and back to the pool. The pool
is a queue between two threads, and its steps are those of `ReaderWriterQueue`. Operations are
requested by one thread at a time. `jThread::EventQueue` gives the events in the order in which they
were pushed, and lets a thread wait while there are none.
-/

namespace Vuknob

open Library

/-- How far `queue_event` is, `src_jni/async_operations.cc:98–124`, or that it is not called. -/
inductive Requester (Op : Type)
  | idle
  /-- About to call `try_dequeue`. -/
  | entered (op : Op)
  | dequeuing (op : Op)
  /-- About to call `set_operation` of a free event. -/
  | dequeued (op : Op) (ev : Nat)
  /-- About to call `push_event`. -/
  | filled (ev : Nat)
  deriving DecidableEq

/-- How far `start_me_up` is, and after it `thread_body`,
`src_jni/async_operations.cc:70–96, 126–141`. -/
inductive EventWorker
  /-- About to make another event. -/
  | creating
  | offering (ev : Nat)
  /-- About to call `wait_for_event`. -/
  | waiting
  /-- About to call the function of the event. -/
  | taken (ev : Nat)
  /-- About to put the event back into the pool. -/
  | finished (ev : Nat)
  | recycling (ev : Nat)
  deriving DecidableEq

/-- `AsyncOperationsThread`; an `AsyncEvent *` is a number, and `operation` is what `set_operation`
has written to the event. The operations that have been requested and those that have been carried
out are noted. -/
structure AsyncOperations (Op : Type) where
  freeEvents : ReaderWriterQueue Nat
  created : Nat
  operation : Nat → Option Op
  eq : List Nat
  requester : Requester Op
  worker : EventWorker
  requested : List Op
  executed : List Op

/-- `start_me_up` has not returned yet, and nobody has the token. -/
def EventWorker.starting : EventWorker → Bool
  | .creating => true
  | .offering _ => true
  | _ => false

/-- An operation is requested, or one of the two threads does its next step. -/
inductive AsyncCommand (Op : Type)
  | queueEvent (op : Op)
  | request
  | work
  deriving DecidableEq

/-! ## Where an event is -/

variable {Op : Type}

/-- The event that a call of `queue_event` has. -/
def Requester.event : Requester Op → List Nat
  | .dequeued _ ev => [ev]
  | .filled ev => [ev]
  | _ => []

/-- The event whose function the thread has not called yet. -/
def EventWorker.uncalled : EventWorker → List Nat
  | .taken ev => [ev]
  | _ => []

/-- The event that the thread has. -/
def EventWorker.event : EventWorker → List Nat
  | .taken ev => [ev]
  | .finished ev => [ev]
  | .recycling ev => [ev]
  | _ => []

namespace AsyncOperations

/-- The pool has just been constructed, `src_jni/async_operations.cc:127`, with a `size_t` of so many
bytes. -/
def start (Op : Type) (bytes : Nat) : AsyncOperations Op :=
  { freeEvents := ReaderWriterQueue.new (100 : BitVec (8 * bytes))
    created := 0
    operation := fun _ ↦ none
    eq := []
    requester := .idle
    worker := .creating
    requested := []
    executed := [] }

/-- The next step of `queue_event`. Where there is no free event it sleeps and asks again. -/
def request (s : AsyncOperations Op) : Option (Unit × AsyncOperations Op) :=
  match s.requester with
  | .idle => none
  | .entered op => do
    let (_, q) ← s.freeEvents.step .dequeue
    some ((), { s with freeEvents := q, requester := .dequeuing op })
  | .dequeuing op => do
    let (r, q) ← s.freeEvents.step .consume
    match r with
    | .internal => some ((), { s with freeEvents := q })
    | .dequeued ev => some ((), { s with freeEvents := q, requester := .dequeued op ev })
    | .empty => some ((), { s with freeEvents := q, requester := .entered op })
    | _ => none
  | .dequeued op ev =>
    some ((), { s with
      operation := Function.update s.operation ev (some op)
      requester := .filled ev })
  | .filled ev => some ((), { s with eq := s.eq ++ [ev], requester := .idle })

/-- The next step of `start_me_up` or `thread_body`; undefined while it waits for an event, and if
it would call what no one has set. -/
def work (s : AsyncOperations Op) : Option (Unit × AsyncOperations Op) :=
  match s.worker with
  | .creating => do
    let (_, q) ← s.freeEvents.step (.enqueue s.created false)
    some ((), { s with freeEvents := q, worker := .offering s.created })
  | .offering ev => do
    let (r, q) ← s.freeEvents.step .produce
    match r with
    | .internal => some ((), { s with freeEvents := q })
    | .enqueued => some ((), { s with freeEvents := q, created := ev + 1, worker := .creating })
    -- The event is deleted.
    | .refused => some ((), { s with freeEvents := q, worker := .waiting })
    | _ => none
  | .waiting =>
    match s.eq with
    | [] => none
    | ev :: eq => some ((), { s with eq := eq, worker := .taken ev })
  | .taken ev => do
    let op ← s.operation ev
    some ((), { s with executed := s.executed ++ [op], worker := .finished ev })
  | .finished ev => do
    let (_, q) ← s.freeEvents.step (.enqueue ev true)
    some ((), { s with freeEvents := q, worker := .recycling ev })
  | .recycling _ => do
    let (r, q) ← s.freeEvents.step .produce
    match r with
    | .internal => some ((), { s with freeEvents := q })
    | .enqueued => some ((), { s with freeEvents := q, worker := .waiting })
    | _ => none

/-- An operation may be requested once `start_me_up` has returned. -/
def step (s : AsyncOperations Op) (command : AsyncCommand Op) :
    Option (Unit × AsyncOperations Op) :=
  match command with
  | .queueEvent op =>
    match s.requester, s.worker.starting with
    | .idle, false =>
      some ((), { s with requester := .entered op, requested := s.requested ++ [op] })
    | _, _ => none
  | .request => s.request
  | .work => s.work

/-- What is in the pool, by what has gone in and come out. -/
def free (s : AsyncOperations Op) : List Nat :=
  s.freeEvents.sent.drop s.freeEvents.received.length

/-- Where an event may be: in the pool, with a call of `queue_event`, in the thread's queue, or with
the thread. -/
def places (s : AsyncOperations Op) : List Nat :=
  s.free ++ (s.requester.event ++ (s.eq ++ s.worker.event))

/-- The operation of a call of `queue_event`, as it has it or as the event has it. -/
def calling (s : AsyncOperations Op) : List (Option Op) :=
  match s.requester with
  | .idle => []
  | .entered op => [some op]
  | .dequeuing op => [some op]
  | .dequeued op _ => [some op]
  | .filled ev => [s.operation ev]

/-- What has been requested and not been carried out yet, the oldest first. -/
def outstanding (s : AsyncOperations Op) : List (Option Op) :=
  (s.worker.uncalled ++ s.eq).map s.operation ++ s.calling

end AsyncOperations

end Vuknob
