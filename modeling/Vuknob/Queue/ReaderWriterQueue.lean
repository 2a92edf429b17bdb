import Vuknob.Library.CircularBuffer
import Vuknob.Library.Cyclic
import Vuknob.Library.Runs

/-!
# The queue between two threads

`moodycamel::ReaderWriterQueue`, `src_jni/readerwriterqueue/readerwriterqueue.h`. Of its two
threads, the producer only calls `enqueue` and `try_enqueue` and the consumer only `try_dequeue`.
Every read and every write of a member that the other thread uses is a step of its own, and the
steps of the two threads come in any order. The fences make the reads and writes of one thread reach
the other in the order of the program, so that each step here takes effect at once. `malloc` always
finds memory.
-/

namespace Vuknob

open Library

/-- `ceilToPow2`, `src_jni/readerwriterqueue/readerwriterqueue.h:364–376`, with a `size_t` of so many
bytes. -/
def ceilToPow2 {bytes : Nat} (x : BitVec (8 * bytes)) : BitVec (8 * bytes) :=
  let x := x - 1
  let x := x ||| x >>> 1
  let x := x ||| x >>> 2
  let x := x ||| x >>> 4
  smear bytes 1 x + 1
where
  /-- The loop, from `i` on. -/
  smear (fuel i : Nat) (x : BitVec (8 * bytes)) : BitVec (8 * bytes) :=
    match fuel with
    | 0 => x
    | fuel + 1 => if i < bytes then smear fuel (i <<< 1) (x ||| x >>> (i <<< 3)) else x

/-- `Block`, `src_jni/readerwriterqueue/readerwriterqueue.h:402–449`. A pointer to a block is its
number in the order of allocation. -/
structure Block (α : Type) extends CircularBuffer α where
  next : Option Nat

namespace Block

variable {α : Type}

/-- The constructor. -/
def new (size : Nat) : Block α := ⟨.empty size, none⟩

/-- `sizeMask`. -/
def sizeMask (b : Block α) : Nat := b.size - 1

/-- The index after another one. -/
def after (b : Block α) (index : Nat) : Nat := (index + 1) &&& b.sizeMask

/-- `new (location) T(element)`. The memory there must not hold another element. -/
def construct (index : Nat) (element : α) (b : Block α) : Option (Block α) :=
  match b.data index with
  | none => some { b with toCircularBuffer := b.toCircularBuffer.construct index element }
  | some _ => none

/-- `element->~T()`. -/
def destroy (index : Nat) (b : Block α) : Block α :=
  { b with toCircularBuffer := b.toCircularBuffer.destroy index }

end Block

/-- How far `inner_enqueue` is, with the values that it has read and goes on to use,
`src_jni/readerwriterqueue/readerwriterqueue.h:271–352`. -/
inductive Producer (α : Type)
  | idle
  /-- About to read `tailBlock`. -/
  | entered (element : α) (canAlloc : Bool)
  /-- About to read the `front` of the tail block. -/
  | tailBlockRead (element : α) (canAlloc : Bool) (tailBlock : Nat)
  /-- About to read its `tail`. -/
  | frontRead (element : α) (canAlloc : Bool) (tailBlock blockFront : Nat)
  /-- The tail block has room: about to construct the element in it. -/
  | room (element : α) (tailBlock blockTail nextBlockTail : Nat)
  /-- About to write its `tail`. -/
  | constructed (element : α) (tailBlock nextBlockTail : Nat)
  /-- The tail block is full: about to read its `next`. -/
  | full (element : α) (canAlloc : Bool) (tailBlock : Nat)
  /-- About to read `frontBlock`. -/
  | nextRead (element : α) (canAlloc : Bool) (tailBlock next : Nat)
  /-- The next block is free: about to read `next` again. -/
  | ahead (element : α) (tailBlock : Nat)
  /-- About to read the `front` of the next block. -/
  | aheadRead (element : α) (tailBlockNext : Nat)
  /-- About to read its `tail`. -/
  | aheadFront (element : α) (tailBlockNext nextBlockFront : Nat)
  /-- About to construct the element in it. -/
  | aheadTail (element : α) (tailBlockNext nextBlockTail : Nat)
  /-- About to write its `tail`. -/
  | aheadConstructed (element : α) (tailBlockNext nextBlockTail : Nat)
  /-- The block behind the tail block holds the element: about to write `tailBlock`. -/
  | filled (element : α) (block : Nat)
  /-- There is no free block: about to make one with the element in it. -/
  | allocate (element : α) (tailBlock : Nat)
  /-- About to write the `next` of the new block. -/
  | allocated (element : α) (tailBlock newBlock : Nat)
  /-- About to write the `next` of the tail block. -/
  | nextWritten (element : α) (tailBlock newBlock : Nat)
  deriving DecidableEq

/-- How far `try_dequeue` is, with the values that it has read and goes on to use,
`src_jni/readerwriterqueue/readerwriterqueue.h:151–223`. -/
inductive Consumer (α : Type)
  | idle
  /-- About to read `tailBlock`. -/
  | entered
  /-- About to read `frontBlock`. -/
  | tailBlockRead (tailBlockAtStart : Nat)
  /-- About to read the `tail` of the front block. -/
  | frontBlockRead (tailBlockAtStart frontBlock : Nat)
  /-- About to read its `front`. -/
  | tailRead (tailBlockAtStart frontBlock blockTail : Nat)
  /-- About to move the element at `blockFront` out of the front block. -/
  | element (frontBlock blockFront : Nat)
  /-- About to write its `front`. -/
  | moved (frontBlock blockFront : Nat) (result : α)
  /-- The front block is empty, and there is another one: about to read its `next`. -/
  | advance (frontBlock : Nat)
  /-- About to read the `front` of the next block. -/
  | nextRead (nextBlock : Nat)
  /-- About to read its `tail`. -/
  | nextFront (nextBlock nextBlockFront : Nat)
  /-- About to write `frontBlock`. -/
  | nextTail (nextBlock nextBlockFront : Nat)
  deriving DecidableEq

/-- The queue with its two threads. What calls have put into it and taken out of it so far is noted
in `sent` and `received`. -/
structure ReaderWriterQueue (α : Type) where
  blocks : Nat → Block α
  allocated : Nat
  frontBlock : Nat
  tailBlock : Nat
  largestBlockSize : Nat
  producer : Producer α
  consumer : Consumer α
  sent : List α
  received : List α

/-- What a step shows: nothing, or that a call returns. -/
inductive QueueResult (α : Type)
  | internal
  | enqueued
  | refused
  | dequeued (x : α)
  | empty

/-- A call of one of the threads, or its next step in the call. -/
inductive QueueCommand (α : Type)
  | enqueue (element : α) (canAlloc : Bool)
  | produce
  | dequeue
  | consume
  deriving DecidableEq

namespace ReaderWriterQueue

variable {α : Type}

/-- The constructor, `src_jni/readerwriterqueue/readerwriterqueue.h:59–76`. -/
def new {bytes : Nat} (maxSize : BitVec (8 * bytes)) : ReaderWriterQueue α :=
  let size := (ceilToPow2 (maxSize + 1)).toNat
  { blocks := fun _ ↦ { Block.new size with next := some 0 }
    allocated := 1
    frontBlock := 0
    tailBlock := 0
    largestBlockSize := size
    producer := .idle
    consumer := .idle
    sent := []
    received := [] }

/-- Write a block. -/
def setBlock (q : ReaderWriterQueue α) (n : Nat) (b : Block α) : ReaderWriterQueue α :=
  { q with blocks := Function.update q.blocks n b }

@[simp] theorem setBlock_blocks_self (q : ReaderWriterQueue α) (n : Nat) (b : Block α) :
    (q.setBlock n b).blocks n = b := Function.update_self _ _ _

theorem setBlock_blocks_of_ne (q : ReaderWriterQueue α) {n m : Nat} (b : Block α) (h : m ≠ n) :
    (q.setBlock n b).blocks m = q.blocks m := Function.update_of_ne h _ _

/-- The next step of `inner_enqueue`; undefined if an assertion fails, if a null pointer is followed,
or if an element would be constructed in the place of another one. -/
def produce (q : ReaderWriterQueue α) : Option (QueueResult α × ReaderWriterQueue α) :=
  match q.producer with
  | .idle => none
  | .entered element canAlloc =>
    some (.internal, { q with producer := .tailBlockRead element canAlloc q.tailBlock })
  | .tailBlockRead element canAlloc tailBlock =>
    some (.internal,
      { q with producer := .frontRead element canAlloc tailBlock (q.blocks tailBlock).front })
  | .frontRead element canAlloc tailBlock blockFront =>
    let blockTail := (q.blocks tailBlock).tail
    let nextBlockTail := (q.blocks tailBlock).after blockTail
    if nextBlockTail ≠ blockFront then
      some (.internal, { q with producer := .room element tailBlock blockTail nextBlockTail })
    else
      some (.internal, { q with producer := .full element canAlloc tailBlock })
  | .room element tailBlock blockTail nextBlockTail => do
    let b ← (q.blocks tailBlock).construct blockTail element
    some (.internal,
      { q.setBlock tailBlock b with producer := .constructed element tailBlock nextBlockTail })
  | .constructed element tailBlock nextBlockTail =>
    some (.enqueued,
      { q.setBlock tailBlock { q.blocks tailBlock with tail := nextBlockTail } with
        producer := .idle
        sent := q.sent ++ [element] })
  | .full element canAlloc tailBlock => do
    let next ← (q.blocks tailBlock).next
    some (.internal, { q with producer := .nextRead element canAlloc tailBlock next })
  | .nextRead element canAlloc tailBlock next =>
    if next ≠ q.frontBlock then
      some (.internal, { q with producer := .ahead element tailBlock })
    else if canAlloc then
      some (.internal, { q with producer := .allocate element tailBlock })
    else
      some (.refused, { q with producer := .idle })
  | .ahead element tailBlock => do
    let tailBlockNext ← (q.blocks tailBlock).next
    some (.internal, { q with producer := .aheadRead element tailBlockNext })
  | .aheadRead element tailBlockNext =>
    some (.internal,
      { q with producer := .aheadFront element tailBlockNext (q.blocks tailBlockNext).front })
  | .aheadFront element tailBlockNext nextBlockFront =>
    let nextBlockTail := (q.blocks tailBlockNext).tail
    if nextBlockFront = nextBlockTail then
      some (.internal, { q with producer := .aheadTail element tailBlockNext nextBlockTail })
    else none
  | .aheadTail element tailBlockNext nextBlockTail => do
    let b ← (q.blocks tailBlockNext).construct nextBlockTail element
    some (.internal,
      { q.setBlock tailBlockNext b with
        producer := .aheadConstructed element tailBlockNext nextBlockTail })
  | .aheadConstructed element tailBlockNext nextBlockTail =>
    let b := q.blocks tailBlockNext
    some (.internal,
      { q.setBlock tailBlockNext { b with tail := b.after nextBlockTail } with
        producer := .filled element tailBlockNext })
  | .filled element block =>
    some (.enqueued,
      { q with tailBlock := block, producer := .idle, sent := q.sent ++ [element] })
  | .allocate element tailBlock => do
    let size := q.largestBlockSize * 2
    let b ← (Block.new size).construct 0 element
    if b.front = 0 then
      some (.internal,
        { q.setBlock q.allocated { b with tail := 1 } with
          largestBlockSize := size
          allocated := q.allocated + 1
          producer := .allocated element tailBlock q.allocated })
    else none
  | .allocated element tailBlock newBlock =>
    let b := { q.blocks newBlock with next := (q.blocks tailBlock).next }
    some (.internal,
      { q.setBlock newBlock b with producer := .nextWritten element tailBlock newBlock })
  | .nextWritten element tailBlock newBlock =>
    let b := { q.blocks tailBlock with next := some newBlock }
    some (.internal, { q.setBlock tailBlock b with producer := .filled element newBlock })

/-- The next step of `try_dequeue`; undefined if an assertion fails, if a null pointer is followed,
or if there is no element where one is moved from. -/
def consume (q : ReaderWriterQueue α) : Option (QueueResult α × ReaderWriterQueue α) :=
  match q.consumer with
  | .idle => none
  | .entered => some (.internal, { q with consumer := .tailBlockRead q.tailBlock })
  | .tailBlockRead tailBlockAtStart =>
    some (.internal, { q with consumer := .frontBlockRead tailBlockAtStart q.frontBlock })
  | .frontBlockRead tailBlockAtStart frontBlock =>
    some (.internal,
      { q with consumer := .tailRead tailBlockAtStart frontBlock (q.blocks frontBlock).tail })
  | .tailRead tailBlockAtStart frontBlock blockTail =>
    let blockFront := (q.blocks frontBlock).front
    if blockFront ≠ blockTail then
      some (.internal, { q with consumer := .element frontBlock blockFront })
    else if frontBlock ≠ tailBlockAtStart then
      some (.internal, { q with consumer := .advance frontBlock })
    else
      some (.empty, { q with consumer := .idle })
  | .element frontBlock blockFront => do
    let result ← (q.blocks frontBlock).data blockFront
    some (.internal,
      { q.setBlock frontBlock ((q.blocks frontBlock).destroy blockFront) with
        consumer := .moved frontBlock blockFront result })
  | .moved frontBlock blockFront result =>
    let b := q.blocks frontBlock
    some (.dequeued result,
      { q.setBlock frontBlock { b with front := b.after blockFront } with
        consumer := .idle
        received := q.received ++ [result] })
  | .advance frontBlock => do
    let nextBlock ← (q.blocks frontBlock).next
    some (.internal, { q with consumer := .nextRead nextBlock })
  | .nextRead nextBlock =>
    some (.internal, { q with consumer := .nextFront nextBlock (q.blocks nextBlock).front })
  | .nextFront nextBlock nextBlockFront =>
    if nextBlockFront ≠ (q.blocks nextBlock).tail then
      some (.internal, { q with consumer := .nextTail nextBlock nextBlockFront })
    else none
  | .nextTail nextBlock nextBlockFront =>
    some (.internal,
      { q with frontBlock := nextBlock, consumer := .element nextBlock nextBlockFront })

/-- A thread calls a function when the one before has returned, or goes on with it. -/
def step (q : ReaderWriterQueue α) (command : QueueCommand α) :
    Option (QueueResult α × ReaderWriterQueue α) :=
  match command with
  | .enqueue element canAlloc =>
    match q.producer with
    | .idle => some (.internal, { q with producer := .entered element canAlloc })
    | _ => none
  | .produce => q.produce
  | .dequeue =>
    match q.consumer with
    | .idle => some (.internal, { q with consumer := .entered })
    | _ => none
  | .consume => q.consume

end ReaderWriterQueue

end Vuknob
