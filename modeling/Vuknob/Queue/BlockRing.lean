import Vuknob.Queue.BlockSizes

/-!
# What the two threads rely on

The blocks from the front block to the tail block hold what is in the queue; the others are free.
Only the producer makes a free block the tail block, and only the consumer makes the front block a
free one. Each thread relies on that and on the other one moving its indices forwards.
-/

namespace Vuknob

open Library

variable {α : Type}

namespace Producer

/-- The block in which an element is that its `tail` does not show yet. -/
def unpublished (p : Producer α) (n : Nat) : Nat :=
  match p with
  | .constructed _ tailBlock _ => if n = tailBlock then 1 else 0
  | .aheadConstructed _ block _ => if n = block then 1 else 0
  | _ => 0

/-- The free block that holds an element already. -/
def waiting (p : Producer α) (n : Nat) : List α :=
  match p with
  | .aheadConstructed element block _ => if n = block then [element] else []
  | .filled element block => if n = block then [element] else []
  | _ => []

/-- The element that is in a block, but not in the queue yet. -/
def pending (p : Producer α) : List α :=
  match p with
  | .constructed element _ _ => [element]
  | .aheadConstructed element _ _ => [element]
  | .filled element _ => [element]
  | _ => []

end Producer

namespace Consumer

/-- The block from which an element has gone that its `front` shows still. -/
def taken (c : Consumer α) (n : Nat) : Nat :=
  match c with
  | .moved frontBlock _ _ => if n = frontBlock then 1 else 0
  | _ => 0

/-- The element that is neither in a block nor returned yet. -/
def result (c : Consumer α) : List α :=
  match c with
  | .moved _ _ result => [result]
  | _ => []

end Consumer

namespace ReaderWriterQueue

/-- A block has at least so many slots, and their number is a power of two. -/
def GoodSize (minimum : Nat) (b : Block α) : Prop := minimum ≤ b.size ∧ ∃ k, b.size = 2 ^ k

/-- What the producer knows, with the free blocks and the positions of all blocks. -/
def ProducerKnows (minimum : Nat) (q : ReaderWriterQueue α) (live free : List Nat)
    (view : Nat → BufferView α) : Prop :=
  match q.producer with
  | .idle => True
  | .entered _ _ => True
  | .tailBlockRead _ _ tailBlock => tailBlock = q.tailBlock
  | .frontRead _ _ tailBlock blockFront =>
    tailBlock = q.tailBlock ∧ ∃ lo ≤ (view tailBlock).lo,
      blockFront = lo % (q.blocks tailBlock).size ∧
        (view tailBlock).hi < lo + (q.blocks tailBlock).size
  | .room _ tailBlock blockTail nextBlockTail =>
    tailBlock = q.tailBlock ∧ blockTail = (q.blocks tailBlock).tail ∧
      nextBlockTail = (q.blocks tailBlock).after blockTail ∧
      (view tailBlock).hi + 1 < (view tailBlock).lo + (q.blocks tailBlock).size
  | .constructed _ tailBlock nextBlockTail =>
    tailBlock = q.tailBlock ∧
      nextBlockTail = (q.blocks tailBlock).after (q.blocks tailBlock).tail
  | .full _ _ tailBlock => tailBlock = q.tailBlock
  | .nextRead _ _ tailBlock next => tailBlock = q.tailBlock ∧ (q.blocks tailBlock).next = some next
  | .ahead _ tailBlock => tailBlock = q.tailBlock ∧ free ≠ []
  | .aheadRead _ tailBlockNext => free.head? = some tailBlockNext
  | .aheadFront _ tailBlockNext nextBlockFront =>
    free.head? = some tailBlockNext ∧ nextBlockFront = (q.blocks tailBlockNext).front
  | .aheadTail _ tailBlockNext nextBlockTail =>
    free.head? = some tailBlockNext ∧ nextBlockTail = (q.blocks tailBlockNext).tail
  | .aheadConstructed _ tailBlockNext nextBlockTail =>
    free.head? = some tailBlockNext ∧ nextBlockTail = (q.blocks tailBlockNext).tail
  | .filled _ block => free.head? = some block
  | .allocate _ tailBlock => tailBlock = q.tailBlock
  | .allocated element tailBlock newBlock =>
    tailBlock = q.tailBlock ∧ newBlock ∉ live ++ free ∧ newBlock < q.allocated ∧
      (q.blocks newBlock).Shows ⟨0, 0, 1, [element]⟩ ∧ GoodSize minimum (q.blocks newBlock)
  | .nextWritten element tailBlock newBlock =>
    tailBlock = q.tailBlock ∧ newBlock ∉ live ++ free ∧ newBlock < q.allocated ∧
      (q.blocks newBlock).Shows ⟨0, 0, 1, [element]⟩ ∧ GoodSize minimum (q.blocks newBlock) ∧
      (q.blocks newBlock).next = (q.blocks tailBlock).next

/-- What the consumer knows, with the blocks in use and the positions of all blocks. -/
def ConsumerKnows (q : ReaderWriterQueue α) (live : List Nat) (view : Nat → BufferView α) : Prop :=
  match q.consumer with
  | .idle => True
  | .entered => True
  | .tailBlockRead tailBlockAtStart => tailBlockAtStart ∈ live
  | .frontBlockRead tailBlockAtStart frontBlock =>
    tailBlockAtStart ∈ live ∧ frontBlock = q.frontBlock
  | .tailRead tailBlockAtStart frontBlock blockTail =>
    tailBlockAtStart ∈ live ∧ frontBlock = q.frontBlock ∧
      ∃ hi ≤ (view frontBlock).hi, (view frontBlock).lo ≤ hi ∧
        blockTail = hi % (q.blocks frontBlock).size ∧
        (frontBlock ≠ tailBlockAtStart → hi = (view frontBlock).hi)
  | .element frontBlock blockFront =>
    frontBlock = q.frontBlock ∧ blockFront = (q.blocks frontBlock).front ∧
      (view frontBlock).lo < (view frontBlock).hi
  | .moved frontBlock blockFront _ =>
    frontBlock = q.frontBlock ∧ blockFront = (q.blocks frontBlock).front
  | .advance frontBlock =>
    frontBlock = q.frontBlock ∧ (view frontBlock).lo = (view frontBlock).hi ∧ live.tail ≠ []
  | .nextRead nextBlock =>
    (view q.frontBlock).lo = (view q.frontBlock).hi ∧ live.tail.head? = some nextBlock
  | .nextFront nextBlock nextBlockFront =>
    (view q.frontBlock).lo = (view q.frontBlock).hi ∧ live.tail.head? = some nextBlock ∧
      nextBlockFront = (q.blocks nextBlock).front
  | .nextTail nextBlock nextBlockFront =>
    (view q.frontBlock).lo = (view q.frontBlock).hi ∧ live.tail.head? = some nextBlock ∧
      nextBlockFront = (q.blocks nextBlock).front

/-- The blocks from `frontBlock` to `tailBlock` are `live`, and the others round the circle `free`;
what they hold, between what has been received and what has been sent. -/
structure Ring (minimum : Nat) (q : ReaderWriterQueue α) (live free : List Nat)
    (view : Nat → BufferView α) : Prop where
  cyclic : Cyclic (fun n ↦ (q.blocks n).next) (live ++ free)
  nodup : (live ++ free).Nodup
  allocated : ∀ n ∈ live ++ free, n < q.allocated
  head_eq : live.head? = some q.frontBlock
  last_eq : live.getLast? = some q.tailBlock
  shows : ∀ n ∈ live ++ free, (q.blocks n).Shows (view n)
  sizes : ∀ n ∈ live ++ free, GoodSize minimum (q.blocks n)
  largest : minimum ≤ q.largestBlockSize ∧ ∃ k, q.largestBlockSize = 2 ^ k
  nonempty : ∀ n ∈ live.tail, (view n).start < (view n).hi
  start_eq : ∀ n ∈ live ++ free, (view n).start = (view n).lo + q.consumer.taken n
  end_eq : ∀ n ∈ live ++ free,
    (view n).start + (view n).content.length = (view n).hi + q.producer.unpublished n
  free_eq : ∀ n ∈ free, (view n).content = q.producer.waiting n
  sent_eq : q.sent ++ q.producer.pending =
    q.received ++ q.consumer.result ++ (live ++ free).flatMap fun n ↦ (view n).content

/-- What holds after every step. -/
structure Consistent (minimum : Nat) (q : ReaderWriterQueue α) (live free : List Nat)
    (view : Nat → BufferView α) : Prop extends Ring minimum q live free view where
  producer_knows : ProducerKnows minimum q live free view
  consumer_knows : ConsumerKnows q live view

namespace Ring

variable {minimum : Nat} {q : ReaderWriterQueue α} {live free : List Nat} {view : Nat → BufferView α}

theorem front_mem (h : Ring minimum q live free view) : q.frontBlock ∈ live ++ free :=
  List.mem_append_left _ (List.mem_of_head? h.head_eq)

theorem tail_mem (h : Ring minimum q live free view) : q.tailBlock ∈ live ++ free :=
  List.mem_append_left _ (List.mem_of_getLast? h.last_eq)

/-- The blocks in use, from the front block on. -/
theorem live_eq (h : Ring minimum q live free view) : live = q.frontBlock :: live.tail :=
  List.eq_cons_of_mem_head? h.head_eq

/-- The front block is not one of those behind it. -/
theorem front_notMem (h : Ring minimum q live free view) : q.frontBlock ∉ live.tail ++ free := by
  have hnodup := h.nodup
  rw [h.live_eq, List.cons_append] at hnodup
  exact (List.nodup_cons.mp hnodup).1

/-- A block in use is not free. -/
theorem notMem_free (h : Ring minimum q live free view) {n : Nat} (hn : n ∈ live) : n ∉ free :=
  fun hfree ↦ (List.nodup_append.mp h.nodup).2.2 n hn n hfree rfl

/-- When there is a block behind the front block, then the front block is not the tail block. -/
theorem front_ne_tail (h : Ring minimum q live free view) (hlive : live.tail ≠ []) :
    q.frontBlock ≠ q.tailBlock := by
  intro heq
  have hlast := h.last_eq
  rw [h.live_eq, List.getLast?_cons_of_ne_nil hlive, ← heq] at hlast
  exact h.front_notMem (List.mem_append_left _ (List.mem_of_getLast? hlast))

/-- The pointer of the tail block leads to the first free block, and to the front block when there
is none. -/
theorem next_tailBlock (h : Ring minimum q live free view) :
    (q.blocks q.tailBlock).next = (free ++ live).head? := by
  have hcyclic := h.cyclic
  obtain ⟨init, hinit⟩ := List.getLast?_eq_some_iff.mp h.last_eq
  cases free with
  | nil =>
    rw [List.append_nil, hinit] at hcyclic
    rw [List.nil_append, hinit]
    cases init with
    | nil => simpa [Cyclic] using hcyclic
    | cons a l => exact hcyclic.next_last
  | cons f free =>
    rw [hinit, List.append_assoc] at hcyclic
    exact hcyclic.next_eq

/-- Only the thread that is about to publish what it did has a block in which positions differ. -/
theorem setProducer (h : Ring minimum q live free view) {p : Producer α}
    (hunpublished : ∀ n, p.unpublished n = q.producer.unpublished n)
    (hwaiting : ∀ n, p.waiting n = q.producer.waiting n)
    (hpending : p.pending = q.producer.pending) :
    Ring minimum { q with producer := p } live free view :=
  ⟨h.cyclic, h.nodup, h.allocated, h.head_eq, h.last_eq, h.shows, h.sizes, h.largest, h.nonempty,
    h.start_eq, fun n hn ↦ by rw [h.end_eq n hn, hunpublished],
    fun n hn ↦ by rw [h.free_eq n hn, hwaiting], by rw [hpending]; exact h.sent_eq⟩

theorem setConsumer (h : Ring minimum q live free view) {c : Consumer α}
    (htaken : ∀ n, c.taken n = q.consumer.taken n) (hresult : c.result = q.consumer.result) :
    Ring minimum { q with consumer := c } live free view :=
  ⟨h.cyclic, h.nodup, h.allocated, h.head_eq, h.last_eq, h.shows, h.sizes, h.largest, h.nonempty,
    fun n hn ↦ by rw [h.start_eq n hn, htaken], h.end_eq, h.free_eq,
    by rw [hresult]; exact h.sent_eq⟩

end Ring

/-- The content of the blocks when one of them has changed. -/
theorem flatMap_content_update (view : Nat → BufferView α) (v : BufferView α) {k : Nat}
    {l r : List Nat} (hnodup : (l ++ k :: r).Nodup) :
    ((l ++ k :: r).flatMap fun n ↦ (Function.update view k v n).content) =
      (l.flatMap fun n ↦ (view n).content) ++ (v.content ++ r.flatMap fun n ↦ (view n).content) := by
  have hother (m : List Nat) (hk : k ∉ m) :
      (m.flatMap fun n ↦ (Function.update view k v n).content) =
        m.flatMap fun n ↦ (view n).content := by
    refine List.flatMap_congr fun n hn ↦ ?_
    rw [Function.update_of_ne (by rintro rfl; exact hk hn)]
  have hperm := hnodup.perm List.perm_middle
  obtain ⟨hk, -⟩ := List.nodup_cons.mp hperm
  rw [List.mem_append, not_or] at hk
  rw [List.flatMap_append, List.flatMap_cons, hother l hk.1, hother r hk.2, Function.update_self]

/-- The content of all blocks when the positions in the front block have changed. -/
theorem Ring.flatMap_front {minimum : Nat} {q : ReaderWriterQueue α} {live free : List Nat}
    {view : Nat → BufferView α} (h : Ring minimum q live free view) (v : BufferView α) :
    ((live ++ free).flatMap fun n ↦ (Function.update view q.frontBlock v n).content) =
      v.content ++ (live.tail ++ free).flatMap fun n ↦ (view n).content := by
  have hnodup := h.nodup
  rw [h.live_eq, List.cons_append] at hnodup
  rw [h.live_eq, List.tail_cons, List.cons_append]
  exact flatMap_content_update _ _ (l := []) hnodup

/-- The content of all blocks when the positions in the tail block have changed and nothing is in
the free blocks. -/
theorem Ring.flatMap_tail {minimum : Nat} {q : ReaderWriterQueue α} {live free : List Nat}
    {view : Nat → BufferView α} (h : Ring minimum q live free view)
    (hwaiting : ∀ n, q.producer.waiting n = []) :
    ∃ before, ∀ v : BufferView α,
      ((live ++ free).flatMap fun n ↦ (Function.update view q.tailBlock v n).content) =
        before ++ v.content := by
  obtain ⟨init, hinit⟩ := List.getLast?_eq_some_iff.mp h.last_eq
  have hnodup := h.nodup
  have hempty : (free.flatMap fun n ↦ (view n).content) = [] :=
    List.flatMap_eq_nil_iff.mpr fun n hn ↦ (h.free_eq n hn).trans (hwaiting n)
  rw [hinit, List.append_assoc, List.singleton_append] at hnodup
  refine ⟨init.flatMap fun n ↦ (view n).content, fun v ↦ ?_⟩
  rw [hinit, List.append_assoc, List.singleton_append, flatMap_content_update _ _ hnodup, hempty,
    List.append_nil]

/-- One block changes, and with it what is known of it. -/
theorem Ring.setBlock {minimum : Nat} {q : ReaderWriterQueue α} {live free : List Nat}
    {view : Nat → BufferView α} (h : Ring minimum q live free view) {k : Nat} {b : Block α}
    {v : BufferView α} {p : Producer α} {c : Consumer α} {sent received : List α}
    (hshows : b.Shows v) (hsize : b.size = (q.blocks k).size) (hnext : b.next = (q.blocks k).next)
    (hnonempty : k ∈ live.tail → v.start < v.hi)
    (hstart : v.start = v.lo + c.taken k) (htaken : ∀ n ≠ k, c.taken n = q.consumer.taken n)
    (hend : v.start + v.content.length = v.hi + p.unpublished k)
    (hunpublished : ∀ n ≠ k, p.unpublished n = q.producer.unpublished n)
    (hfree : k ∈ free → v.content = p.waiting k)
    (hwaiting : ∀ n ≠ k, p.waiting n = q.producer.waiting n)
    (hsent : sent ++ p.pending = received ++ c.result ++
      (live ++ free).flatMap fun n ↦ (Function.update view k v n).content) :
    Ring minimum
      { q.setBlock k b with producer := p, consumer := c, sent := sent, received := received }
      live free (Function.update view k v) := by
  have hblocks (n : Nat) (hn : n ≠ k) : (q.setBlock k b).blocks n = q.blocks n :=
    Function.update_of_ne hn _ _
  have hself : (q.setBlock k b).blocks k = b := Function.update_self _ _ _
  refine ⟨h.cyclic.congr fun n _ ↦ ?_, h.nodup, h.allocated, h.head_eq, h.last_eq, fun n hn ↦ ?_,
    fun n hn ↦ ?_, h.largest, fun n hn ↦ ?_, fun n hn ↦ ?_, fun n hn ↦ ?_, fun n hn ↦ ?_, hsent⟩
  all_goals by_cases hk : n = k
  · simp only [hk, hself, hnext]
  · simp only [hblocks n hk]
  · rw [hk, Function.update_self, hself]
    exact hshows
  · rw [Function.update_of_ne hk, hblocks n hk]
    exact h.shows n hn
  · rw [hk, hself, GoodSize, hsize]
    exact hk ▸ h.sizes n hn
  · rw [hblocks n hk]
    exact h.sizes n hn
  · rw [hk, Function.update_self]
    exact hnonempty (hk ▸ hn)
  · rw [Function.update_of_ne hk]
    exact h.nonempty n hn
  · rw [hk, Function.update_self]
    exact hstart
  · rw [Function.update_of_ne hk, htaken n hk]
    exact h.start_eq n hn
  · rw [hk, Function.update_self]
    exact hend
  · rw [Function.update_of_ne hk, hunpublished n hk]
    exact h.end_eq n hn
  · rw [hk, Function.update_self]
    exact hfree (hk ▸ hn)
  · rw [Function.update_of_ne hk, hwaiting n hk]
    exact h.free_eq n hn

/-- A block that is not in the circle changes. -/
theorem Ring.setOther {minimum : Nat} {q : ReaderWriterQueue α} {live free : List Nat}
    {view : Nat → BufferView α} (h : Ring minimum q live free view) {k : Nat} {b : Block α}
    {p : Producer α} {largestBlockSize allocated : Nat} (hk : k ∉ live ++ free)
    (hlargest : minimum ≤ largestBlockSize ∧ ∃ k, largestBlockSize = 2 ^ k)
    (hallocated : q.allocated ≤ allocated)
    (hunpublished : ∀ n, p.unpublished n = q.producer.unpublished n)
    (hwaiting : ∀ n, p.waiting n = q.producer.waiting n)
    (hpending : p.pending = q.producer.pending) :
    Ring minimum
      { q.setBlock k b with
        producer := p, largestBlockSize := largestBlockSize, allocated := allocated }
      live free view := by
  have hblocks {n : Nat} (hn : n ∈ live ++ free) : (q.setBlock k b).blocks n = q.blocks n :=
    setBlock_blocks_of_ne q b (by rintro rfl; exact hk hn)
  refine ⟨h.cyclic.congr fun n hn ↦ ?_, h.nodup, fun n hn ↦ (h.allocated n hn).trans_le hallocated,
    h.head_eq, h.last_eq, fun n hn ↦ ?_, fun n hn ↦ ?_, hlargest, h.nonempty, h.start_eq,
    fun n hn ↦ ?_, fun n hn ↦ ?_, ?_⟩
  · simp only [hblocks hn]
  · simp only [hblocks hn]
    exact h.shows n hn
  · simp only [hblocks hn]
    exact h.sizes n hn
  · rw [hunpublished]
    exact h.end_eq n hn
  · rw [hwaiting]
    exact h.free_eq n hn
  · rw [hpending]
    exact h.sent_eq

end ReaderWriterQueue

end Vuknob
