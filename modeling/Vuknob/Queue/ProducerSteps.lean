import Vuknob.Queue.BlockRing

/-!
# The steps of the producer

Each step of `inner_enqueue` is defined where the two threads have kept to what the other relies
on, and keeps to it.
-/

namespace Vuknob

open Library

variable {α : Type}

namespace ReaderWriterQueue

variable {minimum : Nat} {q : ReaderWriterQueue α} {live free : List Nat}
  {view : Nat → BufferView α}

/-- The consumer still knows what it knew when the tails have only gone forwards, that of the tail
block alone, and blocks have only been added. -/
private theorem Consistent.consumerKnows (h : Consistent minimum q live free view)
    {q' : ReaderWriterQueue α} {live' : List Nat} {view' : Nat → BufferView α}
    (hconsumer : q'.consumer = q.consumer) (hfrontBlock : q'.frontBlock = q.frontBlock)
    (hgrows : live <+: live')
    (hblocks : ∀ n ∈ live, (q'.blocks n).front = (q.blocks n).front ∧
      (q'.blocks n).size = (q.blocks n).size)
    (hlo : ∀ n ∈ live, (view' n).lo = (view n).lo) (hhi : ∀ n ∈ live, (view n).hi ≤ (view' n).hi)
    (hsame : ∀ n ∈ live, n ≠ q.tailBlock → (view' n).hi = (view n).hi) :
    ConsumerKnows q' live' view' := by
  obtain ⟨more, rfl⟩ := hgrows
  have hfront : q.frontBlock ∈ live := List.mem_of_head? h.head_eq
  have htail : (live ++ more).tail = live.tail ++ more := by
    rw [h.live_eq]
    rfl
  have hnext (n : Nat) (hn : live.tail.head? = some n) : n ∈ live ∧
      (live ++ more).tail.head? = some n ∧
      (view' q.frontBlock).hi = (view q.frontBlock).hi := by
    have hmem := List.mem_of_head? hn
    refine ⟨List.mem_of_mem_tail hmem, ?_,
      hsame _ hfront (h.front_ne_tail (List.ne_nil_of_mem hmem))⟩
    rw [htail, List.head?_append, hn]
    rfl
  have hknows := h.consumer_knows
  unfold ConsumerKnows at hknows ⊢
  rw [hconsumer]
  cases hc : q.consumer with
  | idle => trivial
  | entered => trivial
  | tailBlockRead t =>
    rw [hc] at hknows
    exact List.mem_append_left _ hknows
  | frontBlockRead t f =>
    rw [hc] at hknows
    exact ⟨List.mem_append_left _ hknows.1, hknows.2.trans hfrontBlock.symm⟩
  | tailRead t f i =>
    rw [hc] at hknows
    obtain ⟨ht, rfl, hi, hle, hlo', hi_eq, hlast⟩ := hknows
    refine ⟨List.mem_append_left _ ht, hfrontBlock.symm, hi, hle.trans (hhi _ hfront), ?_, ?_,
      fun hne ↦ ?_⟩
    · rwa [hlo _ hfront]
    · rw [(hblocks _ hfront).2, hi_eq]
    · have hbehind : live.tail ≠ [] := fun hnil ↦ hne <| by
        rw [h.live_eq, hnil, List.mem_singleton] at ht
        exact ht.symm
      rw [hlast hne, hsame _ hfront (h.front_ne_tail hbehind)]
  | element f i =>
    rw [hc] at hknows
    obtain ⟨rfl, hi_eq, hlt⟩ := hknows
    exact ⟨hfrontBlock.symm, by rw [(hblocks _ hfront).1, hi_eq],
      by rw [hlo _ hfront]; exact hlt.trans_le (hhi _ hfront)⟩
  | moved f i x =>
    rw [hc] at hknows
    obtain ⟨rfl, hi_eq⟩ := hknows
    exact ⟨hfrontBlock.symm, by rw [(hblocks _ hfront).1, hi_eq]⟩
  | advance f =>
    rw [hc] at hknows
    obtain ⟨rfl, hempty, hbehind⟩ := hknows
    refine ⟨hfrontBlock.symm, ?_, ?_⟩
    · rw [hlo _ hfront, hempty, hsame _ hfront (h.front_ne_tail hbehind)]
    · rw [htail]
      exact List.append_ne_nil_of_left_ne_nil hbehind _
  | nextRead n =>
    rw [hc] at hknows
    obtain ⟨-, hhead, hhi'⟩ := hnext n hknows.2
    exact ⟨by rw [hfrontBlock, hlo _ hfront, hhi', hknows.1], hhead⟩
  | nextFront n i =>
    rw [hc] at hknows
    obtain ⟨hmem, hhead, hhi'⟩ := hnext n hknows.2.1
    exact ⟨by rw [hfrontBlock, hlo _ hfront, hhi', hknows.1], hhead,
      by rw [(hblocks n hmem).1, hknows.2.2]⟩
  | nextTail n i =>
    rw [hc] at hknows
    obtain ⟨hmem, hhead, hhi'⟩ := hnext n hknows.2.1
    exact ⟨by rw [hfrontBlock, hlo _ hfront, hhi', hknows.1], hhead,
      by rw [(hblocks n hmem).1, hknows.2.2]⟩

/-- What the producer does to the tail block is nothing to the consumer, as long as its `front`
stays. -/
private theorem Consistent.setTailBlock (h : Consistent minimum q live free view) {b : Block α}
    {v : BufferView α} {p : Producer α} {sent : List α}
    (hfront : b.front = (q.blocks q.tailBlock).front) (hsize : b.size = (q.blocks q.tailBlock).size)
    (hlo : v.lo = (view q.tailBlock).lo) (hhi : (view q.tailBlock).hi ≤ v.hi) :
    ConsumerKnows { q.setBlock q.tailBlock b with producer := p, sent := sent } live
      (Function.update view q.tailBlock v) := by
  refine h.consumerKnows rfl rfl (List.prefix_refl live) (fun n _ ↦ ?_) (fun n _ ↦ ?_)
    (fun n _ ↦ ?_) (fun n _ hne ↦ by rw [Function.update_of_ne hne])
  all_goals by_cases hn : n = q.tailBlock
  · simp [hn, hfront, hsize]
  · simp [setBlock_blocks_of_ne q _ hn]
  · rw [hn, Function.update_self, hlo]
  · rw [Function.update_of_ne hn]
  · rw [hn, Function.update_self]
    exact hhi
  · rw [Function.update_of_ne hn]

/-- The consumer does not look at the blocks that are not in use. -/
private theorem Consistent.setFreeBlock (h : Consistent minimum q live free view) {k : Nat}
    (hk : k ∉ live) {b : Block α} {v : BufferView α} {p : Producer α} :
    ConsumerKnows { q.setBlock k b with producer := p } live (Function.update view k v) := by
  have hne {n : Nat} (hn : n ∈ live) : n ≠ k := by
    rintro rfl
    exact hk hn
  refine h.consumerKnows rfl rfl (List.prefix_refl live) (fun n hn ↦ ?_) (fun n hn ↦ ?_)
    (fun n hn ↦ ?_) (fun n hn _ ↦ ?_)
  · simp [setBlock_blocks_of_ne q _ (hne hn)]
  · rw [Function.update_of_ne (hne hn)]
  · rw [Function.update_of_ne (hne hn)]
  · rw [Function.update_of_ne (hne hn)]

/-- The consumer has taken elements from blocks in use only. -/
private theorem Consistent.taken_eq (h : Consistent minimum q live free view) {n : Nat}
    (hn : n ∉ live) : q.consumer.taken n = 0 := by
  have hknows := h.consumer_knows
  unfold ConsumerKnows at hknows
  cases hc : q.consumer with
  | moved f i x =>
    rw [hc] at hknows
    refine if_neg ?_
    rintro rfl
    exact hn (hknows.1 ▸ List.mem_of_head? h.head_eq)
  | _ => rfl

/-- The producer constructs the element in the tail block. -/
private theorem produce_room (h : Consistent minimum q live free view) {e : α}
    {tailBlock blockTail nextBlockTail : Nat}
    (hp : q.producer = .room e tailBlock blockTail nextBlockTail) :
    ∃ r q' view', q.produce = some (r, q') ∧ Consistent minimum q' live free view' := by
  have hknows := h.producer_knows
  simp only [ProducerKnows, hp] at hknows
  obtain ⟨rfl, rfl, rfl, hroom⟩ := hknows
  have hshows := h.shows _ h.tail_mem
  have hend := h.end_eq _ h.tail_mem
  rw [hp, show (Producer.room e _ _ _).unpublished _ = 0 from rfl, Nat.add_zero] at hend
  have htail : (q.blocks q.tailBlock).tail =
      ((view q.tailBlock).start + (view q.tailBlock).content.length) %
        (q.blocks q.tailBlock).size := by
    rw [hshows.tail_eq, hend]
  have hconstruct : (q.blocks q.tailBlock).construct (q.blocks q.tailBlock).tail e =
      some { q.blocks q.tailBlock with
        toCircularBuffer :=
          (q.blocks q.tailBlock).toCircularBuffer.construct (q.blocks q.tailBlock).tail e } := by
    rw [Block.construct, htail, hshows.data_end]
  have hstep : q.produce = some (.internal, { q.setBlock q.tailBlock { q.blocks q.tailBlock with
        toCircularBuffer :=
          (q.blocks q.tailBlock).toCircularBuffer.construct (q.blocks q.tailBlock).tail e } with
      producer := .constructed e q.tailBlock
        ((q.blocks q.tailBlock).after (q.blocks q.tailBlock).tail) }) := by
    simp only [produce, hp, hconstruct, Option.bind_eq_bind, Option.bind_some]
  obtain ⟨before, hbefore⟩ := h.flatMap_tail (by rw [hp]; exact fun _ ↦ rfl)
  have hflat := hbefore (view q.tailBlock)
  rw [Function.update_eq_self] at hflat
  have hsent := h.sent_eq
  rw [hflat, hp, show (Producer.room e _ _ _).pending = [] from rfl, List.append_nil] at hsent
  let v : BufferView α :=
    { view q.tailBlock with content := (view q.tailBlock).content ++ [e] }
  refine ⟨_, _, _, hstep, h.setBlock (v := v) ?_ rfl rfl ?_ ?_ ?_ ?_ ?_ ?_ ?_ ?_, ?_, ?_⟩
  · rw [htail]
    exact hshows.construct (by omega)
  · exact h.nonempty q.tailBlock
  · exact h.start_eq _ h.tail_mem
  · exact fun _ _ ↦ rfl
  · simp only [v, Producer.unpublished, if_true, List.length_append, List.length_singleton]
    omega
  · intro n hn
    rw [hp]
    exact if_neg hn
  · exact fun hmem ↦ absurd hmem (h.notMem_free (List.mem_of_getLast? h.last_eq))
  · intro n _
    rw [hp]
    rfl
  · rw [hbefore]
    simp only [v, setBlock, Producer.pending, hsent, List.append_assoc]
  · refine ⟨rfl, ?_⟩
    simp [Block.after, Block.sizeMask, CircularBuffer.construct]
  · exact h.setTailBlock rfl rfl rfl le_rfl

/-- The producer publishes what it has constructed in the tail block. -/
private theorem produce_constructed (h : Consistent minimum q live free view) {e : α}
    {tailBlock nextBlockTail : Nat}
    (hp : q.producer = .constructed e tailBlock nextBlockTail) :
    ∃ r q' view', q.produce = some (r, q') ∧ Consistent minimum q' live free view' := by
  have hknows := h.producer_knows
  simp only [ProducerKnows, hp] at hknows
  obtain ⟨rfl, rfl⟩ := hknows
  have hshows := h.shows _ h.tail_mem
  have hend := h.end_eq _ h.tail_mem
  rw [hp, Producer.unpublished, if_pos rfl] at hend
  obtain ⟨-, k, hk⟩ := h.sizes _ h.tail_mem
  have hafter : (q.blocks q.tailBlock).after (q.blocks q.tailBlock).tail =
      ((view q.tailBlock).hi + 1) % (q.blocks q.tailBlock).size := by
    rw [hshows.tail_eq, Block.after_mod hk]
  have hstep : q.produce = some (.enqueued,
      { q.setBlock q.tailBlock { q.blocks q.tailBlock with
          tail := (q.blocks q.tailBlock).after (q.blocks q.tailBlock).tail } with
        producer := .idle
        sent := q.sent ++ [e] }) := by
    simp only [produce, hp]
  have hlive := List.mem_of_getLast? h.last_eq
  obtain ⟨before, hbefore⟩ := h.flatMap_tail (by rw [hp]; exact fun _ ↦ rfl)
  have hflat := hbefore (view q.tailBlock)
  rw [Function.update_eq_self] at hflat
  have hsent := h.sent_eq
  rw [hflat, hp] at hsent
  let v : BufferView α := { view q.tailBlock with hi := (view q.tailBlock).hi + 1 }
  refine ⟨_, _, _, hstep, h.setBlock (v := v) ?_ rfl rfl ?_ ?_ ?_ ?_ ?_ ?_ ?_ ?_, ?_, ?_⟩
  · rw [hafter]
    exact hshows.setTail (by omega)
  · exact fun hmem ↦ (h.nonempty q.tailBlock hmem).trans (Nat.lt_succ_self _)
  · exact h.start_eq _ h.tail_mem
  · exact fun _ _ ↦ rfl
  · exact hend
  · intro n hn
    rw [hp, Producer.unpublished, if_neg hn]
    rfl
  · exact fun hmem ↦ absurd hmem (h.notMem_free hlive)
  · intro n _
    rw [hp]
    rfl
  · rw [hbefore]
    simpa [v, setBlock, Producer.pending] using hsent
  · trivial
  · exact h.setTailBlock rfl rfl rfl (Nat.le_succ _)

/-- The producer constructs the element in the free block behind the tail block. -/
private theorem produce_aheadTail (h : Consistent minimum q live free view) (hmin : 1 < minimum)
    {e : α} {nextBlock nextBlockTail : Nat}
    (hp : q.producer = .aheadTail e nextBlock nextBlockTail) :
    ∃ r q' view', q.produce = some (r, q') ∧ Consistent minimum q' live free view' := by
  have hknows := h.producer_knows
  simp only [ProducerKnows, hp] at hknows
  obtain ⟨hhead, rfl⟩ := hknows
  obtain ⟨rest, rfl⟩ : ∃ rest, free = nextBlock :: rest := ⟨_, List.eq_cons_of_mem_head? hhead⟩
  have hfree : nextBlock ∈ nextBlock :: rest := List.mem_cons_self ..
  have hmem : nextBlock ∈ live ++ nextBlock :: rest := List.mem_append_right _ hfree
  have hlive : nextBlock ∉ live := fun hlive ↦ h.notMem_free hlive hfree
  have hshows := h.shows _ hmem
  have hcontent : (view nextBlock).content = [] := by
    rw [h.free_eq _ hfree, hp]
    rfl
  have hend := h.end_eq _ hmem
  rw [hp, hcontent, show (Producer.aheadTail e _ _).unpublished _ = 0 from rfl, List.length_nil,
    Nat.add_zero, Nat.add_zero] at hend
  have hstart := h.start_eq _ hmem
  rw [h.taken_eq hlive, Nat.add_zero] at hstart
  have htail : (q.blocks nextBlock).tail =
      ((view nextBlock).start + (view nextBlock).content.length) % (q.blocks nextBlock).size := by
    rw [hshows.tail_eq, hcontent, ← hend]
    rfl
  have hconstruct : (q.blocks nextBlock).construct (q.blocks nextBlock).tail e =
      some { q.blocks nextBlock with
        toCircularBuffer :=
          (q.blocks nextBlock).toCircularBuffer.construct (q.blocks nextBlock).tail e } := by
    rw [Block.construct, htail, hshows.data_end]
  have hstep : q.produce = some (.internal, { q.setBlock nextBlock { q.blocks nextBlock with
        toCircularBuffer :=
          (q.blocks nextBlock).toCircularBuffer.construct (q.blocks nextBlock).tail e } with
      producer := .aheadConstructed e nextBlock (q.blocks nextBlock).tail }) := by
    simp only [produce, hp, hconstruct, Option.bind_eq_bind, Option.bind_some]
  have hempty : (rest.flatMap fun n ↦ (view n).content) = [] :=
    List.flatMap_eq_nil_iff.mpr fun n hn ↦ by
      rw [h.free_eq n (List.mem_cons_of_mem _ hn), hp]
      rfl
  have hsent := h.sent_eq
  rw [hp, List.flatMap_append, List.flatMap_cons, hcontent, hempty,
    show (Producer.aheadTail e _ _).pending = [] from rfl, List.append_nil] at hsent
  let v : BufferView α := { view nextBlock with content := (view nextBlock).content ++ [e] }
  refine ⟨_, _, _, hstep, h.setBlock (v := v) ?_ rfl rfl ?_ ?_ ?_ ?_ ?_ ?_ ?_ ?_, ?_, ?_⟩
  · rw [htail]
    refine hshows.construct ?_
    have hsize := (h.sizes _ hmem).1
    rw [hcontent, List.length_nil]
    omega
  · exact fun hmem ↦ absurd (List.mem_of_mem_tail hmem) hlive
  · exact h.start_eq _ hmem
  · exact fun _ _ ↦ rfl
  · simp [v, hcontent, Producer.unpublished, hend]
  · intro n hn
    rw [hp]
    exact if_neg hn
  · intro _
    simp [v, hcontent, Producer.waiting]
  · intro n hn
    rw [hp]
    exact if_neg hn
  · rw [flatMap_content_update _ _ h.nodup, hempty]
    simp [v, hcontent, setBlock, Producer.pending, hsent]
  · exact ⟨rfl, by simp [CircularBuffer.construct]⟩
  · exact h.setFreeBlock hlive

/-- The producer lets the `tail` of the free block show the element. -/
private theorem produce_aheadConstructed (h : Consistent minimum q live free view) {e : α}
    {nextBlock nextBlockTail : Nat}
    (hp : q.producer = .aheadConstructed e nextBlock nextBlockTail) :
    ∃ r q' view', q.produce = some (r, q') ∧ Consistent minimum q' live free view' := by
  have hknows := h.producer_knows
  simp only [ProducerKnows, hp] at hknows
  obtain ⟨hhead, rfl⟩ := hknows
  obtain ⟨rest, rfl⟩ : ∃ rest, free = nextBlock :: rest := ⟨_, List.eq_cons_of_mem_head? hhead⟩
  have hfree : nextBlock ∈ nextBlock :: rest := List.mem_cons_self ..
  have hmem : nextBlock ∈ live ++ nextBlock :: rest := List.mem_append_right _ hfree
  have hlive : nextBlock ∉ live := fun hlive ↦ h.notMem_free hlive hfree
  have hshows := h.shows _ hmem
  have hend := h.end_eq _ hmem
  rw [hp, Producer.unpublished, if_pos rfl] at hend
  obtain ⟨-, k, hk⟩ := h.sizes _ hmem
  have hafter : (q.blocks nextBlock).after (q.blocks nextBlock).tail =
      ((view nextBlock).hi + 1) % (q.blocks nextBlock).size := by
    rw [hshows.tail_eq, Block.after_mod hk]
  have hstep : q.produce = some (.internal,
      { q.setBlock nextBlock { q.blocks nextBlock with
          tail := (q.blocks nextBlock).after (q.blocks nextBlock).tail } with
        producer := .filled e nextBlock }) := by
    simp only [produce, hp]
  have hsent := h.sent_eq
  have hflat := flatMap_content_update view (view nextBlock) h.nodup
  rw [Function.update_eq_self] at hflat
  rw [hflat, hp] at hsent
  let v : BufferView α := { view nextBlock with hi := (view nextBlock).hi + 1 }
  refine ⟨_, _, _, hstep, h.setBlock (v := v) ?_ rfl rfl ?_ ?_ ?_ ?_ ?_ ?_ ?_ ?_, ?_, ?_⟩
  · rw [hafter]
    exact hshows.setTail (by omega)
  · exact fun hmem ↦ absurd (List.mem_of_mem_tail hmem) hlive
  · exact h.start_eq _ hmem
  · exact fun _ _ ↦ rfl
  · exact hend
  · intro n hn
    rw [hp, Producer.unpublished, if_neg hn]
    rfl
  · intro _
    have hcontent := h.free_eq _ hfree
    rwa [hp] at hcontent
  · intro n hn
    rw [hp]
    rfl
  · rw [flatMap_content_update _ _ h.nodup]
    exact hsent
  · rfl
  · exact h.setFreeBlock hlive

/-- The free block that holds the element becomes the tail block. -/
private theorem produce_filled (h : Consistent minimum q live free view) {e : α} {block : Nat}
    (hp : q.producer = .filled e block) :
    ∃ r q' live' free', q.produce = some (r, q') ∧ Consistent minimum q' live' free' view := by
  have hknows := h.producer_knows
  simp only [ProducerKnows, hp] at hknows
  obtain ⟨rest, rfl⟩ : ∃ rest, free = block :: rest := ⟨_, List.eq_cons_of_mem_head? hknows⟩
  have hmem : block ∈ live ++ block :: rest := List.mem_append_right _ (List.mem_cons_self ..)
  have hstep : q.produce = some (.enqueued,
      { q with tailBlock := block, producer := .idle, sent := q.sent ++ [e] }) := by
    simp only [produce, hp]
  have happend : live ++ [block] ++ rest = live ++ block :: rest := by
    rw [List.append_assoc, List.singleton_append]
  have hwaiting (n : Nat) (hn : n ≠ block) : q.producer.waiting n = [] := by
    rw [hp]
    exact if_neg hn
  have hrest : block ∉ rest :=
    (List.nodup_cons.mp (List.nodup_append.mp h.nodup).2.1).1
  have hcontent := h.free_eq block (List.mem_cons_self ..)
  rw [hp, Producer.waiting, if_pos rfl] at hcontent
  have hend := h.end_eq block hmem
  rw [hp, hcontent] at hend
  have hsent := h.sent_eq
  rw [hp] at hsent
  refine ⟨_, _, live ++ [block], rest, hstep, ⟨?_, ?_, ?_, ?_, ?_, ?_, ?_, h.largest, ?_, ?_, ?_, ?_,
    ?_⟩, ?_, ?_⟩
  all_goals try rw [happend]
  · exact h.cyclic
  · exact h.nodup
  · exact h.allocated
  · rw [List.head?_append, h.head_eq]
    rfl
  · simp
  · exact h.shows
  · exact h.sizes
  · intro n hn
    rw [h.live_eq, List.cons_append, List.tail_cons] at hn
    rcases List.mem_append.mp hn with hn | hn
    · exact h.nonempty n hn
    · rw [List.mem_singleton.mp hn]
      exact Nat.lt_of_succ_le hend.le
  · exact h.start_eq
  · intro n hn
    rw [h.end_eq n hn, hp]
    rfl
  · intro n hn
    rw [h.free_eq n (List.mem_cons_of_mem _ hn), hwaiting n (by rintro rfl; exact hrest hn)]
    rfl
  · simpa [Producer.pending] using hsent
  · trivial
  · exact h.consumerKnows rfl rfl (List.prefix_append _ _) (fun _ _ ↦ ⟨rfl, rfl⟩) (fun _ _ ↦ rfl)
      (fun _ _ ↦ le_rfl) (fun _ _ _ ↦ rfl)

/-- The producer makes a new block, which only it knows. -/
private theorem produce_allocate (h : Consistent minimum q live free view) (hmin : 0 < minimum)
    {e : α} {tailBlock : Nat} (hp : q.producer = .allocate e tailBlock) :
    ∃ r q', q.produce = some (r, q') ∧ Consistent minimum q' live free view := by
  have hknows := h.producer_knows
  simp only [ProducerKnows, hp] at hknows
  obtain rfl := hknows
  let size := q.largestBlockSize * 2
  let b : Block α := ⟨{ (CircularBuffer.empty size).construct 0 e with tail := 1 }, none⟩
  have hstep : q.produce = some (.internal, { q.setBlock q.allocated b with
      largestBlockSize := size
      allocated := q.allocated + 1
      producer := .allocated e q.tailBlock q.allocated }) := by
    simp only [produce, hp]
    rfl
  have hnew : q.allocated ∉ live ++ free := fun hmem ↦ Nat.lt_irrefl _ (h.allocated _ hmem)
  obtain ⟨hle, k, hk⟩ := h.largest
  have hlargest : minimum ≤ size ∧ ∃ k, size = 2 ^ k :=
    ⟨hle.trans (Nat.le_mul_of_pos_right _ Nat.two_pos), k + 1, by rw [Nat.pow_succ, ← hk]⟩
  have hsize : 1 < size := by
    have : 0 < q.largestBlockSize := hmin.trans_le hle
    omega
  have hshows : ((CircularBuffer.empty size).construct 0 e).Shows ⟨0, 0, 0, [e]⟩ := by
    have := (CircularBuffer.shows_empty (Nat.zero_lt_of_lt hsize)).construct (x := e)
      (by simpa [CircularBuffer.empty] using hsize)
    simpa [CircularBuffer.empty] using this
  have hb : b.Shows ⟨0, 0, 1, [e]⟩ := by
    have := hshows.setTail Nat.one_pos
    rwa [show (0 + 1) % ((CircularBuffer.empty size).construct 0 e).size = 1 from
      Nat.mod_eq_of_lt hsize] at this
  refine ⟨_, _, hstep, h.setOther hnew hlargest (Nat.le_succ _) (by rw [hp]; exact fun _ ↦ rfl)
    (by rw [hp]; exact fun _ ↦ rfl) (by rw [hp]; rfl), ?_, ?_⟩
  · refine ⟨rfl, hnew, Nat.lt_succ_self _, ?_, ?_⟩
    · simpa using hb
    · simpa [GoodSize] using show GoodSize minimum b from hlargest
  · refine h.consumerKnows rfl rfl (List.prefix_refl live) (fun n hn ↦ ?_) (fun _ _ ↦ rfl)
      (fun _ _ ↦ le_rfl) (fun _ _ _ ↦ rfl)
    have hne : n ≠ q.allocated := by
      rintro rfl
      exact hnew (List.mem_append_left _ hn)
    simp [setBlock_blocks_of_ne q _ hne]

/-- The new block is to come before the block behind the tail block. -/
private theorem produce_allocated (h : Consistent minimum q live free view) {e : α}
    {tailBlock newBlock : Nat} (hp : q.producer = .allocated e tailBlock newBlock) :
    ∃ r q', q.produce = some (r, q') ∧ Consistent minimum q' live free view := by
  have hknows := h.producer_knows
  simp only [ProducerKnows, hp] at hknows
  obtain ⟨rfl, hnew, hlt, hshows, hsize⟩ := hknows
  let b : Block α := { q.blocks newBlock with next := (q.blocks q.tailBlock).next }
  have hstep : q.produce = some (.internal,
      { q.setBlock newBlock b with producer := .nextWritten e q.tailBlock newBlock }) := by
    simp only [produce, hp]
    rfl
  have hne : q.tailBlock ≠ newBlock := by
    rintro rfl
    exact hnew h.tail_mem
  refine ⟨_, _, hstep, h.setOther hnew h.largest le_rfl (by rw [hp]; exact fun _ ↦ rfl)
    (by rw [hp]; exact fun _ ↦ rfl) (by rw [hp]; rfl), ?_, ?_⟩
  · refine ⟨rfl, hnew, hlt, ?_, ?_, ?_⟩
    · simpa [b] using hshows
    · simpa [b, GoodSize] using hsize
    · simp [b, setBlock_blocks_of_ne q _ hne]
  · refine h.consumerKnows rfl rfl (List.prefix_refl live) (fun n hn ↦ ?_) (fun _ _ ↦ rfl)
      (fun _ _ ↦ le_rfl) (fun _ _ _ ↦ rfl)
    have hne : n ≠ newBlock := by
      rintro rfl
      exact hnew (List.mem_append_left _ hn)
    simp [setBlock_blocks_of_ne q _ hne]

/-- The new block is put behind the tail block. -/
private theorem produce_nextWritten (h : Consistent minimum q live free view) {e : α}
    {tailBlock newBlock : Nat} (hp : q.producer = .nextWritten e tailBlock newBlock) :
    ∃ r q' free' view', q.produce = some (r, q') ∧ Consistent minimum q' live free' view' := by
  have hknows := h.producer_knows
  simp only [ProducerKnows, hp] at hknows
  obtain ⟨rfl, hnew, hlt, hshows, hsize, hnext⟩ := hknows
  let b : Block α := { q.blocks q.tailBlock with next := some newBlock }
  let v : BufferView α := ⟨0, 0, 1, [e]⟩
  have hstep : q.produce = some (.internal,
      { q.setBlock q.tailBlock b with producer := .filled e newBlock }) := by
    simp only [produce, hp]
    rfl
  obtain ⟨init, hinit⟩ := List.getLast?_eq_some_iff.mp h.last_eq
  have hlive : newBlock ∉ live := fun hmem ↦ hnew (List.mem_append_left _ hmem)
  have hperm : (live ++ newBlock :: free).Perm (newBlock :: (live ++ free)) := List.perm_middle
  have hmem {n : Nat} (hn : n ∈ live ++ newBlock :: free) (hne : n ≠ newBlock) : n ∈ live ++ free :=
    (List.mem_cons.mp (hperm.mem_iff.mp hn)).resolve_left hne
  have hne : newBlock ≠ q.tailBlock := by
    rintro rfl
    exact hnew h.tail_mem
  have hblocks (n : Nat) : ((q.setBlock q.tailBlock b).blocks n).toCircularBuffer =
      (q.blocks n).toCircularBuffer := by
    by_cases hn : n = q.tailBlock
    · simp [hn, b]
    · simp [setBlock_blocks_of_ne q b hn]
  have hempty : (free.flatMap fun n ↦ (view n).content) = [] :=
    List.flatMap_eq_nil_iff.mpr fun n hn ↦ by
      rw [h.free_eq n hn, hp]
      rfl
  have hsent := h.sent_eq
  rw [hp, List.flatMap_append, hempty, show (Producer.nextWritten e _ _).pending = [] from rfl,
    List.append_nil] at hsent
  refine ⟨_, _, newBlock :: free, Function.update view newBlock v, hstep, ⟨?_, ?_, fun n hn ↦ ?_,
    h.head_eq, h.last_eq, fun n hn ↦ ?_, fun n hn ↦ ?_, h.largest, fun n hn ↦ ?_, fun n hn ↦ ?_,
    fun n hn ↦ ?_, fun n hn ↦ ?_, ?sent⟩, rfl, ?knows⟩
  case sent =>
    have hflat := flatMap_content_update view v
      (hperm.nodup_iff.mpr (List.nodup_cons.mpr ⟨hnew, h.nodup⟩))
    rw [hflat, hempty]
    simp [v, setBlock, Producer.pending, hsent]
  case knows =>
    have hother {n : Nat} (hn : n ∈ live) : n ≠ newBlock := by
      rintro rfl
      exact hlive hn
    refine h.consumerKnows rfl rfl (List.prefix_refl live) (fun n _ ↦ ?_) (fun n hn ↦ ?_)
      (fun n hn ↦ ?_) (fun n hn _ ↦ ?_)
    · simp only [hblocks, and_self]
    · rw [Function.update_of_ne (hother hn)]
    · rw [Function.update_of_ne (hother hn)]
    · rw [Function.update_of_ne (hother hn)]
  · have hcyclic := h.cyclic
    have hnodup := h.nodup
    rw [hinit, List.append_assoc, List.singleton_append] at hcyclic hnodup hnew
    rw [hinit, List.append_assoc, List.singleton_append]
    refine (hcyclic.insert hnodup hnew hnext).congr fun n _ ↦ ?_
    by_cases hn : n = q.tailBlock
    · simp [hn, b]
    · simp [setBlock_blocks_of_ne q b hn, Function.update_of_ne hn]
  · exact hperm.nodup_iff.mpr (List.nodup_cons.mpr ⟨hnew, h.nodup⟩)
  all_goals by_cases hn' : n = newBlock
  · exact hn' ▸ hlt
  · exact h.allocated n (hmem hn hn')
  · simp only [hblocks]
    rw [hn', Function.update_self]
    exact hshows
  · simp only [hblocks]
    rw [Function.update_of_ne hn']
    exact h.shows n (hmem hn hn')
  · simp only [GoodSize, hblocks]
    exact hn' ▸ hsize
  · simp only [GoodSize, hblocks]
    exact h.sizes n (hmem hn hn')
  · exact absurd (hn' ▸ List.mem_of_mem_tail hn) hlive
  · rw [Function.update_of_ne hn']
    exact h.nonempty n hn
  · rw [hn', Function.update_self]
    exact ((Nat.zero_add _).trans (h.taken_eq hlive)).symm
  · rw [Function.update_of_ne hn']
    exact h.start_eq n (hmem hn hn')
  · rw [hn', Function.update_self]
    rfl
  · rw [Function.update_of_ne hn', h.end_eq n (hmem hn hn'), hp]
    rfl
  · simp [hn', v, Producer.waiting]
  · rw [Function.update_of_ne hn', h.free_eq n ((List.mem_cons.mp hn).resolve_left hn'), hp]
    exact (if_neg hn').symm

/-- The producer has only read something. -/
private theorem Consistent.produce_read (h : Consistent minimum q live free view)
    {o p : Producer α} {r : QueueResult α} (hp : q.producer = o)
    (hstep : q.produce = some (r, { q with producer := p }))
    (hunpublished : ∀ n, p.unpublished n = o.unpublished n)
    (hwaiting : ∀ n, p.waiting n = o.waiting n) (hpending : p.pending = o.pending)
    (hknows : ProducerKnows minimum { q with producer := p } live free view) :
    ∃ r q' live' free' view', q.produce = some (r, q') ∧
      Consistent minimum q' live' free' view' := by
  subst hp
  exact ⟨r, _, live, free, view, hstep, h.toRing.setProducer hunpublished hwaiting hpending, hknows,
    h.consumer_knows⟩

/-- No assertion of `inner_enqueue` fails. -/
theorem Consistent.produce (h : Consistent minimum q live free view) (hmin : 1 < minimum)
    (hbusy : q.producer ≠ .idle) :
    ∃ r q' live' free' view', q.produce = some (r, q') ∧
      Consistent minimum q' live' free' view' := by
  have hknows := h.producer_knows
  unfold ProducerKnows at hknows
  have htail := h.shows _ h.tail_mem
  have hnext := h.next_tailBlock
  cases hp : q.producer with
  | idle => exact absurd hp hbusy
  | entered e a =>
    exact h.produce_read (p := .tailBlockRead e a q.tailBlock) (r := .internal) hp
      (by simp only [ReaderWriterQueue.produce, hp]) (fun _ ↦ rfl) (fun _ ↦ rfl) rfl rfl
  | tailBlockRead e a t =>
    rw [hp] at hknows
    obtain rfl := hknows
    refine h.produce_read (r := .internal)
      (p := .frontRead e a q.tailBlock (q.blocks q.tailBlock).front) hp
      (by simp only [ReaderWriterQueue.produce, hp]) (fun _ ↦ rfl) (fun _ ↦ rfl) rfl ?_
    exact ⟨rfl, _, le_rfl, htail.front_eq, htail.hi_le.trans_lt htail.lt⟩
  | frontRead e a t f =>
    rw [hp] at hknows
    obtain ⟨rfl, lo, hle, rfl, hlt⟩ := hknows
    obtain ⟨-, k, hk⟩ := h.sizes _ h.tail_mem
    have hafter : (q.blocks q.tailBlock).after (q.blocks q.tailBlock).tail =
        ((view q.tailBlock).hi + 1) % (q.blocks q.tailBlock).size := by
      rw [htail.tail_eq, Block.after_mod hk]
    by_cases heq : (q.blocks q.tailBlock).after (q.blocks q.tailBlock).tail =
        lo % (q.blocks q.tailBlock).size
    · exact h.produce_read (p := .full e a q.tailBlock) (r := .internal) hp
        (by simp only [ReaderWriterQueue.produce, hp, heq, ne_eq, not_true, if_false])
        (fun _ ↦ rfl) (fun _ ↦ rfl) rfl rfl
    · refine h.produce_read (r := .internal)
        (p := .room e q.tailBlock (q.blocks q.tailBlock).tail
          ((q.blocks q.tailBlock).after (q.blocks q.tailBlock).tail)) hp
        (by simp only [ReaderWriterQueue.produce, hp, heq, ne_eq, not_false_iff, if_true])
        (fun _ ↦ rfl) (fun _ ↦ rfl) rfl
        ⟨rfl, rfl, rfl, ?_⟩
      -- A `tail` one round ahead of the `front` that has been read would be equal to it.
      have hround : (view q.tailBlock).hi + 1 ≠ lo + (q.blocks q.tailBlock).size := by
        intro he
        rw [hafter, he, Nat.add_mod_right] at heq
        exact heq rfl
      dsimp only
      omega
  | room e t i j =>
    obtain ⟨r, q', view', h'⟩ := produce_room h hp
    exact ⟨r, q', live, free, view', h'⟩
  | constructed e t j =>
    obtain ⟨r, q', view', h'⟩ := produce_constructed h hp
    exact ⟨r, q', live, free, view', h'⟩
  | full e a t =>
    rw [hp] at hknows
    obtain rfl := hknows
    obtain ⟨n, hn⟩ : ∃ n, (q.blocks q.tailBlock).next = some n := by
      rw [hnext, h.live_eq]
      cases free with
      | nil => exact ⟨_, rfl⟩
      | cons f free => exact ⟨f, rfl⟩
    exact h.produce_read (p := .nextRead e a q.tailBlock n) (r := .internal) hp
      (by simp only [ReaderWriterQueue.produce, hp, hn, Option.bind_eq_bind, Option.bind_some])
      (fun _ ↦ rfl) (fun _ ↦ rfl) rfl ⟨rfl, hn⟩
  | nextRead e a t n =>
    rw [hp] at hknows
    obtain ⟨rfl, hn⟩ := hknows
    by_cases heq : n = q.frontBlock
    · cases a with
      | true =>
        exact h.produce_read (p := .allocate e q.tailBlock) (r := .internal) hp
          (by simp only [ReaderWriterQueue.produce, hp, heq, ne_eq, not_true, if_false, if_true])
          (fun _ ↦ rfl) (fun _ ↦ rfl) rfl rfl
      | false =>
        exact h.produce_read (p := .idle) (r := .refused) hp
          (by simp only [ReaderWriterQueue.produce, hp, heq, ne_eq, not_true, if_false,
            Bool.false_eq_true])
          (fun _ ↦ rfl) (fun _ ↦ rfl) rfl trivial
    · refine h.produce_read (p := .ahead e q.tailBlock) (r := .internal) hp
        (by simp only [ReaderWriterQueue.produce, hp, heq, ne_eq, not_false_iff, if_true])
        (fun _ ↦ rfl) (fun _ ↦ rfl) rfl ⟨rfl, fun hnil ↦ heq ?_⟩
      rw [hnext, hnil, List.nil_append, h.head_eq] at hn
      exact (Option.some.inj hn).symm
  | ahead e t =>
    rw [hp] at hknows
    obtain ⟨rfl, hfree⟩ := hknows
    obtain ⟨f, rest, rfl⟩ := List.exists_cons_of_ne_nil hfree
    exact h.produce_read (p := .aheadRead e f) (r := .internal) hp
      (by simp only [ReaderWriterQueue.produce, hp, hnext, List.cons_append, List.head?_cons,
        Option.bind_eq_bind, Option.bind_some])
      (fun _ ↦ rfl) (fun _ ↦ rfl) rfl rfl
  | aheadRead e n =>
    rw [hp] at hknows
    exact h.produce_read (p := .aheadFront e n (q.blocks n).front) (r := .internal) hp
      (by simp only [ReaderWriterQueue.produce, hp]) (fun _ ↦ rfl) (fun _ ↦ rfl) rfl ⟨hknows, rfl⟩
  | aheadFront e n f =>
    rw [hp] at hknows
    obtain ⟨hhead, rfl⟩ := hknows
    have hfree := List.mem_of_head? hhead
    have hmem := List.mem_append_right live hfree
    have heq : (q.blocks n).front = (q.blocks n).tail := by
      have hstart := h.start_eq n hmem
      have hend := h.end_eq n hmem
      rw [h.taken_eq fun hlive ↦ h.notMem_free hlive hfree] at hstart
      rw [h.free_eq n hfree, hp] at hend
      exact (h.shows n hmem).front_eq_tail_iff.mpr (hstart.symm.trans hend)
    exact h.produce_read (p := .aheadTail e n (q.blocks n).tail) (r := .internal) hp
      (by simp only [ReaderWriterQueue.produce, hp, heq, if_true])
      (fun _ ↦ rfl) (fun _ ↦ rfl) rfl ⟨hhead, rfl⟩
  | aheadTail e n i =>
    obtain ⟨r, q', view', h'⟩ := produce_aheadTail h hmin hp
    exact ⟨r, q', live, free, view', h'⟩
  | aheadConstructed e n i =>
    obtain ⟨r, q', view', h'⟩ := produce_aheadConstructed h hp
    exact ⟨r, q', live, free, view', h'⟩
  | filled e n =>
    obtain ⟨r, q', live', free', h'⟩ := produce_filled h hp
    exact ⟨r, q', live', free', view, h'⟩
  | allocate e t =>
    obtain ⟨r, q', h'⟩ := produce_allocate h (Nat.zero_lt_of_lt hmin) hp
    exact ⟨r, q', live, free, view, h'⟩
  | allocated e t n =>
    obtain ⟨r, q', h'⟩ := produce_allocated h hp
    exact ⟨r, q', live, free, view, h'⟩
  | nextWritten e t n =>
    obtain ⟨r, q', free', view', h'⟩ := produce_nextWritten h hp
    exact ⟨r, q', live, free', view', h'⟩

end ReaderWriterQueue

end Vuknob
