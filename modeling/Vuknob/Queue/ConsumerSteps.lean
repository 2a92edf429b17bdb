import Vuknob.Queue.BlockRing

/-!
# The steps of the consumer

Each step of `try_dequeue` is defined where the two threads have kept to what the other relies on,
and keeps to it.
-/

namespace Vuknob

open Library

variable {α : Type}

namespace ReaderWriterQueue

variable {minimum : Nat} {q : ReaderWriterQueue α} {live free : List Nat}
  {view : Nat → BufferView α}

/-- The producer still knows what it knew when the other indices have only gone forwards and free
blocks have only been added. -/
private theorem ProducerKnows.mono {q' : ReaderWriterQueue α} {live' free' : List Nat}
    {view' : Nat → BufferView α} (h : ProducerKnows minimum q live free view)
    (hproducer : q'.producer = q.producer) (htail : q'.tailBlock = q.tailBlock)
    (hallocated : q'.allocated = q.allocated)
    (hblocks : ∀ n, (q'.blocks n).next = (q.blocks n).next ∧ (q'.blocks n).size = (q.blocks n).size ∧
      (q'.blocks n).tail = (q.blocks n).tail)
    (hfront : ∀ n ∈ free, (q'.blocks n).front = (q.blocks n).front)
    (hout : ∀ n ∉ live ++ free, q'.blocks n = q.blocks n)
    (hlo : ∀ n, (view n).lo ≤ (view' n).lo) (hhi : ∀ n, (view' n).hi = (view n).hi)
    (hhead : ∀ n, free.head? = some n → free'.head? = some n)
    (hmem : ∀ n, n ∈ live' ++ free' → n ∈ live ++ free) :
    ProducerKnows minimum q' live' free' view' := by
  have hafter (n i : Nat) : (q'.blocks n).after i = (q.blocks n).after i := by
    rw [Block.after, Block.after, Block.sizeMask, Block.sizeMask, (hblocks n).2.1]
  unfold ProducerKnows at h ⊢
  rw [hproducer]
  cases hp : q.producer with
  | idle => trivial
  | entered e a => trivial
  | tailBlockRead e a t => simpa [hp, htail] using h
  | frontRead e a t f =>
    rw [hp] at h
    obtain ⟨ht, lo, hle, hf, hlt⟩ := h
    exact ⟨ht.trans htail.symm, lo, hle.trans (hlo t), by rw [(hblocks t).2.1, hf],
      by rw [hhi, (hblocks t).2.1]; exact hlt⟩
  | room e t i j =>
    rw [hp] at h
    obtain ⟨ht, hi, hj, hlt⟩ := h
    refine ⟨ht.trans htail.symm, by rw [(hblocks t).2.2, hi], by rw [hafter, hj], ?_⟩
    rw [hhi, (hblocks t).2.1]
    exact hlt.trans_le (Nat.add_le_add_right (hlo t) _)
  | constructed e t j =>
    rw [hp] at h
    exact ⟨h.1.trans htail.symm, by rw [hafter, (hblocks t).2.2, h.2]⟩
  | full e a t => simpa [hp, htail] using h
  | nextRead e a t n =>
    rw [hp] at h
    exact ⟨h.1.trans htail.symm, by rw [(hblocks t).1, h.2]⟩
  | ahead e t =>
    rw [hp] at h
    obtain ⟨n, rest, rfl⟩ := List.exists_cons_of_ne_nil h.2
    exact ⟨h.1.trans htail.symm, List.ne_nil_of_mem (List.mem_of_head? (hhead n rfl))⟩
  | aheadRead e n =>
    rw [hp] at h
    exact hhead n h
  | aheadFront e n f =>
    rw [hp] at h
    exact ⟨hhead n h.1, by rw [hfront n (List.mem_of_head? h.1), h.2]⟩
  | aheadTail e n i =>
    rw [hp] at h
    exact ⟨hhead n h.1, by rw [(hblocks n).2.2, h.2]⟩
  | aheadConstructed e n i =>
    rw [hp] at h
    exact ⟨hhead n h.1, by rw [(hblocks n).2.2, h.2]⟩
  | filled e n =>
    rw [hp] at h
    exact hhead n h
  | allocate e t => simpa [hp, htail] using h
  | allocated e t n =>
    rw [hp] at h
    obtain ⟨ht, hn, hlt, hnew⟩ := h
    exact ⟨ht.trans htail.symm, fun hn' ↦ hn (hmem n hn'), hallocated ▸ hlt, by rwa [hout n hn]⟩
  | nextWritten e t n =>
    rw [hp] at h
    obtain ⟨ht, hn, hlt, hnew, hsize, hnext⟩ := h
    refine ⟨ht.trans htail.symm, fun hn' ↦ hn (hmem n hn'), hallocated ▸ hlt, ?_, ?_, ?_⟩
    · rwa [hout n hn]
    · rwa [hout n hn]
    · rw [hout n hn, (hblocks t).1, hnext]

/-- In a block in use that is not the tail block, everything is published. -/
private theorem Consistent.settled (h : Consistent minimum q live free view) {n : Nat}
    (hn : n ∈ live) (hne : n ≠ q.tailBlock) :
    q.producer.unpublished n = 0 ∧ q.producer.waiting n = [] := by
  have hfree : ∀ m, free.head? = some m → n ≠ m := by
    rintro m hm rfl
    exact (List.nodup_append.mp h.nodup).2.2 n hn n (List.mem_of_head? hm) rfl
  have hknows := h.producer_knows
  unfold ProducerKnows at hknows
  cases hp : q.producer with
  | constructed e t j =>
    rw [hp] at hknows
    exact ⟨if_neg (hknows.1 ▸ hne), rfl⟩
  | aheadConstructed e m i =>
    rw [hp] at hknows
    exact ⟨if_neg (hfree m hknows.1), if_neg (hfree m hknows.1)⟩
  | filled e m =>
    rw [hp] at hknows
    exact ⟨rfl, if_neg (hfree m hknows)⟩
  | _ => exact ⟨rfl, rfl⟩

/-- What the consumer does to the front block is nothing to the producer, as long as its `tail`
stays. -/
private theorem Consistent.setFrontBlock (h : Consistent minimum q live free view) {b : Block α}
    {v : BufferView α} {c : Consumer α} {received : List α}
    (hnext : b.next = (q.blocks q.frontBlock).next) (hsize : b.size = (q.blocks q.frontBlock).size)
    (htail : b.tail = (q.blocks q.frontBlock).tail) (hlo : (view q.frontBlock).lo ≤ v.lo)
    (hhi : v.hi = (view q.frontBlock).hi) :
    ProducerKnows minimum { q.setBlock q.frontBlock b with consumer := c, received := received }
      live free (Function.update view q.frontBlock v) := by
  have hnotMem := h.front_notMem
  rw [List.mem_append, not_or] at hnotMem
  have hview (n : Nat) : (view n).lo ≤ (Function.update view q.frontBlock v n).lo ∧
      (Function.update view q.frontBlock v n).hi = (view n).hi := by
    by_cases hn : n = q.frontBlock
    · rw [hn, Function.update_self]
      exact ⟨hlo, hhi⟩
    · rw [Function.update_of_ne hn]
      exact ⟨le_rfl, rfl⟩
  refine h.producer_knows.mono rfl rfl rfl (fun n ↦ ?_) (fun n hn ↦ ?_) (fun n hn ↦ ?_)
    (fun n ↦ (hview n).1) (fun n ↦ (hview n).2) (fun _ hn ↦ hn) (fun _ hn ↦ hn)
  all_goals by_cases hn' : n = q.frontBlock
  · simp [hn', hnext, hsize, htail]
  · simp [setBlock_blocks_of_ne q _ hn']
  · exact absurd (hn' ▸ hn) hnotMem.2
  · simp [setBlock_blocks_of_ne q _ hn']
  · exact absurd (hn' ▸ h.front_mem) hn
  · simp [setBlock_blocks_of_ne q _ hn']

/-- The consumer moves the first element out of the front block. -/
private theorem consume_element (h : Consistent minimum q live free view)
    {frontBlock blockFront : Nat} (hc : q.consumer = .element frontBlock blockFront) :
    ∃ r q' view', q.consume = some (r, q') ∧ Consistent minimum q' live free view' := by
  have hknows := h.consumer_knows
  simp only [ConsumerKnows, hc] at hknows
  obtain ⟨rfl, rfl, hlt⟩ := hknows
  have hshows := h.shows _ h.front_mem
  have hstart : (view q.frontBlock).start = (view q.frontBlock).lo := by
    rw [h.start_eq _ h.front_mem, hc]
    rfl
  obtain ⟨x, xs, hx⟩ : ∃ x xs, (view q.frontBlock).content = x :: xs := by
    apply List.exists_cons_of_length_pos
    have := hshows.hi_le
    omega
  have hfront : (q.blocks q.frontBlock).front = (view q.frontBlock).start % (q.blocks q.frontBlock).size := by
    rw [hshows.front_eq, hstart]
  have hdata : (q.blocks q.frontBlock).data (q.blocks q.frontBlock).front = some x := by
    rw [hfront]
    exact hshows.data_start hx
  have hstep : q.consume = some (.internal,
      { q.setBlock q.frontBlock
          ((q.blocks q.frontBlock).destroy (q.blocks q.frontBlock).front) with
        consumer := .moved q.frontBlock (q.blocks q.frontBlock).front x }) := by
    simp only [consume, hc, hdata, Option.bind_eq_bind, Option.bind_some]
  have hnotMem := h.front_notMem
  rw [List.mem_append, not_or] at hnotMem
  have hend := h.end_eq _ h.front_mem
  have hsent := h.sent_eq
  have hflat := h.flatMap_front (view q.frontBlock)
  rw [Function.update_eq_self, hx] at hflat
  rw [hflat, hc] at hsent
  rw [hx, List.length_cons] at hend
  let v : BufferView α :=
    { view q.frontBlock with start := (view q.frontBlock).start + 1, content := xs }
  refine ⟨_, _, _, hstep, h.setBlock (v := v) ?_ rfl rfl ?_ ?_ ?_ ?_ ?_ ?_ ?_ ?_, ?_, ?_⟩
  · rw [hfront]
    exact hshows.destroy hx (hstart ▸ hlt)
  · exact fun hmem ↦ absurd hmem hnotMem.1
  · simp [v, Consumer.taken, hstart]
  · intro n hn
    simp [Consumer.taken, hc, hn]
  · dsimp only [setBlock, v]
    omega
  · exact fun _ _ ↦ rfl
  · exact fun hmem ↦ absurd hmem hnotMem.2
  · exact fun _ _ ↦ rfl
  · rw [h.flatMap_front]
    simpa [v, Consumer.result, setBlock] using hsent
  · exact h.setFrontBlock rfl rfl rfl le_rfl rfl
  · exact ⟨rfl, by simp [Block.destroy, CircularBuffer.destroy]⟩

/-- The consumer gives the slot of the element back and returns the element. -/
private theorem consume_moved (h : Consistent minimum q live free view)
    {frontBlock blockFront : Nat} {x : α} (hc : q.consumer = .moved frontBlock blockFront x) :
    ∃ r q' view', q.consume = some (r, q') ∧ Consistent minimum q' live free view' := by
  have hknows := h.consumer_knows
  simp only [ConsumerKnows, hc] at hknows
  obtain ⟨rfl, rfl⟩ := hknows
  have hshows := h.shows _ h.front_mem
  have hstart : (view q.frontBlock).start = (view q.frontBlock).lo + 1 := by
    rw [h.start_eq _ h.front_mem, hc, Consumer.taken, if_pos rfl]
  obtain ⟨-, k, hk⟩ := h.sizes _ h.front_mem
  have hafter : (q.blocks q.frontBlock).after (q.blocks q.frontBlock).front =
      ((view q.frontBlock).lo + 1) % (q.blocks q.frontBlock).size := by
    rw [hshows.front_eq, Block.after_mod hk]
  have hstep : q.consume = some (.dequeued x,
      { q.setBlock q.frontBlock { q.blocks q.frontBlock with
          front := (q.blocks q.frontBlock).after (q.blocks q.frontBlock).front } with
        consumer := .idle
        received := q.received ++ [x] }) := by
    simp only [consume, hc]
  have hnotMem := h.front_notMem
  rw [List.mem_append, not_or] at hnotMem
  have hsent := h.sent_eq
  have hflat := h.flatMap_front (view q.frontBlock)
  rw [Function.update_eq_self] at hflat
  rw [hflat, hc] at hsent
  let v : BufferView α := { view q.frontBlock with lo := (view q.frontBlock).lo + 1 }
  refine ⟨_, _, _, hstep, h.setBlock (v := v) ?_ rfl rfl ?_ ?_ ?_ ?_ ?_ ?_ ?_ ?_, ?_, ?_⟩
  · rw [hafter]
    exact hshows.setFront (hstart ▸ Nat.lt_succ_self _)
  · exact fun hmem ↦ absurd hmem hnotMem.1
  · exact hstart
  · intro n hn
    simp [Consumer.taken, hc, hn]
  · exact h.end_eq _ h.front_mem
  · exact fun _ _ ↦ rfl
  · exact fun hmem ↦ absurd hmem hnotMem.2
  · exact fun _ _ ↦ rfl
  · rw [h.flatMap_front]
    simpa [v, Consumer.result, setBlock] using hsent
  · exact h.setFrontBlock rfl rfl rfl (Nat.le_succ _) rfl
  · trivial

/-- The consumer leaves the front block to the producer and goes on to the next one. -/
private theorem consume_nextTail (h : Consistent minimum q live free view)
    {nextBlock nextBlockFront : Nat} (hc : q.consumer = .nextTail nextBlock nextBlockFront) :
    ∃ r q' live' free', q.consume = some (r, q') ∧ Consistent minimum q' live' free' view := by
  have hknows := h.consumer_knows
  simp only [ConsumerKnows, hc] at hknows
  obtain ⟨hempty, hnext, rfl⟩ := hknows
  obtain ⟨rest, hrest⟩ : ∃ rest, live.tail = nextBlock :: rest := ⟨_, List.eq_cons_of_mem_head? hnext⟩
  have hlive : live = q.frontBlock :: nextBlock :: rest := hrest ▸ h.live_eq
  have hstep : q.consume = some (.internal,
      { q with frontBlock := nextBlock, consumer := .element nextBlock (q.blocks nextBlock).front }) := by
    simp only [consume, hc]
  have hne : q.frontBlock ≠ q.tailBlock := h.front_ne_tail (by simp [hrest])
  have hsettled := h.settled (List.mem_of_head? h.head_eq) hne
  have htaken (n : Nat) : q.consumer.taken n = 0 := by
    rw [hc]
    rfl
  have hcontent : (view q.frontBlock).content = [] := by
    have hstart := h.start_eq _ h.front_mem
    have hend := h.end_eq _ h.front_mem
    rw [htaken] at hstart
    rw [hsettled.1] at hend
    exact List.length_eq_zero_iff.mp (by omega)
  have hperm : (nextBlock :: rest ++ (free ++ [q.frontBlock])).Perm (live ++ free) := by
    rw [hlive, ← List.append_assoc]
    exact List.perm_append_singleton _ _
  have hnextMem : nextBlock ∈ live ++ free := by simp [hlive]
  have hcyclic := h.cyclic
  have hsent := h.sent_eq
  have hlast := h.last_eq
  have hnonempty := h.nonempty
  rw [hlive] at hcyclic hsent hlast hnonempty
  refine ⟨_, _, nextBlock :: rest, free ++ [q.frontBlock], hstep,
    ⟨?_, hperm.nodup_iff.mpr h.nodup, fun n hn ↦ h.allocated n (hperm.mem_iff.mp hn), rfl, ?_,
      fun n hn ↦ h.shows n (hperm.mem_iff.mp hn), fun n hn ↦ h.sizes n (hperm.mem_iff.mp hn),
      h.largest, ?_, ?_, fun n hn ↦ h.end_eq n (hperm.mem_iff.mp hn), ?_, ?_⟩, ?_, ?_⟩
  · rw [← List.append_assoc]
    exact Cyclic.rotate (l := [q.frontBlock]) hcyclic
  · rwa [List.getLast?_cons_cons] at hlast
  · exact fun n hn ↦ hnonempty n (List.mem_cons_of_mem _ hn)
  · intro n hn
    rw [h.start_eq n (hperm.mem_iff.mp hn), htaken]
    rfl
  · intro n hn
    rcases List.mem_append.mp hn with hn | hn
    · exact h.free_eq n hn
    · rw [List.mem_singleton.mp hn, hcontent]
      exact hsettled.2.symm
  · simpa [Consumer.result, hc, hcontent] using hsent
  · refine h.producer_knows.mono rfl rfl rfl (fun _ ↦ ⟨rfl, rfl, rfl⟩) (fun _ _ ↦ rfl)
      (fun _ _ ↦ rfl) (fun _ ↦ le_rfl) (fun _ ↦ rfl) (fun n hn ↦ ?_)
      (fun n hn ↦ hperm.mem_iff.mp hn)
    rw [List.head?_append, hn]
    rfl
  · refine ⟨rfl, rfl, ?_⟩
    have hlt := hnonempty nextBlock (List.mem_cons_self ..)
    rwa [h.start_eq _ hnextMem, htaken] at hlt

/-- The consumer has only read something. -/
private theorem Consistent.consume_read (h : Consistent minimum q live free view)
    {o c : Consumer α} {r : QueueResult α} (hc : q.consumer = o)
    (hstep : q.consume = some (r, { q with consumer := c }))
    (htaken : ∀ n, c.taken n = o.taken n) (hresult : c.result = o.result)
    (hknows : ConsumerKnows { q with consumer := c } live view) :
    ∃ r q' live' free' view', q.consume = some (r, q') ∧
      Consistent minimum q' live' free' view' := by
  subst hc
  exact ⟨r, _, live, free, view, hstep, h.toRing.setConsumer htaken hresult, h.producer_knows,
    hknows⟩

/-- No assertion of `try_dequeue` fails. -/
theorem Consistent.consume (h : Consistent minimum q live free view) (hbusy : q.consumer ≠ .idle) :
    ∃ r q' live' free' view', q.consume = some (r, q') ∧
      Consistent minimum q' live' free' view' := by
  have hknows := h.consumer_knows
  unfold ConsumerKnows at hknows
  have hfront := h.shows _ h.front_mem
  cases hc : q.consumer with
  | idle => exact absurd hc hbusy
  | entered =>
    exact h.consume_read (c := .tailBlockRead q.tailBlock) (r := .internal) hc
      (by simp only [ReaderWriterQueue.consume, hc]) (fun _ ↦ rfl) rfl
      (List.mem_of_getLast? h.last_eq)
  | tailBlockRead t =>
    rw [hc] at hknows
    exact h.consume_read (c := .frontBlockRead t q.frontBlock) (r := .internal) hc
      (by simp only [ReaderWriterQueue.consume, hc]) (fun _ ↦ rfl) rfl ⟨hknows, rfl⟩
  | frontBlockRead t f =>
    rw [hc] at hknows
    obtain ⟨ht, rfl⟩ := hknows
    refine h.consume_read (r := .internal)
      (c := .tailRead t q.frontBlock (q.blocks q.frontBlock).tail) hc
      (by simp only [ReaderWriterQueue.consume, hc]) (fun _ ↦ rfl) rfl ?_
    exact ⟨ht, rfl, _, le_rfl, hfront.lo_le.trans hfront.start_le, hfront.tail_eq, fun _ ↦ rfl⟩
  | tailRead t f i =>
    rw [hc] at hknows
    obtain ⟨ht, rfl, hi, hle, hlo, rfl, hlast⟩ := hknows
    have hlt : hi < (view q.frontBlock).lo + (q.blocks q.frontBlock).size :=
      hle.trans_lt (hfront.hi_le.trans_lt hfront.lt)
    have hiff := slot_eq_iff hlo hlt
    rw [← hfront.front_eq] at hiff
    by_cases heq : (q.blocks q.frontBlock).front = hi % (q.blocks q.frontBlock).size
    · by_cases hsame : q.frontBlock = t
      · subst hsame
        refine h.consume_read (c := .idle) (r := .empty) hc (by
          simp only [ReaderWriterQueue.consume, hc, ← heq, ne_eq, not_true, if_false])
          (fun _ ↦ rfl) rfl trivial
      · refine h.consume_read (c := .advance q.frontBlock) (r := .internal) hc (by
          simp only [ReaderWriterQueue.consume, hc, ← heq, ne_eq, not_true, if_false, hsame,
            not_false_iff, if_true])
          (fun _ ↦ rfl) rfl ⟨rfl, ?_, fun htail ↦ ?_⟩
        · exact (hiff.mp heq).trans (hlast hsame)
        · rw [h.live_eq, htail, List.mem_singleton] at ht
          exact hsame ht.symm
    · refine h.consume_read (r := .internal)
        (c := .element q.frontBlock (q.blocks q.frontBlock).front) hc
        (by simp only [ReaderWriterQueue.consume, hc, ne_eq, heq, not_false_iff, if_true])
        (fun _ ↦ rfl) rfl ⟨rfl, rfl, ?_⟩
      exact (Nat.lt_of_le_of_ne hlo fun he ↦ heq (hiff.mpr he)).trans_le hle
  | element f i =>
    obtain ⟨r, q', view', h'⟩ := consume_element h hc
    exact ⟨r, q', live, free, view', h'⟩
  | moved f i x =>
    obtain ⟨r, q', view', h'⟩ := consume_moved h hc
    exact ⟨r, q', live, free, view', h'⟩
  | advance f =>
    rw [hc] at hknows
    obtain ⟨rfl, hempty, htail⟩ := hknows
    obtain ⟨n, rest, hrest⟩ := List.exists_cons_of_ne_nil htail
    have hcyclic := h.cyclic
    rw [h.live_eq, hrest] at hcyclic
    have hnext : (q.blocks q.frontBlock).next = some n := Cyclic.next_eq (l := []) hcyclic
    refine h.consume_read (c := .nextRead n) (r := .internal) hc (by
      simp only [ReaderWriterQueue.consume, hc, hnext, Option.bind_eq_bind, Option.bind_some])
      (fun _ ↦ rfl) rfl ?_
    exact ⟨hempty, by rw [hrest]; rfl⟩
  | nextRead n =>
    rw [hc] at hknows
    exact h.consume_read (c := .nextFront n (q.blocks n).front) (r := .internal) hc
      (by simp only [ReaderWriterQueue.consume, hc]) (fun _ ↦ rfl) rfl ⟨hknows.1, hknows.2, rfl⟩
  | nextFront n i =>
    rw [hc] at hknows
    obtain ⟨hempty, hnext, rfl⟩ := hknows
    have hmem : n ∈ live.tail := List.mem_of_head? hnext
    have hmem' : n ∈ live ++ free := List.mem_append_left _ (List.mem_of_mem_tail hmem)
    have hne : (q.blocks n).front ≠ (q.blocks n).tail := by
      rw [Ne, (h.shows n hmem').front_eq_tail_iff]
      have hlt := h.nonempty n hmem
      rw [h.start_eq n hmem', hc] at hlt
      exact hlt.ne
    exact h.consume_read (c := .nextTail n (q.blocks n).front) (r := .internal) hc
      (by simp only [ReaderWriterQueue.consume, hc, hne, ne_eq, not_false_iff, if_true])
      (fun _ ↦ rfl) rfl ⟨hempty, hnext, rfl⟩
  | nextTail n i =>
    obtain ⟨r, q', live', free', h'⟩ := consume_nextTail h hc
    exact ⟨r, q', live', free', view, h'⟩

end ReaderWriterQueue

end Vuknob
