import Vuknob.Library.Countdown
import Vuknob.Queue.Linearization

/-!
# A call while the other thread goes on

Whatever steps the other thread takes in between, a call of `try_dequeue` that begins when there is
something in the queue returns it, and a call of `enqueue` that begins when the queue holds fewer
elements than it was made for finds room. Both return after a bounded number of their own steps.
-/

namespace Vuknob

open Library

variable {α : Type}

/-- How many steps a call of `try_dequeue` may have left. -/
def Consumer.remaining : Consumer α → Nat
  | .idle => 0
  | .entered => 10
  | .tailBlockRead _ => 9
  | .frontBlockRead _ _ => 8
  | .tailRead _ _ _ => 7
  | .advance _ => 6
  | .nextRead _ => 5
  | .nextFront _ _ => 4
  | .nextTail _ _ => 3
  | .element _ _ => 2
  | .moved _ _ _ => 1

theorem Consumer.remaining_pos {c : Consumer α} (h : c ≠ .idle) : 0 < c.remaining := by
  cases c with
  | idle => exact absurd rfl h
  | _ => exact Nat.succ_pos _

/-- How many steps a call of `enqueue` that finds room may have left. -/
def Producer.remaining : Producer α → Nat
  | .entered _ _ => 5
  | .tailBlockRead _ _ _ => 4
  | .frontRead _ _ _ _ => 3
  | .room _ _ _ _ => 2
  | .constructed _ _ _ => 1
  | _ => 0

namespace QueueCommand

/-- A step of the consumer. -/
def isConsume : QueueCommand α → Bool
  | .consume => true
  | _ => false

/-- A step of the producer. -/
def isProduce : QueueCommand α → Bool
  | .produce => true
  | _ => false

/-- A call of `enqueue` or `try_enqueue`. -/
def isEnqueue : QueueCommand α → Bool
  | .enqueue _ _ => true
  | _ => false

end QueueCommand

namespace ReaderWriterQueue

variable {minimum : Nat} {q q' : ReaderWriterQueue α} {r : QueueResult α}

/-! ## What one thread leaves alone -/

/-- What a step of the producer changes of what the consumer reads. -/
private structure ProducerFrame (q q' : ReaderWriterQueue α) : Prop where
  consumer_eq : q'.consumer = q.consumer
  frontBlock_eq : q'.frontBlock = q.frontBlock
  received_eq : q'.received = q.received
  sent_prefix : q.sent <+: q'.sent
  front_eq : (q'.blocks q.frontBlock).front = (q.blocks q.frontBlock).front
  nonempty : (q.blocks q.frontBlock).front ≠ (q.blocks q.frontBlock).tail →
    (q'.blocks q.frontBlock).front ≠ (q'.blocks q.frontBlock).tail

/-- A step that leaves the front block alone. -/
private theorem ProducerFrame.of_blocks_eq (hconsumer : q'.consumer = q.consumer)
    (hfrontBlock : q'.frontBlock = q.frontBlock) (hreceived : q'.received = q.received)
    (hsent : q.sent <+: q'.sent)
    (hblock : (q'.blocks q.frontBlock).front = (q.blocks q.frontBlock).front ∧
      (q'.blocks q.frontBlock).tail = (q.blocks q.frontBlock).tail) : ProducerFrame q q' :=
  ⟨hconsumer, hfrontBlock, hreceived, hsent, hblock.1, fun h ↦ by rwa [hblock.1, hblock.2]⟩

/-- The indices of a block that is written are those of before, or another block is written. -/
private theorem setBlock_indices {k n : Nat} {b : Block α}
    (h : n = k → b.front = (q.blocks k).front ∧ b.tail = (q.blocks k).tail) :
    ((q.setBlock k b).blocks n).front = (q.blocks n).front ∧
      ((q.setBlock k b).blocks n).tail = (q.blocks n).tail := by
  by_cases hn : n = k
  · rw [hn, setBlock_blocks_self]
    exact h hn
  · rw [setBlock_blocks_of_ne q b hn]
    exact ⟨rfl, rfl⟩

/-- Constructing an element leaves the indices as they are. -/
private theorem construct_indices {b b' : Block α} {i : Nat} {e : α}
    (h : b.construct i e = some b') : b'.front = b.front ∧ b'.tail = b.tail := by
  rw [Block.construct] at h
  split at h
  · obtain rfl := Option.some.inj h
    exact ⟨rfl, rfl⟩
  · cases h

/-- A step of the producer may only make the front block less empty. -/
private theorem Sound.produce_frame (h : Sound minimum q) (hstep : q.produce = some (r, q')) :
    ProducerFrame q q' := by
  obtain ⟨live, free, view, h⟩ := h
  have hfront : q.frontBlock ∈ live := List.mem_of_head? h.head_eq
  have hknows := h.producer_knows
  unfold ProducerKnows at hknows
  cases hp : q.producer with
  | idle =>
    rw [produce, hp] at hstep
    cases hstep
  | frontRead e a t f =>
    simp only [produce, hp] at hstep
    split at hstep
    all_goals
      obtain ⟨-, rfl⟩ := Prod.mk.inj (Option.some.inj hstep)
      exact .of_blocks_eq rfl rfl rfl (List.prefix_refl _) ⟨rfl, rfl⟩
  | room e t i j =>
    simp only [produce, hp, Option.bind_eq_bind, Option.bind_eq_some_iff] at hstep
    obtain ⟨b, hb, hstep⟩ := hstep
    obtain ⟨-, rfl⟩ := Prod.mk.inj (Option.some.inj hstep)
    exact .of_blocks_eq rfl rfl rfl (List.prefix_refl _)
      (setBlock_indices fun _ ↦ construct_indices hb)
  | constructed e t j =>
    rw [hp] at hknows
    obtain ⟨rfl, rfl⟩ := hknows
    simp only [produce, hp] at hstep
    obtain ⟨-, rfl⟩ := Prod.mk.inj (Option.some.inj hstep)
    by_cases hn : q.frontBlock = q.tailBlock
    · have hshows := h.shows _ h.tail_mem
      have hend := h.end_eq _ h.tail_mem
      obtain ⟨-, k, hk⟩ := h.sizes _ h.tail_mem
      rw [hp, Producer.unpublished, if_pos rfl] at hend
      refine ⟨rfl, rfl, rfl, List.prefix_append _ _, ?_, fun _ ↦ ?_⟩
      · simp [hn]
      · simp only [hn, setBlock_blocks_self]
        rw [hshows.tail_eq, Block.after_mod hk, hshows.front_eq]
        refine (succ_slot_ne (hshows.lo_le.trans hshows.start_le) ?_).symm
        rw [← hend]
        exact hshows.lt
    · refine .of_blocks_eq rfl rfl rfl (List.prefix_append _ _) ?_
      simp [setBlock_blocks_of_ne q _ hn]
  | full e a t =>
    simp only [produce, hp, Option.bind_eq_bind, Option.bind_eq_some_iff] at hstep
    obtain ⟨n, -, hstep⟩ := hstep
    obtain ⟨-, rfl⟩ := Prod.mk.inj (Option.some.inj hstep)
    exact .of_blocks_eq rfl rfl rfl (List.prefix_refl _) ⟨rfl, rfl⟩
  | nextRead e a t n =>
    simp only [produce, hp] at hstep
    repeat' split at hstep
    all_goals
      obtain ⟨-, rfl⟩ := Prod.mk.inj (Option.some.inj hstep)
      exact .of_blocks_eq rfl rfl rfl (List.prefix_refl _) ⟨rfl, rfl⟩
  | ahead e t =>
    simp only [produce, hp, Option.bind_eq_bind, Option.bind_eq_some_iff] at hstep
    obtain ⟨n, -, hstep⟩ := hstep
    obtain ⟨-, rfl⟩ := Prod.mk.inj (Option.some.inj hstep)
    exact .of_blocks_eq rfl rfl rfl (List.prefix_refl _) ⟨rfl, rfl⟩
  | aheadFront e n f =>
    simp only [produce, hp] at hstep
    split at hstep
    · obtain ⟨-, rfl⟩ := Prod.mk.inj (Option.some.inj hstep)
      exact .of_blocks_eq rfl rfl rfl (List.prefix_refl _) ⟨rfl, rfl⟩
    · cases hstep
  | aheadTail e n i =>
    simp only [produce, hp, Option.bind_eq_bind, Option.bind_eq_some_iff] at hstep
    obtain ⟨b, hb, hstep⟩ := hstep
    obtain ⟨-, rfl⟩ := Prod.mk.inj (Option.some.inj hstep)
    exact .of_blocks_eq rfl rfl rfl (List.prefix_refl _)
      (setBlock_indices fun _ ↦ construct_indices hb)
  | aheadConstructed e n i =>
    rw [hp] at hknows
    have hn : q.frontBlock ≠ n := by
      rintro rfl
      exact h.notMem_free hfront (List.mem_of_head? hknows.1)
    simp only [produce, hp] at hstep
    obtain ⟨-, rfl⟩ := Prod.mk.inj (Option.some.inj hstep)
    exact .of_blocks_eq rfl rfl rfl (List.prefix_refl _)
      (setBlock_indices fun he ↦ absurd he hn)
  | allocate e t =>
    have hn : q.frontBlock ≠ q.allocated := (h.allocated _ h.front_mem).ne
    simp only [produce, hp, Option.bind_eq_bind, Option.bind_eq_some_iff] at hstep
    obtain ⟨b, -, hstep⟩ := hstep
    split at hstep
    · obtain ⟨-, rfl⟩ := Prod.mk.inj (Option.some.inj hstep)
      exact .of_blocks_eq rfl rfl rfl (List.prefix_refl _)
        (setBlock_indices fun he ↦ absurd he hn)
    · cases hstep
  | allocated e t n =>
    simp only [produce, hp] at hstep
    obtain ⟨-, rfl⟩ := Prod.mk.inj (Option.some.inj hstep)
    exact .of_blocks_eq rfl rfl rfl (List.prefix_refl _) (setBlock_indices fun _ ↦ ⟨rfl, rfl⟩)
  | nextWritten e t n =>
    simp only [produce, hp] at hstep
    obtain ⟨-, rfl⟩ := Prod.mk.inj (Option.some.inj hstep)
    exact .of_blocks_eq rfl rfl rfl (List.prefix_refl _) (setBlock_indices fun _ ↦ ⟨rfl, rfl⟩)
  | filled e n =>
    simp only [produce, hp] at hstep
    obtain ⟨-, rfl⟩ := Prod.mk.inj (Option.some.inj hstep)
    exact .of_blocks_eq rfl rfl rfl (List.prefix_append _ _) ⟨rfl, rfl⟩
  | _ =>
    simp only [produce, hp] at hstep
    obtain ⟨-, rfl⟩ := Prod.mk.inj (Option.some.inj hstep)
    exact .of_blocks_eq rfl rfl rfl (List.prefix_refl _) ⟨rfl, rfl⟩

/-- What a step of the consumer changes of what the producer reads. -/
private structure ConsumerFrame (q q' : ReaderWriterQueue α) : Prop where
  producer_eq : q'.producer = q.producer
  tailBlock_eq : q'.tailBlock = q.tailBlock
  allocated_eq : q'.allocated = q.allocated
  sent_eq : q'.sent = q.sent
  received_prefix : q.received <+: q'.received
  ends_eq : ∀ n, (q'.blocks n).tail = (q.blocks n).tail ∧ (q'.blocks n).size = (q.blocks n).size

/-- A step of the consumer leaves the ends and the sizes of blocks as they are. -/
private theorem consume_frame (hstep : q.consume = some (r, q')) : ConsumerFrame q q' := by
  have hset {k : Nat} {b : Block α} (hb : b.tail = (q.blocks k).tail ∧ b.size = (q.blocks k).size)
      (n : Nat) : ((q.setBlock k b).blocks n).tail = (q.blocks n).tail ∧
        ((q.setBlock k b).blocks n).size = (q.blocks n).size := by
    by_cases hn : n = k
    · rw [hn, setBlock_blocks_self]
      exact hb
    · rw [setBlock_blocks_of_ne q b hn]
      exact ⟨rfl, rfl⟩
  have hread {c : Consumer α} {r' : QueueResult α}
      (h : some (r', { q with consumer := c }) = some (r, q')) : ConsumerFrame q q' := by
    obtain ⟨-, rfl⟩ := Prod.mk.inj (Option.some.inj h)
    exact ⟨rfl, rfl, rfl, rfl, List.prefix_refl _, fun _ ↦ ⟨rfl, rfl⟩⟩
  cases hc : q.consumer with
  | idle =>
    rw [consume, hc] at hstep
    cases hstep
  | tailRead t f i =>
    simp only [consume, hc] at hstep
    repeat' split at hstep
    all_goals exact hread hstep
  | element f i =>
    simp only [consume, hc, Option.bind_eq_bind, Option.bind_eq_some_iff] at hstep
    obtain ⟨x, -, hstep⟩ := hstep
    obtain ⟨-, rfl⟩ := Prod.mk.inj (Option.some.inj hstep)
    exact ⟨rfl, rfl, rfl, rfl, List.prefix_refl _, hset ⟨rfl, rfl⟩⟩
  | moved f i x =>
    simp only [consume, hc] at hstep
    obtain ⟨-, rfl⟩ := Prod.mk.inj (Option.some.inj hstep)
    exact ⟨rfl, rfl, rfl, rfl, List.prefix_append _ _, hset ⟨rfl, rfl⟩⟩
  | advance f =>
    simp only [consume, hc, Option.bind_eq_bind, Option.bind_eq_some_iff] at hstep
    obtain ⟨n, -, hstep⟩ := hstep
    exact hread hstep
  | nextFront n i =>
    simp only [consume, hc] at hstep
    split at hstep
    · exact hread hstep
    · cases hstep
  | nextTail n i =>
    simp only [consume, hc] at hstep
    obtain ⟨-, rfl⟩ := Prod.mk.inj (Option.some.inj hstep)
    exact ⟨rfl, rfl, rfl, rfl, List.prefix_refl _, fun _ ↦ ⟨rfl, rfl⟩⟩
  | _ =>
    simp only [consume, hc] at hstep
    exact hread hstep

/-! ## A call of `try_dequeue` -/

/-- A call that began when this had been received finds an element, or has returned one. -/
private def Dequeuing (received : List α) (q : ReaderWriterQueue α) : Prop :=
  match q.consumer with
  | .idle => ∃ x, q.received = received ++ [x]
  | .entered => q.received = received ∧ q.sent ≠ q.received
  | .tailBlockRead t => q.received = received ∧ (t ≠ q.frontBlock ∨
      (q.blocks q.frontBlock).front ≠ (q.blocks q.frontBlock).tail)
  | .frontBlockRead t f => q.received = received ∧ f = q.frontBlock ∧ (t ≠ q.frontBlock ∨
      (q.blocks q.frontBlock).front ≠ (q.blocks q.frontBlock).tail)
  | .tailRead t f i => q.received = received ∧ f = q.frontBlock ∧ (t ≠ q.frontBlock ∨
      (q.blocks q.frontBlock).front ≠ i)
  | _ => q.received = received

/-- When something is in the queue, then the front block is not the tail block, or is not empty. -/
private theorem Sound.nonempty (h : Sound minimum q) (hentered : q.consumer = .entered)
    (hne : q.sent ≠ q.received) : q.tailBlock ≠ q.frontBlock ∨
      (q.blocks q.frontBlock).front ≠ (q.blocks q.frontBlock).tail := by
  obtain ⟨live, free, view, h⟩ := h
  by_contra hcon
  rw [not_or, not_not, not_not] at hcon
  obtain ⟨hsame, hempty⟩ := hcon
  have hshows := h.shows _ h.front_mem
  rw [hshows.front_eq_tail_iff] at hempty
  have hstart := h.start_eq _ h.front_mem
  have hend := h.end_eq _ h.front_mem
  rw [hentered, show (Consumer.entered : Consumer α).taken _ = 0 from rfl, Nat.add_zero] at hstart
  have hlive : live = [q.frontBlock] := by
    by_contra hlive
    refine h.front_ne_tail (fun htail ↦ hlive ?_) hsame.symm
    rw [h.live_eq, htail]
  -- What is in the blocks is not published yet.
  have hlen : ((live ++ free).flatMap fun n ↦ (view n).content).length =
      q.producer.pending.length := by
    have hfront : (view q.frontBlock).content.length = q.producer.unpublished q.frontBlock := by
      omega
    have hfree : ∀ n ∈ free, (view n).content = q.producer.waiting n := h.free_eq
    have hnotMem := h.notMem_free (List.mem_of_head? h.head_eq)
    have hnodup := (List.nodup_append.mp h.nodup).2.1
    have hknows := h.producer_knows
    rw [hlive, List.singleton_append, List.flatMap_cons, List.length_append, hfront]
    have hnone (hwaiting : ∀ n, q.producer.waiting n = []) :
        (free.flatMap fun n ↦ (view n).content) = [] :=
      List.flatMap_eq_nil_iff.mpr fun n hn ↦ (hfree n hn).trans (hwaiting n)
    have hone {k : Nat} {e : α} (hhead : free.head? = some k)
        (hwaiting : ∀ n, q.producer.waiting n = if n = k then [e] else []) :
        q.frontBlock ≠ k ∧ (free.flatMap fun n ↦ (view n).content) = [e] := by
      obtain ⟨rest, rfl⟩ : ∃ rest, free = k :: rest := ⟨_, List.eq_cons_of_mem_head? hhead⟩
      refine ⟨fun he ↦ hnotMem (he ▸ List.mem_cons_self ..), ?_⟩
      have hrest : (rest.flatMap fun n ↦ (view n).content) = [] :=
        List.flatMap_eq_nil_iff.mpr fun n hn ↦ by
          rw [hfree n (List.mem_cons_of_mem _ hn), hwaiting, if_neg]
          rintro rfl
          exact (List.nodup_cons.mp hnodup).1 hn
      rw [List.flatMap_cons, hrest, hfree k (List.mem_cons_self ..), hwaiting, if_pos rfl,
        List.append_nil]
    unfold ProducerKnows at hknows
    cases hp : q.producer with
    | constructed e t j =>
      rw [hp] at hknows
      rw [hnone (by rw [hp]; exact fun _ ↦ rfl), Producer.unpublished,
        if_pos (hsame.symm.trans hknows.1.symm)]
      rfl
    | aheadConstructed e n i =>
      rw [hp] at hknows
      obtain ⟨hne, heq⟩ := hone hknows.1 (by rw [hp]; exact fun _ ↦ rfl)
      rw [heq, Producer.unpublished, if_neg hne]
      rfl
    | filled e n =>
      rw [hp] at hknows
      obtain ⟨hne, heq⟩ := hone hknows (by rw [hp]; exact fun _ ↦ rfl)
      rw [heq]
      rfl
    | _ =>
      rw [hnone (by rw [hp]; exact fun _ ↦ rfl)]
      rfl
  have hsent := h.sent_eq
  rw [hentered, show (Consumer.entered : Consumer α).result = [] from rfl, List.append_nil] at hsent
  exact hne (List.append_inj' hsent hlen.symm).1

/-- What a call of `try_dequeue` has found out stays right while the producer goes on. -/
private theorem Dequeuing.produce {received : List α} (h : Sound minimum q)
    (hcall : Dequeuing received q) (hstep : q.produce = some (r, q')) : Dequeuing received q' := by
  have hframe := h.produce_frame hstep
  have hreceived := hframe.received_eq
  unfold Dequeuing at hcall ⊢
  rw [hframe.consumer_eq, hframe.frontBlock_eq, hframe.front_eq, hreceived]
  cases hc : q.consumer with
  | entered =>
    rw [hc] at hcall
    -- More may have been sent, but never less than has been received.
    refine ⟨hcall.1, fun heq ↦ hcall.2 ?_⟩
    have hsent := hframe.sent_prefix
    rw [heq] at hsent
    exact hsent.eq_of_length (Nat.le_antisymm hsent.length_le h.received_prefix.length_le)
  | tailBlockRead t =>
    rw [hc] at hcall
    refine ⟨hcall.1, hcall.2.imp_right fun hne ↦ ?_⟩
    have hne' := hframe.nonempty hne
    rwa [hframe.front_eq] at hne'
  | frontBlockRead t f =>
    rw [hc] at hcall
    refine ⟨hcall.1, hcall.2.1, hcall.2.2.imp_right fun hne ↦ ?_⟩
    have hne' := hframe.nonempty hne
    rwa [hframe.front_eq] at hne'
  | _ =>
    rw [hc] at hcall
    exact hcall

/-- A step of a call of `try_dequeue` that finds an element. -/
private theorem Dequeuing.consume {received : List α} (h : Sound minimum q)
    (hcall : Dequeuing received q) (hstep : q.consume = some (r, q')) :
    Dequeuing received q' ∧ q'.consumer.remaining + 1 ≤ q.consumer.remaining := by
  unfold Dequeuing at hcall
  cases hc : q.consumer with
  | idle =>
    rw [ReaderWriterQueue.consume, hc] at hstep
    cases hstep
  | entered =>
    rw [hc] at hcall
    simp only [ReaderWriterQueue.consume, hc] at hstep
    obtain ⟨-, rfl⟩ := Prod.mk.inj (Option.some.inj hstep)
    exact ⟨⟨hcall.1, h.nonempty hc hcall.2⟩, le_rfl⟩
  | tailBlockRead t =>
    rw [hc] at hcall
    simp only [ReaderWriterQueue.consume, hc] at hstep
    obtain ⟨-, rfl⟩ := Prod.mk.inj (Option.some.inj hstep)
    exact ⟨⟨hcall.1, rfl, hcall.2⟩, le_rfl⟩
  | frontBlockRead t f =>
    rw [hc] at hcall
    obtain ⟨hreceived, rfl, hne⟩ := hcall
    simp only [ReaderWriterQueue.consume, hc] at hstep
    obtain ⟨-, rfl⟩ := Prod.mk.inj (Option.some.inj hstep)
    exact ⟨⟨hreceived, rfl, hne⟩, le_rfl⟩
  | tailRead t f i =>
    rw [hc] at hcall
    obtain ⟨hreceived, rfl, hne⟩ := hcall
    simp only [ReaderWriterQueue.consume, hc] at hstep
    split at hstep
    · obtain ⟨-, rfl⟩ := Prod.mk.inj (Option.some.inj hstep)
      exact ⟨hreceived, (by decide : 2 + 1 ≤ 7)⟩
    · next heq =>
      rw [not_not] at heq
      split at hstep
      · obtain ⟨-, rfl⟩ := Prod.mk.inj (Option.some.inj hstep)
        exact ⟨hreceived, le_rfl⟩
      · next hsame =>
        rw [not_not] at hsame
        exact absurd heq (hne.resolve_left (not_not.mpr hsame.symm))
  | element f i =>
    rw [hc] at hcall
    simp only [ReaderWriterQueue.consume, hc, Option.bind_eq_bind, Option.bind_eq_some_iff] at hstep
    obtain ⟨x, -, hstep⟩ := hstep
    obtain ⟨-, rfl⟩ := Prod.mk.inj (Option.some.inj hstep)
    exact ⟨hcall, le_rfl⟩
  | moved f i x =>
    rw [hc] at hcall
    simp only [ReaderWriterQueue.consume, hc] at hstep
    obtain ⟨-, rfl⟩ := Prod.mk.inj (Option.some.inj hstep)
    exact ⟨⟨x, congrArg (· ++ [x]) hcall⟩, le_rfl⟩
  | advance f =>
    rw [hc] at hcall
    simp only [ReaderWriterQueue.consume, hc, Option.bind_eq_bind, Option.bind_eq_some_iff] at hstep
    obtain ⟨n, -, hstep⟩ := hstep
    obtain ⟨-, rfl⟩ := Prod.mk.inj (Option.some.inj hstep)
    exact ⟨hcall, le_rfl⟩
  | nextRead n =>
    rw [hc] at hcall
    simp only [ReaderWriterQueue.consume, hc] at hstep
    obtain ⟨-, rfl⟩ := Prod.mk.inj (Option.some.inj hstep)
    exact ⟨hcall, le_rfl⟩
  | nextFront n i =>
    rw [hc] at hcall
    simp only [ReaderWriterQueue.consume, hc] at hstep
    split at hstep
    · obtain ⟨-, rfl⟩ := Prod.mk.inj (Option.some.inj hstep)
      exact ⟨hcall, le_rfl⟩
    · cases hstep
  | nextTail n i =>
    rw [hc] at hcall
    simp only [ReaderWriterQueue.consume, hc] at hstep
    obtain ⟨-, rfl⟩ := Prod.mk.inj (Option.some.inj hstep)
    exact ⟨hcall, le_rfl⟩

/-- What any step does to a call of `try_dequeue` that finds an element. -/
private theorem Dequeuing.step {received : List α} (hmin : 1 < minimum) (h : Sound minimum q)
    (hcall : Dequeuing received q) {command : QueueCommand α} (hcommand : command ≠ .dequeue)
    (hstep : q.step command = some (r, q')) :
    (Sound minimum q' ∧ Dequeuing received q') ∧
      q'.consumer.remaining + (if command.isConsume then 1 else 0) ≤ q.consumer.remaining := by
  have hsound := h.step hmin hstep
  cases command with
  | enqueue e a =>
    rw [ReaderWriterQueue.step] at hstep
    split at hstep
    · obtain ⟨-, rfl⟩ := Prod.mk.inj (Option.some.inj hstep)
      exact ⟨⟨hsound, hcall⟩, le_rfl⟩
    · cases hstep
  | produce =>
    refine ⟨⟨hsound, hcall.produce h hstep⟩, ?_⟩
    rw [(h.produce_frame hstep).consumer_eq]
    exact le_rfl
  | dequeue => exact absurd rfl hcommand
  | consume =>
    obtain ⟨hcall', hremaining⟩ := hcall.consume h hstep
    exact ⟨⟨hsound, hcall'⟩, hremaining⟩

/-- A call of `try_dequeue` that begins when there is something in the queue returns an element
after at most ten steps of its own, whatever the producer does in between. So a call that returns
`false` has seen an empty queue: when it began, all that had been sent had been received. -/
theorem dequeue_returns {bytes : Nat} {maxSize : BitVec (8 * bytes)} (hpos : 0 < maxSize.toNat)
    (hlt : maxSize.toNat < 2 ^ (8 * bytes - 1)) {before during : List (QueueCommand α)}
    (hrun : Interleaving (new maxSize) before q) (hentered : q.consumer = .entered)
    (hne : q.sent ≠ q.received) (hcall : Interleaving q during q')
    (hduring : ∀ command ∈ during, command ≠ .dequeue) :
    (q'.consumer = .idle → ∃ x, q'.received = q.received ++ [x]) ∧
      (q'.consumer ≠ .idle → during.countP QueueCommand.isConsume < 10) := by
  have hmin : 1 < maxSize.toNat + 1 := Nat.succ_lt_succ hpos
  have hstart : Sound (maxSize.toNat + 1) q ∧ Dequeuing q.received q := by
    refine ⟨sound_of_run hpos hlt hrun, ?_⟩
    rw [Dequeuing, hentered]
    exact ⟨rfl, hne⟩
  obtain ⟨⟨-, hlast⟩, hcount⟩ := hcall.countP_add_rank_le QueueCommand.isConsume
    (fun s ↦ s.consumer.remaining) (fun s ↦ Sound (maxSize.toNat + 1) s ∧ Dequeuing q.received s)
    (fun s command r s' hs hcommand hstep ↦ hs.2.step hmin hs.1 hcommand hstep) hduring hstart
  rw [hentered] at hcount
  refine ⟨fun hidle ↦ ?_, fun hbusy ↦ ?_⟩
  · rwa [Dequeuing, hidle] at hlast
  · have := Consumer.remaining_pos hbusy
    exact (Nat.lt_add_of_pos_right this).trans_le hcount

/-- The call finds the element although the producer goes on to another block in between. -/
theorem dequeue_returns_seven :
    ∃ (during : List (QueueCommand Nat)) (q q' : ReaderWriterQueue Nat),
      Interleaving q during q' ∧ (q.sent, q'.sent, q'.received) = ([7], [7, 8], [7]) ∧
      (q'.consumer = .idle → ∃ x, q'.received = q.received ++ [x]) ∧
      (q'.consumer ≠ .idle → during.countP QueueCommand.isConsume < 10) := by
  have hsome : (runAll step (fun _ _ _ ↦ true) (new (1 : BitVec (8 * 8)) : ReaderWriterQueue Nat)
      (.enqueue 7 true :: List.replicate 5 .produce ++ [.dequeue])).bind (fun q ↦
        (runAll step (fun _ _ _ ↦ true) q (.consume :: .enqueue 8 true ::
          List.replicate 9 .produce ++ List.replicate 5 .consume)).map fun q' ↦
            (decide (q.consumer = .entered ∧ q.received = []), q.sent, q'.sent, q'.received)) =
      some (true, [7], [7, 8], [7]) := by
    decide +kernel
  obtain ⟨q, hq, hsome⟩ := Option.bind_eq_some_iff.mp hsome
  obtain ⟨q', hq', hlogs⟩ := Option.map_eq_some_iff.mp hsome
  obtain ⟨hq0, hlogs⟩ := Prod.mk.inj hlogs
  obtain ⟨hentered, hreceived⟩ := of_decide_eq_true hq0
  have hrun := (Run.of_runAll hq).mono (o := fun _ _ _ ↦ True) fun _ _ _ _ ↦ trivial
  have hcall := (Run.of_runAll hq').mono (o := fun _ _ _ ↦ True) fun _ _ _ _ ↦ trivial
  refine ⟨_, q, q', hcall, hlogs,
    dequeue_returns (by decide) (by decide) hrun hentered ?_ hcall (by decide)⟩
  rw [(Prod.mk.inj hlogs).1, hreceived]
  decide

/-! ## A call of `enqueue` -/

/-- A call with this element that began when this had been sent, and so many blocks had been made,
finds room or has found it. -/
private def Enqueuing (minimum : Nat) (element : α) (sent : List α) (allocated : Nat)
    (q : ReaderWriterQueue α) : Prop :=
  q.allocated = allocated ∧
    match q.producer with
    | .idle => q.sent = sent ++ [element]
    | .entered e _ =>
      e = element ∧ q.sent = sent ∧ q.sent.length + 1 < q.received.length + minimum
    | .tailBlockRead e _ _ =>
      e = element ∧ q.sent = sent ∧ q.sent.length + 1 < q.received.length + minimum
    | .frontRead e _ t f =>
      e = element ∧ q.sent = sent ∧ (q.blocks t).after (q.blocks t).tail ≠ f
    | .room e _ _ _ => e = element ∧ q.sent = sent
    | .constructed e _ _ => e = element ∧ q.sent = sent
    | _ => False

/-- When the queue holds fewer elements than it was made for, then the tail block has room. -/
private theorem Sound.room (h : Sound minimum q) {e : α} {a : Bool} {t : Nat}
    (hp : q.producer = .tailBlockRead e a t)
    (hroom : q.sent.length + 1 < q.received.length + minimum) :
    (q.blocks t).after (q.blocks t).tail ≠ (q.blocks t).front := by
  obtain ⟨live, free, view, h⟩ := h
  have hknows := h.producer_knows
  simp only [ProducerKnows, hp] at hknows
  obtain rfl := hknows
  have hshows := h.shows _ h.tail_mem
  obtain ⟨hle, k, hk⟩ := h.sizes _ h.tail_mem
  have hstart := h.start_eq _ h.tail_mem
  have hend := h.end_eq _ h.tail_mem
  rw [hp, show (Producer.tailBlockRead e a _).unpublished _ = 0 from rfl, Nat.add_zero] at hend
  have hlen := congrArg List.length h.sent_eq
  rw [hp] at hlen
  simp only [List.length_append, Producer.pending, List.length_nil, Nat.add_zero] at hlen
  have hcontent : (view q.tailBlock).content.length ≤
      ((live ++ free).flatMap fun n ↦ (view n).content).length := by
    obtain ⟨l, r, hsplit⟩ := List.append_of_mem h.tail_mem
    rw [hsplit, List.flatMap_append, List.flatMap_cons, List.length_append, List.length_append]
    omega
  have htaken : q.consumer.taken q.tailBlock ≤ q.consumer.result.length := by
    cases q.consumer with
    | moved f i x =>
      rw [Consumer.taken]
      split
      · exact le_rfl
      · exact Nat.zero_le _
    | _ => exact le_rfl
  rw [hshows.tail_eq, hshows.front_eq, Block.after_mod hk]
  exact succ_slot_ne (hshows.lo_le.trans hshows.start_le) (by omega)

/-- What a call of `enqueue` has found out stays right while the consumer goes on. -/
private theorem Enqueuing.consume {element : α} {sent : List α} {allocated : Nat}
    (hcall : Enqueuing minimum element sent allocated q) (hstep : q.consume = some (r, q')) :
    Enqueuing minimum element sent allocated q' := by
  have hframe := consume_frame hstep
  have hreceived := hframe.received_prefix.length_le
  obtain ⟨hallocated, hcall⟩ := hcall
  refine ⟨hframe.allocated_eq.trans hallocated, ?_⟩
  rw [hframe.producer_eq, hframe.sent_eq]
  cases hp : q.producer with
  | entered e a =>
    rw [hp] at hcall
    exact ⟨hcall.1, hcall.2.1, hcall.2.2.trans_le (Nat.add_le_add_right hreceived _)⟩
  | tailBlockRead e a t =>
    rw [hp] at hcall
    exact ⟨hcall.1, hcall.2.1, hcall.2.2.trans_le (Nat.add_le_add_right hreceived _)⟩
  | frontRead e a t f =>
    rw [hp] at hcall
    obtain ⟨htail, hsize⟩ := hframe.ends_eq t
    refine ⟨hcall.1, hcall.2.1, ?_⟩
    rw [Block.after, Block.sizeMask, htail, hsize]
    exact hcall.2.2
  | _ =>
    rw [hp] at hcall
    exact hcall

/-- A step of a call of `enqueue` that finds room. -/
private theorem Enqueuing.produce {element : α} {sent : List α} {allocated : Nat}
    (h : Sound minimum q) (hcall : Enqueuing minimum element sent allocated q)
    (hstep : q.produce = some (r, q')) :
    Enqueuing minimum element sent allocated q' ∧
      q'.producer.remaining + 1 ≤ q.producer.remaining := by
  obtain ⟨hallocated, hcall⟩ := hcall
  cases hp : q.producer with
  | idle =>
    rw [ReaderWriterQueue.produce, hp] at hstep
    cases hstep
  | entered e a =>
    rw [hp] at hcall
    simp only [ReaderWriterQueue.produce, hp] at hstep
    obtain ⟨-, rfl⟩ := Prod.mk.inj (Option.some.inj hstep)
    exact ⟨⟨hallocated, hcall⟩, le_rfl⟩
  | tailBlockRead e a t =>
    rw [hp] at hcall
    simp only [ReaderWriterQueue.produce, hp] at hstep
    obtain ⟨-, rfl⟩ := Prod.mk.inj (Option.some.inj hstep)
    exact ⟨⟨hallocated, hcall.1, hcall.2.1, h.room hp hcall.2.2⟩, le_rfl⟩
  | frontRead e a t f =>
    rw [hp] at hcall
    simp only [ReaderWriterQueue.produce, hp, ne_eq, hcall.2.2, not_false_iff, if_true] at hstep
    obtain ⟨-, rfl⟩ := Prod.mk.inj (Option.some.inj hstep)
    exact ⟨⟨hallocated, hcall.1, hcall.2.1⟩, le_rfl⟩
  | room e t i j =>
    rw [hp] at hcall
    simp only [ReaderWriterQueue.produce, hp, Option.bind_eq_bind, Option.bind_eq_some_iff] at hstep
    obtain ⟨b, -, hstep⟩ := hstep
    obtain ⟨-, rfl⟩ := Prod.mk.inj (Option.some.inj hstep)
    exact ⟨⟨hallocated, hcall⟩, le_rfl⟩
  | constructed e t j =>
    rw [hp] at hcall
    simp only [ReaderWriterQueue.produce, hp] at hstep
    obtain ⟨-, rfl⟩ := Prod.mk.inj (Option.some.inj hstep)
    refine ⟨⟨hallocated, ?_⟩, le_rfl⟩
    rw [← hcall.1, ← hcall.2]
  | _ =>
    rw [hp] at hcall
    exact hcall.elim

/-- What any step does to a call of `enqueue` that finds room. -/
private theorem Enqueuing.step {element : α} {sent : List α} {allocated : Nat}
    (hmin : 1 < minimum) (h : Sound minimum q)
    (hcall : Enqueuing minimum element sent allocated q) {command : QueueCommand α}
    (hcommand : command.isEnqueue = false) (hstep : q.step command = some (r, q')) :
    (Sound minimum q' ∧ Enqueuing minimum element sent allocated q') ∧
      q'.producer.remaining + (if command.isProduce then 1 else 0) ≤ q.producer.remaining := by
  have hsound := h.step hmin hstep
  cases command with
  | enqueue e a => cases hcommand
  | produce =>
    obtain ⟨hcall', hremaining⟩ := hcall.produce h hstep
    exact ⟨⟨hsound, hcall'⟩, hremaining⟩
  | dequeue =>
    rw [ReaderWriterQueue.step] at hstep
    split at hstep
    · obtain ⟨-, rfl⟩ := Prod.mk.inj (Option.some.inj hstep)
      exact ⟨⟨hsound, hcall⟩, le_rfl⟩
    · cases hstep
  | consume =>
    refine ⟨⟨hsound, hcall.consume hstep⟩, ?_⟩
    rw [(consume_frame hstep).producer_eq]
    exact le_rfl

/-- A call that has not returned has put nothing in yet, and has steps left. -/
private theorem Enqueuing.busy {element : α} {sent : List α} {allocated : Nat}
    (hcall : Enqueuing minimum element sent allocated q) (hbusy : q.producer ≠ .idle) :
    q.sent = sent ∧ 0 < q.producer.remaining := by
  obtain ⟨-, hcall⟩ := hcall
  cases hp : q.producer with
  | idle => exact absurd hp hbusy
  | entered e a =>
    rw [hp] at hcall
    exact ⟨hcall.2.1, Nat.succ_pos _⟩
  | tailBlockRead e a t =>
    rw [hp] at hcall
    exact ⟨hcall.2.1, Nat.succ_pos _⟩
  | frontRead e a t f =>
    rw [hp] at hcall
    exact ⟨hcall.2.1, Nat.succ_pos _⟩
  | room e t i j =>
    rw [hp] at hcall
    exact ⟨hcall.2, Nat.succ_pos _⟩
  | constructed e t j =>
    rw [hp] at hcall
    exact ⟨hcall.2, Nat.succ_pos _⟩
  | _ =>
    rw [hp] at hcall
    exact hcall.elim

/-- A call of `enqueue` or `try_enqueue` that begins when the queue holds fewer than `maxSize`
elements puts its element in after at most five steps of its own, and no block is made for it,
whatever the consumer does in between. -/
theorem enqueue_finds_room {bytes : Nat} {maxSize : BitVec (8 * bytes)} (hpos : 0 < maxSize.toNat)
    (hlt : maxSize.toNat < 2 ^ (8 * bytes - 1)) {before during : List (QueueCommand α)}
    (hrun : Interleaving (new maxSize) before q) {element : α} {canAlloc : Bool}
    (hentered : q.producer = .entered element canAlloc)
    (hroom : q.sent.length < q.received.length + maxSize.toNat) (hcall : Interleaving q during q')
    (hduring : ∀ command ∈ during, command.isEnqueue = false) :
    q'.allocated = q.allocated ∧
      (q'.producer = .idle → q'.sent = q.sent ++ [element]) ∧
      (q'.producer ≠ .idle → q'.sent = q.sent ∧ during.countP QueueCommand.isProduce < 5) := by
  have hmin : 1 < maxSize.toNat + 1 := Nat.succ_lt_succ hpos
  have hstart : Sound (maxSize.toNat + 1) q ∧
      Enqueuing (maxSize.toNat + 1) element q.sent q.allocated q := by
    refine ⟨sound_of_run hpos hlt hrun, rfl, ?_⟩
    rw [hentered]
    exact ⟨rfl, rfl, Nat.succ_lt_succ hroom⟩
  obtain ⟨⟨-, hallocated, hlast⟩, hcount⟩ := hcall.countP_add_rank_le QueueCommand.isProduce
    (fun s ↦ s.producer.remaining)
    (fun s ↦ Sound (maxSize.toNat + 1) s ∧
      Enqueuing (maxSize.toNat + 1) element q.sent q.allocated s)
    (fun s command r s' hs hcommand hstep ↦ hs.2.step hmin hs.1 hcommand hstep) hduring hstart
  rw [hentered] at hcount
  refine ⟨hallocated, fun hidle ↦ ?_, fun hbusy ↦ ?_⟩
  · rwa [hidle] at hlast
  · obtain ⟨hsent, hpos⟩ := Enqueuing.busy ⟨hallocated, hlast⟩ hbusy
    exact ⟨hsent, (Nat.lt_add_of_pos_right hpos).trans_le hcount⟩

/-- The slot of the element that has been taken out is used again, and no block is made. -/
theorem enqueue_finds_room_again :
    ∃ (during : List (QueueCommand Nat)) (q q' : ReaderWriterQueue Nat),
      Interleaving q during q' ∧ (q.sent, q.received, q'.sent) = ([7], [7], [7, 8]) ∧
      q'.allocated = q.allocated ∧ (q'.producer = .idle → q'.sent = q.sent ++ [8]) ∧
      (q'.producer ≠ .idle → q'.sent = q.sent ∧ during.countP QueueCommand.isProduce < 5) := by
  have hsome : (runAll step (fun _ _ _ ↦ true) (new (1 : BitVec (8 * 8)) : ReaderWriterQueue Nat)
      (.enqueue 7 false :: List.replicate 5 .produce ++ .dequeue :: List.replicate 6 .consume ++
        [.enqueue 8 false])).bind (fun q ↦
        (runAll step (fun _ _ _ ↦ true) q (.produce :: .dequeue :: .consume ::
          List.replicate 4 .produce)).map fun q' ↦
            (decide (q.producer = .entered 8 false), q.sent, q.received, q'.sent)) =
      some (true, [7], [7], [7, 8]) := by
    decide +kernel
  obtain ⟨q, hq, hsome⟩ := Option.bind_eq_some_iff.mp hsome
  obtain ⟨q', hq', hlogs⟩ := Option.map_eq_some_iff.mp hsome
  obtain ⟨hq0, hlogs⟩ := Prod.mk.inj hlogs
  have hrun := (Run.of_runAll hq).mono (o := fun _ _ _ ↦ True) fun _ _ _ _ ↦ trivial
  have hcall := (Run.of_runAll hq').mono (o := fun _ _ _ ↦ True) fun _ _ _ _ ↦ trivial
  refine ⟨_, q, q', hcall, hlogs, enqueue_finds_room (by decide) (by decide) hrun
    (of_decide_eq_true hq0) ?_ hcall (by decide)⟩
  rw [(Prod.mk.inj hlogs).1, (Prod.mk.inj (Prod.mk.inj hlogs).2).1]
  decide

end ReaderWriterQueue

end Vuknob
