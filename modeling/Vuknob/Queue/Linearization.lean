import Vuknob.Queue.ConsumerSteps
import Vuknob.Queue.ProducerSteps

/-!
# What the calls of the two threads do

In every order of the steps, elements come out in the order in which they went in, no assertion
fails, and a call sees what was in the queue when it began.
-/

namespace Vuknob

open Library

variable {α : Type}

namespace ReaderWriterQueue

/-- What both threads rely on holds for some blocks in use and some free blocks. -/
def Sound (minimum : Nat) (q : ReaderWriterQueue α) : Prop :=
  ∃ live free view, Consistent minimum q live free view

/-- An element that is not in the queue yet is in a block. -/
private theorem Consistent.pending_le {minimum : Nat} {q : ReaderWriterQueue α}
    {live free : List Nat} {view : Nat → BufferView α} (h : Consistent minimum q live free view) :
    q.producer.pending.length ≤ ((live ++ free).flatMap fun n ↦ (view n).content).length := by
  have hblock {n : Nat} (hn : n ∈ live ++ free) (hlen : 0 < (view n).content.length) :
      1 ≤ ((live ++ free).flatMap fun n ↦ (view n).content).length := by
    obtain ⟨x, hx⟩ := List.exists_mem_of_length_pos hlen
    exact List.length_pos_of_mem (List.mem_flatMap.mpr ⟨n, hn, hx⟩)
  have hfree {n : Nat} {e : α} (hn : free.head? = some n) (hwaiting : q.producer.waiting n = [e]) :
      1 ≤ ((live ++ free).flatMap fun n ↦ (view n).content).length := by
    have hmem := List.mem_of_head? hn
    refine hblock (List.mem_append_right _ hmem) ?_
    rw [h.free_eq n hmem, hwaiting]
    exact Nat.one_pos
  have hknows := h.producer_knows
  unfold ProducerKnows at hknows
  cases hp : q.producer with
  | constructed e t j =>
    rw [hp] at hknows
    refine hblock h.tail_mem ?_
    have hend := h.end_eq _ h.tail_mem
    have hstart := (h.shows _ h.tail_mem).start_le
    rw [hp, Producer.unpublished, if_pos hknows.1.symm] at hend
    omega
  | aheadConstructed e n i =>
    rw [hp] at hknows
    exact hfree hknows.1 (by rw [hp]; exact if_pos rfl)
  | filled e n =>
    rw [hp] at hknows
    exact hfree hknows (by rw [hp]; exact if_pos rfl)
  | _ => exact Nat.zero_le _

/-- What has been received is what was sent first. -/
theorem Sound.received_prefix {minimum : Nat} {q : ReaderWriterQueue α} (h : Sound minimum q) :
    q.received <+: q.sent := by
  obtain ⟨live, free, view, h⟩ := h
  have hsent := h.sent_eq
  have hlen := congrArg List.length hsent
  have hpending := h.pending_le
  simp only [List.length_append] at hlen
  rw [List.append_assoc] at hsent
  have hreceived : q.received <+: q.sent ++ q.producer.pending := by
    rw [hsent]
    exact List.prefix_append _ _
  exact List.prefix_of_prefix_length_le hreceived (List.prefix_append _ _) (by omega)

/-- A queue that has just been constructed. -/
theorem sound_new {bytes : Nat} {maxSize : BitVec (8 * bytes)} (hpos : 0 < maxSize.toNat)
    (hlt : maxSize.toNat < 2 ^ (8 * bytes - 1)) :
    Sound (maxSize.toNat + 1) (new maxSize : ReaderWriterQueue α) := by
  have hbytes : 0 < bytes := by
    by_contra h
    simp_all
  have hone : (1 : BitVec (8 * bytes)).toNat = 1 := by
    rw [BitVec.ofNat_eq_ofNat, BitVec.toNat_ofNat]
    exact Nat.mod_eq_of_lt (Nat.one_lt_two_pow (by omega))
  have hpow : 2 ^ (8 * bytes - 1) < 2 ^ (8 * bytes) :=
    Nat.pow_lt_pow_right Nat.one_lt_two (by omega)
  have hsucc : (maxSize + 1).toNat = maxSize.toNat + 1 := by
    rw [BitVec.toNat_add_of_lt (by rw [hone]; omega), hone]
  have hceil : (ceilToPow2 (maxSize + 1)).toNat = 2 ^ Nat.clog 2 (maxSize.toNat + 1) := by
    rw [toNat_ceilToPow2 (by rw [hsucc]; exact Nat.succ_pos _) (by rw [hsucc]; exact hlt), hsucc]
  have hle : maxSize.toNat + 1 ≤ (ceilToPow2 (maxSize + 1)).toNat := by
    rw [hceil]
    exact Nat.le_pow_clog Nat.one_lt_two _
  have hsize : GoodSize (maxSize.toNat + 1) ((new maxSize : ReaderWriterQueue α).blocks 0) :=
    ⟨hle, _, hceil⟩
  refine ⟨[0], [], fun _ ↦ ⟨0, 0, 0, []⟩, ⟨Cyclic.singleton rfl, List.nodup_singleton 0, ?_, rfl, rfl,
    fun n hn ↦ ?_, fun n hn ↦ ?_, ⟨hle, _, hceil⟩, ?_, fun n _ ↦ rfl, fun n _ ↦ rfl, ?_, rfl⟩,
    trivial, trivial⟩
  · intro n hn
    rw [List.mem_singleton.mp hn]
    exact Nat.one_pos
  · exact CircularBuffer.shows_empty (Nat.zero_lt_of_lt hle)
  · exact hsize
  · exact List.forall_mem_nil _
  · exact List.forall_mem_nil _

variable {minimum : Nat} {q q' : ReaderWriterQueue α} {r : QueueResult α}

/-- Every step of every thread keeps to what the other one relies on. -/
theorem Sound.step (hmin : 1 < minimum) (h : Sound minimum q) {command : QueueCommand α}
    (hstep : q.step command = some (r, q')) : Sound minimum q' := by
  obtain ⟨live, free, view, h⟩ := h
  cases command with
  | enqueue e a =>
    rw [ReaderWriterQueue.step] at hstep
    split at hstep
    · next hp =>
      obtain ⟨-, rfl⟩ := Prod.mk.inj (Option.some.inj hstep)
      exact ⟨live, free, view, h.toRing.setProducer (by rw [hp]; exact fun _ ↦ rfl)
        (by rw [hp]; exact fun _ ↦ rfl) (by rw [hp]; rfl), trivial, h.consumer_knows⟩
    · cases hstep
  | dequeue =>
    rw [ReaderWriterQueue.step] at hstep
    split at hstep
    · next hc =>
      obtain ⟨-, rfl⟩ := Prod.mk.inj (Option.some.inj hstep)
      exact ⟨live, free, view, h.toRing.setConsumer (by rw [hc]; exact fun _ ↦ rfl)
        (by rw [hc]; rfl), h.producer_knows, trivial⟩
    · cases hstep
  | produce =>
    have hbusy : q.producer ≠ .idle := by
      intro hp
      rw [ReaderWriterQueue.step, produce, hp] at hstep
      cases hstep
    obtain ⟨r', s, live', free', view', hstep', h'⟩ := h.produce hmin hbusy
    obtain ⟨-, rfl⟩ := Prod.mk.inj (Option.some.inj (hstep.symm.trans hstep'))
    exact ⟨live', free', view', h'⟩
  | consume =>
    have hbusy : q.consumer ≠ .idle := by
      intro hc
      rw [ReaderWriterQueue.step, consume, hc] at hstep
      cases hstep
    obtain ⟨r', s, live', free', view', hstep', h'⟩ := h.consume hbusy
    obtain ⟨-, rfl⟩ := Prod.mk.inj (Option.some.inj (hstep.symm.trans hstep'))
    exact ⟨live', free', view', h'⟩

/-- A run of the two threads, in any order of their steps. -/
abbrev Interleaving : ReaderWriterQueue α → List (QueueCommand α) → ReaderWriterQueue α → Prop :=
  Run step fun _ _ _ ↦ True

/-- What holds in a new queue holds after every run. -/
theorem sound_of_run {bytes : Nat} {maxSize : BitVec (8 * bytes)} (hpos : 0 < maxSize.toNat)
    (hlt : maxSize.toNat < 2 ^ (8 * bytes - 1)) {commands : List (QueueCommand α)}
    (hrun : Interleaving (new maxSize) commands q) : Sound (maxSize.toNat + 1) q :=
  hrun.invariant (Sound (maxSize.toNat + 1))
    (fun _ _ _ _ h _ hstep ↦ h.step (Nat.succ_lt_succ hpos) hstep) (sound_new hpos hlt)

/-- In every order of the steps of the two threads, elements come out in the order in which they
went in, none twice and none left out, and the next step of a call is always defined: no assertion
fails, no null pointer is followed, only a slot that holds an element is read and only one that
holds none is written. -/
theorem first_in_first_out {bytes : Nat} {maxSize : BitVec (8 * bytes)} (hpos : 0 < maxSize.toNat)
    (hlt : maxSize.toNat < 2 ^ (8 * bytes - 1)) {commands : List (QueueCommand α)}
    (hrun : Interleaving (new maxSize) commands q) :
    q.received <+: q.sent ∧ (q.producer ≠ .idle → q.produce.isSome) ∧
      (q.consumer ≠ .idle → q.consume.isSome) := by
  have h := sound_of_run hpos hlt hrun
  refine ⟨h.received_prefix, fun hbusy ↦ ?_, fun hbusy ↦ ?_⟩
  · obtain ⟨_, _, _, h⟩ := h
    obtain ⟨_, _, _, _, _, hstep, _⟩ := h.produce (Nat.succ_lt_succ hpos) hbusy
    exact Option.isSome_of_eq_some hstep
  · obtain ⟨_, _, _, h⟩ := h
    obtain ⟨_, _, _, _, _, hstep, _⟩ := h.consume hbusy
    exact Option.isSome_of_eq_some hstep

/-- The second element needs a block of its own, which is made while the first is taken out. -/
theorem first_in_first_out_two_blocks :
    ∃ (commands : List (QueueCommand Nat)) (q : ReaderWriterQueue Nat),
      Interleaving (new (1 : BitVec (8 * 8))) commands q ∧
      (q.sent, q.received, q.allocated) = ([7, 8], [7, 8], 2) ∧
      q.received <+: q.sent ∧ (q.producer ≠ .idle → q.produce.isSome) ∧
      (q.consumer ≠ .idle → q.consume.isSome) := by
  have hsome : (runAll step (fun _ _ _ ↦ true) (new (1 : BitVec (8 * 8)) : ReaderWriterQueue Nat)
      (.enqueue 7 true :: List.replicate 5 .produce ++ [.dequeue, .consume, .enqueue 8 true] ++
        List.replicate 4 .produce ++ List.replicate 2 .consume ++ List.replicate 5 .produce ++
        List.replicate 3 .consume ++ .dequeue :: List.replicate 10 .consume)).map (fun q ↦
      (q.sent, q.received, q.allocated)) = some ([7, 8], [7, 8], 2) := by
    decide +kernel
  obtain ⟨q, hq, hlogs⟩ := Option.map_eq_some_iff.mp hsome
  have hrun := (Run.of_runAll hq).mono (o := fun _ _ _ ↦ True) fun _ _ _ _ ↦ trivial
  exact ⟨_, q, hrun, hlogs, first_in_first_out (by decide) (by decide) hrun⟩

end ReaderWriterQueue

end Vuknob
