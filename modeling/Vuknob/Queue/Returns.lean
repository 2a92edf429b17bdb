import Vuknob.Queue.ReaderWriterQueue

/-!
# What a call goes on with and returns

The result of a step says whether the call goes on, and if it has returned, what it has done to the
elements that have been sent and received.
-/

namespace Vuknob

variable {α : Type}

/-- The call of `enqueue` or `try_enqueue` is for this element; while it has not found a place for
it, it knows whether it may make a block. -/
def Producer.Serves (element : α) (canAlloc : Bool) : Producer α → Prop
  | .idle => False
  | .entered e a => e = element ∧ a = canAlloc
  | .tailBlockRead e a _ => e = element ∧ a = canAlloc
  | .frontRead e a _ _ => e = element ∧ a = canAlloc
  | .full e a _ => e = element ∧ a = canAlloc
  | .nextRead e a _ _ => e = element ∧ a = canAlloc
  | .room e _ _ _ => e = element
  | .constructed e _ _ => e = element
  | .ahead e _ => e = element
  | .aheadRead e _ => e = element
  | .aheadFront e _ _ => e = element
  | .aheadTail e _ _ => e = element
  | .aheadConstructed e _ _ => e = element
  | .filled e _ => e = element
  | .allocate e _ => e = element
  | .allocated e _ _ => e = element
  | .nextWritten e _ _ => e = element

namespace ReaderWriterQueue

/-- What a step of the producer has done to what has been sent. -/
def ProducerReturns (element : α) (canAlloc : Bool) (q : ReaderWriterQueue α) :
    QueueResult α → ReaderWriterQueue α → Prop
  | .internal, q' => q'.sent = q.sent ∧ q'.producer.Serves element canAlloc
  | .enqueued, q' => q'.sent = q.sent ++ [element] ∧ q'.producer = .idle
  | .refused, q' => canAlloc = false ∧ q'.sent = q.sent ∧ q'.producer = .idle
  | _, _ => False

/-- What a step of the consumer has done to what has been received. -/
def ConsumerReturns (q : ReaderWriterQueue α) : QueueResult α → ReaderWriterQueue α → Prop
  | .internal, q' => q'.received = q.received ∧ q'.consumer ≠ .idle
  | .dequeued x, q' => q'.received = q.received ++ [x] ∧ q'.consumer = .idle
  | .empty, q' => q'.received = q.received ∧ q'.consumer = .idle
  | _, _ => False

variable {q q' : ReaderWriterQueue α} {r : QueueResult α}

/-- A call of `enqueue` goes on for its element, or returns. -/
theorem produce_returns {element : α} {canAlloc : Bool}
    (hserves : q.producer.Serves element canAlloc) (hstep : q.produce = some (r, q')) :
    ProducerReturns element canAlloc q r q' ∧
      q'.received = q.received ∧ q'.consumer = q.consumer := by
  cases hp : q.producer with
  | idle =>
    rw [hp] at hserves
    exact hserves.elim
  | frontRead e a t f =>
    rw [hp] at hserves
    simp only [produce, hp] at hstep
    split at hstep
    · obtain ⟨rfl, rfl⟩ := Prod.mk.inj (Option.some.inj hstep)
      exact ⟨⟨rfl, hserves.1⟩, rfl, rfl⟩
    · obtain ⟨rfl, rfl⟩ := Prod.mk.inj (Option.some.inj hstep)
      exact ⟨⟨rfl, hserves⟩, rfl, rfl⟩
  | nextRead e a t n =>
    rw [hp] at hserves
    obtain ⟨rfl, rfl⟩ := hserves
    simp only [produce, hp] at hstep
    repeat' split at hstep
    · obtain ⟨rfl, rfl⟩ := Prod.mk.inj (Option.some.inj hstep)
      exact ⟨⟨rfl, rfl⟩, rfl, rfl⟩
    · obtain ⟨rfl, rfl⟩ := Prod.mk.inj (Option.some.inj hstep)
      exact ⟨⟨rfl, rfl⟩, rfl, rfl⟩
    · next hcannot =>
      obtain ⟨rfl, rfl⟩ := Prod.mk.inj (Option.some.inj hstep)
      exact ⟨⟨Bool.eq_false_of_not_eq_true hcannot, rfl, rfl⟩, rfl, rfl⟩
  | constructed e t j =>
    rw [hp] at hserves
    obtain rfl := hserves
    simp only [produce, hp] at hstep
    obtain ⟨rfl, rfl⟩ := Prod.mk.inj (Option.some.inj hstep)
    exact ⟨⟨rfl, rfl⟩, rfl, rfl⟩
  | filled e n =>
    rw [hp] at hserves
    obtain rfl := hserves
    simp only [produce, hp] at hstep
    obtain ⟨rfl, rfl⟩ := Prod.mk.inj (Option.some.inj hstep)
    exact ⟨⟨rfl, rfl⟩, rfl, rfl⟩
  | aheadFront e n f =>
    rw [hp] at hserves
    simp only [produce, hp] at hstep
    split at hstep
    · obtain ⟨rfl, rfl⟩ := Prod.mk.inj (Option.some.inj hstep)
      exact ⟨⟨rfl, hserves⟩, rfl, rfl⟩
    · cases hstep
  | allocate e t =>
    rw [hp] at hserves
    simp only [produce, hp, Option.bind_eq_bind, Option.bind_eq_some_iff] at hstep
    obtain ⟨b, -, hstep⟩ := hstep
    split at hstep
    · obtain ⟨rfl, rfl⟩ := Prod.mk.inj (Option.some.inj hstep)
      exact ⟨⟨rfl, hserves⟩, rfl, rfl⟩
    · cases hstep
  | room | full | ahead | aheadTail =>
    rw [hp] at hserves
    simp only [produce, hp, Option.bind_eq_bind, Option.bind_eq_some_iff] at hstep
    obtain ⟨_, -, hstep⟩ := hstep
    obtain ⟨rfl, rfl⟩ := Prod.mk.inj (Option.some.inj hstep)
    exact ⟨⟨rfl, hserves⟩, rfl, rfl⟩
  | _ =>
    rw [hp] at hserves
    simp only [produce, hp] at hstep
    obtain ⟨rfl, rfl⟩ := Prod.mk.inj (Option.some.inj hstep)
    exact ⟨⟨rfl, hserves⟩, rfl, rfl⟩

/-- A call of `try_dequeue` goes on, or returns. -/
theorem consume_returns (hstep : q.consume = some (r, q')) :
    ConsumerReturns q r q' ∧ q'.sent = q.sent ∧ q'.producer = q.producer := by
  cases hc : q.consumer with
  | idle =>
    rw [consume, hc] at hstep
    cases hstep
  | tailRead t f i =>
    simp only [consume, hc] at hstep
    repeat' split at hstep
    all_goals
      obtain ⟨rfl, rfl⟩ := Prod.mk.inj (Option.some.inj hstep)
    · exact ⟨⟨rfl, (fun h ↦ by cases h)⟩, rfl, rfl⟩
    · exact ⟨⟨rfl, (fun h ↦ by cases h)⟩, rfl, rfl⟩
    · exact ⟨⟨rfl, rfl⟩, rfl, rfl⟩
  | moved f i x =>
    simp only [consume, hc] at hstep
    obtain ⟨rfl, rfl⟩ := Prod.mk.inj (Option.some.inj hstep)
    exact ⟨⟨rfl, rfl⟩, rfl, rfl⟩
  | element | advance =>
    simp only [consume, hc, Option.bind_eq_bind, Option.bind_eq_some_iff] at hstep
    obtain ⟨_, -, hstep⟩ := hstep
    obtain ⟨rfl, rfl⟩ := Prod.mk.inj (Option.some.inj hstep)
    exact ⟨⟨rfl, (fun h ↦ by cases h)⟩, rfl, rfl⟩
  | nextFront n i =>
    simp only [consume, hc] at hstep
    split at hstep
    · obtain ⟨rfl, rfl⟩ := Prod.mk.inj (Option.some.inj hstep)
      exact ⟨⟨rfl, (fun h ↦ by cases h)⟩, rfl, rfl⟩
    · cases hstep
  | _ =>
    simp only [consume, hc] at hstep
    obtain ⟨rfl, rfl⟩ := Prod.mk.inj (Option.some.inj hstep)
    exact ⟨⟨rfl, (fun h ↦ by cases h)⟩, rfl, rfl⟩

end ReaderWriterQueue

end Vuknob
