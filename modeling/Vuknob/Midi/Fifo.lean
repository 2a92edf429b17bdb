import Vuknob.Library.Delivery
import Vuknob.Library.Runs
import Vuknob.Midi.Calls

/-!
# No event is lost or overtaken

A log is kept for every builder of the events it was told to queue and of the slots it wrote them
to. The slots answer the queued events one by one, and what has not been written is on the
remaining chain. The chains are those of `src_jni/midi_generation.cc:66–203`.
-/

namespace Vuknob

open Library

/-- The bytes of an event that count. -/
def MidiEvent.message (event : MidiEvent) : List UInt8 := event.data.take event.length

/-- The message that a call queues. -/
def MidiCall.message : MidiCall → List UInt8
  | .queueNoteOn note velocity channel =>
    [statusByte midiNoteOn channel, lowByte note, lowByte velocity]
  | .queueNoteOff note velocity channel =>
    [statusByte midiNoteOff channel, lowByte note, lowByte velocity]
  | .queueController controller value channel =>
    [statusByte midiControlChange channel, lowByte controller, lowByte value]
  | .queuePitchBend valueLsb valueMsb channel =>
    [statusByte midiPitchBend channel, lowByte valueLsb, lowByte valueMsb]
  | _ => []

/-- What a call has written to the buffer: `use_buffer` starts a new one. -/
def MidiCall.written (call : MidiCall) (before after : MidiEventBuilder) : List (Int × EventId) :=
  match call with
  | .useBuffer _ => after.buffer
  | _ => after.buffer.drop before.buffer.length

namespace MidiSpace

variable {ι : Type} (s : MidiSpace ι)

/-- An event with the message it holds. -/
def item (e : EventId) : EventId × List UInt8 := (e, (s.heap.nodes e).event.message)

/-- The events on a chain, from its head on. -/
def chain (p : Place ι) : List EventId :=
  (walk (fun e ↦ some (s.heap.next e)) s.heap.count (s.head p)).getD []

/-- The last event of a chain, as the first one knows it. -/
def KnowsTail (p : Place ι) : Prop :=
  ∀ e, s.head p = some e → (s.heap.nodes e).lastInChain = (s.chain p).getLast?

/-- Every event that was allocated from the address `base` on is on exactly one chain, once. -/
def Partitioned (base : Nat) : Prop :=
  (∀ e : Nat, base ≤ e → e < s.heap.count → ∃! p, e ∈ s.chain p) ∧ ∀ p, (s.chain p).Nodup

theorem Represents.chain_eq {s : MidiSpace ι} {nodes : Place ι → List EventId}
    (hr : s.Represents nodes) (p : Place ι) : s.chain p = nodes p := by
  have hlist := hr.chains.linked p
  rw [chain, (walk_eq_some_iff _ _ _ _).mpr ⟨hlist, hr.length_le p⟩, Option.getD_some]

end MidiSpace

/-- The use of one builder: the number of buffers it was given, the size of the last one with
the ticks skipped in it, the events queued and the slots written. -/
structure MidiLog where
  round : Nat
  size : Int
  offset : Int
  requests : List (Request (EventId × List UInt8))
  receipts : List (Receipt (EventId × List UInt8))

/-- A builder that has not been used. -/
def MidiLog.empty : MidiLog := ⟨0, 0, 0, [], []⟩

/-- The buffer that is in use after a call and what has been skipped in it. -/
def MidiLog.turn (log : MidiLog) : MidiCall → MidiLog
  | .useBuffer bufferSize =>
    { log with round := log.round + 1, size := bufferSize.toInt, offset := 0 }
  | .skip skipLength => { log with offset := log.offset + skipLength.toInt }
  | _ => log

/-- Take down the event that a call queued, and those that it wrote. -/
def MidiLog.note (log : MidiLog) (queued : Option (EventId × List UInt8))
    (written : List (Int × EventId × List UInt8)) : MidiLog :=
  { log with
    requests := log.requests ++ queued.toList.map fun item ↦ ⟨item, log.round, log.offset⟩
    receipts := log.receipts ++ written.map fun w ↦ ⟨w.2, log.round, w.1, log.size⟩ }

/-- The builders with their logs. -/
structure Logged (ι : Type) where
  space : MidiSpace ι
  logs : ι → MidiLog

namespace Logged

variable {ι : Type} [DecidableEq ι]

/-- A call, with an entry in the log. -/
def step (w : Logged ι) : ι × MidiCall → Option (Option EventId × Logged ι)
  | (b, call) =>
    (w.space.step (b, call)).map fun (mev, s) ↦
      (mev, ⟨s, Function.update w.logs b (((w.logs b).turn call).note
        (mev.map fun e ↦ (e, call.message))
        ((call.written (w.space.builders b) (s.builders b)).map fun e ↦ (e.1, s.item e.2)))⟩)

/-- The builders before anything was called. -/
def start (s : MidiSpace ι) : Logged ι := ⟨s, fun _ ↦ .empty⟩

end Logged

/-! ### Slots and messages -/

theorem MidiHeap.chainToTail_event {h h' : MidiHeap} {chain c : Option EventId} {source : EventId}
    (hc : h.chainToTail chain source = some (c, h')) (x : EventId) :
    (h'.nodes x).event = (h.nodes x).event := by
  unfold MidiHeap.chainToTail at hc
  split at hc
  · obtain ⟨_, rfl⟩ := Prod.mk.inj (Option.some.inj hc)
    rfl
  · split at hc
    · cases hc
    · obtain ⟨_, rfl⟩ := Prod.mk.inj (Option.some.inj hc)
      simp only [MidiHeap.modify, Function.update_apply]
      split_ifs <;> simp_all

theorem MidiHeap.popNextFreeMidi_length {h h' : MidiHeap} {size : Nat} {e : EventId}
    (hp : h.popNextFreeMidi size = (e, h')) : (h'.nodes e).event.length = size := by
  unfold MidiHeap.popNextFreeMidi at hp
  split at hp <;>
  · obtain ⟨rfl, rfl⟩ := Prod.mk.inj hp
    simp

namespace Building

variable {g g' : Building}

/-- Placing an event writes it to the slot that the builder is at. -/
theorem place_eq {e : EventId} (h : g.place e = some g') :
    g.builder.attached = true ∧
      g'.builder.buffer = g.builder.buffer ++ [(g.builder.bufferPosition, e)] ∧
      g'.builder.bufferPosition = g.builder.bufferPosition + 1 ∧
      g'.builder.bufferSize = g.builder.bufferSize ∧
      ∀ x, (g'.heap.nodes x).event = (g.heap.nodes x).event := by
  unfold place at h
  split at h
  · next hatt =>
    obtain ⟨⟨c, h'⟩, hc, rfl⟩ := Option.map_eq_some_iff.mp h
    exact ⟨hatt, rfl, rfl, rfl, MidiHeap.chainToTail_event hc⟩
  · cases h

/-- Events from the remaining chain go to consecutive slots. -/
theorem processRemainingChain_buffer {fuel : Nat} (h : processRemainingChain fuel g = some g') :
    ∃ moved, g'.builder.buffer =
        g.builder.buffer ++ placesFrom g.builder.bufferPosition moved ∧
      (moved = [] ∨ g.builder.bufferPosition + moved.length ≤ g.builder.bufferSize) := by
  induction fuel generalizing g with
  | zero =>
    rw [processRemainingChain] at h
    split at h
    · split at h
      · obtain rfl := Option.some.inj h
        exact ⟨[], by simp [placesFrom], .inl rfl⟩
      · cases h
    · obtain rfl := Option.some.inj h
      exact ⟨[], by simp [placesFrom], .inl rfl⟩
  | succ fuel ih =>
    rw [processRemainingChain] at h
    split at h
    · next hroom =>
      split at h
      · obtain rfl := Option.some.inj h
        exact ⟨[], by simp [placesFrom], .inl rfl⟩
      · next e _ =>
        obtain ⟨g₁, hg₁, h⟩ := Option.bind_eq_some_iff.mp h
        obtain ⟨_, hbuffer, hposition, hsize, _⟩ := place_eq hg₁
        obtain ⟨moved, hmoved, hle⟩ := ih h
        refine ⟨e :: moved, ?_, .inr ?_⟩
        · rw [hmoved, hbuffer, hposition, placesFrom, List.append_assoc]
          rfl
        · rw [hposition, hsize] at hle
          simp only [List.length_cons] at hle ⊢
          rcases hle with rfl | hle
          · simp only [List.length_nil]
            omega
          · omega
    · obtain rfl := Option.some.inj h
      exact ⟨[], by simp [placesFrom], .inl rfl⟩

theorem useBuffer_buffer {bufferSize : Int} (h : g.useBuffer bufferSize = some g') :
    ∃ moved, g'.builder.buffer = placesFrom 0 moved ∧
      (moved = [] ∨ moved.length ≤ bufferSize) := by
  obtain ⟨moved, hbuffer, hle⟩ := processRemainingChain_buffer h
  simp only [List.nil_append, Int.zero_add] at hbuffer hle
  exact ⟨moved, hbuffer, hle⟩

/-- A queued event holds the message, and goes to the slot that the builder is at if the buffer
has one. -/
theorem queue_buffer {status first second : UInt8} {e : EventId}
    (h : g.queue status first second = some (e, g')) :
    (g'.heap.nodes e).event.message = [status, first, second] ∧
      g'.builder.buffer =
        if g.builder.bufferPosition < g.builder.bufferSize then
          g.builder.buffer ++ [(g.builder.bufferPosition, e)]
        else g.builder.buffer := by
  unfold queue at h
  cases hpop : g.heap.popNextFreeMidi 3 with
  | mk mev heap =>
    simp only [hpop] at h
    obtain ⟨g₁, hchain, heq⟩ := Option.map_eq_some_iff.mp h
    obtain ⟨rfl, rfl⟩ := Prod.mk.inj heq
    have hlength := MidiHeap.popNextFreeMidi_length hpop
    unfold chainEvent at hchain
    split at hchain
    · next hfull =>
      obtain ⟨⟨c, h'⟩, hc, rfl⟩ := Option.map_eq_some_iff.mp hchain
      refine ⟨?_, (if_neg (by simpa using hfull)).symm⟩
      rw [MidiHeap.chainToTail_event hc]
      simp [MidiEvent.message, hlength]
    · next hroom =>
      obtain ⟨_, hbuffer, _, _, hevent⟩ := place_eq hchain
      refine ⟨?_, hbuffer.trans (if_pos (by simpa using hroom)).symm⟩
      rw [hevent]
      simp [MidiEvent.message, hlength]

theorem processFreeableChain_builder {fuel : Nat} (h : processFreeableChain fuel g = some g') :
    g'.builder =
      { g.builder with freeableMidiChain := g'.builder.freeableMidiChain } := by
  induction fuel generalizing g with
  | zero =>
    rw [processFreeableChain] at h
    split at h
    · obtain rfl := Option.some.inj h
      rfl
    · cases h
  | succ fuel ih =>
    rw [processFreeableChain] at h
    split at h
    · obtain rfl := Option.some.inj h
      rfl
    · have hrest := ih h
      exact hrest

end Building

theorem MidiSpace.step_queue {ι : Type} [DecidableEq ι] {s s' : MidiSpace ι} {b : ι}
    {call : MidiCall} {r : Option EventId} (hq : call.queues = true)
    (h : s.step (b, call) = some (r, s')) :
    ∃ status first second e g, call.message = [status, first, second] ∧ r = some e ∧
      s' = s.put b g ∧ (s.building b).queue status first second = some (e, g) := by
  cases call with
  | useBuffer | finishCurrentBuffer | skip => cases hq
  | queueNoteOn | queueNoteOff | queueController | queuePitchBend =>
    simp only [step, Building.queueNoteOn, Building.queueNoteOff, Building.queueController,
      Building.queuePitchBend, Option.map_eq_some_iff, Prod.mk.injEq] at h
    obtain ⟨⟨e, g⟩, hg, rfl, rfl⟩ := h
    exact ⟨_, _, _, e, g, rfl, rfl, rfl, hg⟩

/-! ### What every call keeps -/

/-- The log agrees with the members of the builder, and the buffer is full if events remain. -/
structure MidiLog.Fits (log : MidiLog) (x : MidiEventBuilder) (remaining : List EventId) :
    Prop where
  unused : log.round = 0 → x.attached = false
  offset : log.round ≠ 0 → log.offset = x.bufferPLastSkip
  finished : log.round ≠ 0 → x.attached = false → x.bufferSize ≤ x.bufferPosition
  size : x.attached = true → log.size = x.bufferSize
  position : x.attached = true → log.offset ≤ x.bufferPosition
  waiting : x.attached = true → remaining = [] ∨ x.bufferSize ≤ x.bufferPosition

/-- The log is lossless up to the slot that the builder is at. -/
def MidiLog.Delivers (log : MidiLog) (x : MidiEventBuilder)
    (waiting : List (EventId × List UInt8)) : Prop :=
  ∃ position, Delivering log.requests log.receipts waiting log.round position ∧
    (x.attached = true → position = x.bufferPosition)

namespace Logged

variable {ι : Type} {w w' : Logged ι} {nodes : Place ι → List EventId} {b : ι} {base : Nat}

/-- What holds between any two calls, when the addresses from `base` on were free at the start. -/
structure Kept (base : Nat) (w : Logged ι) (nodes : Place ι → List EventId) : Prop where
  represents : w.space.Represents nodes
  covered : ∀ e : Nat, base ≤ e → e < w.space.heap.count → ∃ p, e ∈ nodes p
  fits : ∀ b, (w.logs b).Fits (w.space.builders b) (nodes (.remaining b))
  delivers : ∀ b, (w.logs b).Delivers (w.space.builders b)
    ((nodes (.remaining b)).map w.space.item)

variable [DecidableEq ι]

theorem item_of_sameEvents {g : Building} (h : Building.SameEvents w.space.heap g.heap) :
    (w.space.put b g).item = w.space.item := by
  ext1 e
  simp only [MidiSpace.item, MidiSpace.put_heap, h.2]

/-- What has to be shown when one builder has been at work. -/
private theorem Kept.put (hk : w.Kept base nodes) {g : Building} {log : MidiLog}
    {nodes' : Place ι → List EventId} (hr : (w.space.put b g).Represents nodes')
    (hcovered : ∀ e : Nat, base ≤ e → e < g.heap.count → ∃ p, e ∈ nodes' p)
    (hother : ∀ a, a ≠ b → nodes' (.remaining a) = nodes (.remaining a))
    (hitem : ∀ a, a ≠ b → ∀ e ∈ nodes (.remaining a),
      (w.space.put b g).item e = w.space.item e)
    (hfits : log.Fits g.builder (nodes' (.remaining b)))
    (hdelivers : log.Delivers g.builder
      ((nodes' (.remaining b)).map (w.space.put b g).item)) :
    Kept base ⟨w.space.put b g, Function.update w.logs b log⟩ nodes' := by
  refine ⟨hr, hcovered, fun a ↦ ?_, fun a ↦ ?_⟩
  · rcases eq_or_ne a b with rfl | ha
    · simpa using hfits
    · simpa [ha, hother a ha, MidiSpace.put_builders_of_ne ha] using hk.fits a
  · rcases eq_or_ne a b with rfl | ha
    · simpa using hdelivers
    · have hitems : (nodes (.remaining a)).map (w.space.put b g).item =
          (nodes (.remaining a)).map w.space.item := by
        exact List.map_congr_left (hitem a ha)
      simpa [ha, hother a ha, hitems, MidiSpace.put_builders_of_ne ha] using hk.delivers a

private theorem Kept.represents_put (hk : w.Kept base nodes) :
    (w.space.put b (w.space.building b)).Represents nodes := by
  rw [MidiSpace.put_building]
  exact hk.represents

private theorem Kept.useBuffer (hk : w.Kept base nodes) {size : Int32} {g : Building}
    (h : (w.space.building b).useBuffer size.toInt = some g) :
    ∃ nodes', Kept base ⟨w.space.put b g, Function.update w.logs b
      (((w.logs b).turn (.useBuffer size)).note none
        (g.builder.buffer.map fun e ↦ (e.1, (w.space.put b g).item e.2)))⟩ nodes' := by
  obtain ⟨g', moved, left, hg', hsame, hr, hsnd, hatt, hposition, hsize, hskip, hsplit, hended⟩ :=
    Building.useBuffer_spec hk.represents_put size.toInt
  obtain rfl := Option.some.inj (hg'.symm.trans h)
  obtain ⟨moved', hbuffer, hroom⟩ := Building.useBuffer_buffer h
  obtain rfl : moved' = moved := by rw [← hsnd, hbuffer, map_snd_placesFrom]
  have hitem := item_of_sameEvents (b := b) hsame
  refine ⟨_, hk.put hr ?_ ?_ ?_ ?_ ?_⟩
  · intro e hle hlt
    rw [hsame.1] at hlt
    obtain ⟨p, hp⟩ := hk.covered e hle hlt
    rcases eq_or_ne p (.remaining b) with rfl | hpr
    · rw [hsplit, List.mem_append] at hp
      rcases hp with hp | hp
      · exact ⟨.freeable b, by simp [hp]⟩
      · exact ⟨.remaining b, by simp [hp]⟩
    · rcases eq_or_ne p (.freeable b) with rfl | hpf
      · exact ⟨.freeable b, by simp [hp]⟩
      · exact ⟨p, by simpa [hpr, hpf] using hp⟩
  · intro a ha
    simp [ha]
  · intro a _ e _
    rw [hitem]
  · refine ⟨?_, ?_, ?_, ?_, ?_, ?_⟩
    · simp [MidiLog.turn, MidiLog.note]
    · intro _
      rw [hskip]
      rfl
    · simp [hatt]
    · intro _
      rw [hsize]
      rfl
    · intro _
      rw [hposition]
      exact Int.natCast_nonneg _
    · intro _
      rw [hsize, hposition]
      simpa using hended
  · obtain ⟨position, hd, _⟩ := hk.delivers b
    rw [hsplit, List.map_append] at hd
    have hnew : ∀ q ∈ (w.logs b).requests, q.round < (w.logs b).round + 1 := by
      intro q hq
      exact Nat.lt_succ_of_le (hd.requested q hq)
    have hfill := hd.nextRound.fill hnew (show _ ∨ _ ≤ size.toInt by simpa using hroom)
    refine ⟨_, ?_, fun _ ↦ hposition.symm⟩
    simpa [MidiLog.turn, MidiLog.note, hbuffer, hitem, placesFrom_map] using hfill

private theorem Kept.finishCurrentBuffer (hk : w.Kept base nodes) {g : Building}
    (h : (w.space.building b).finishCurrentBuffer = some g) :
    (∃ nodes', Kept base ⟨w.space.put b g, Function.update w.logs b (w.logs b)⟩ nodes') ∧
      g.builder.buffer = (w.space.builders b).buffer := by
  obtain ⟨g', hg', hsame, hr, hbuffer, hatt⟩ :=
    Building.finishCurrentBuffer_spec hk.represents_put
  obtain rfl := Option.some.inj (hg'.symm.trans h)
  have hbuilder := Building.processFreeableChain_builder h
  have hitem := item_of_sameEvents (b := b) hsame
  refine ⟨⟨_, hk.put hr ?_ ?_ ?_ ?_ ?_⟩, hbuffer⟩
  · intro e hle hlt
    rw [hsame.1] at hlt
    obtain ⟨p, hp⟩ := hk.covered e hle hlt
    rcases eq_or_ne p (.freeable b) with rfl | hpf
    · exact ⟨.free, by simp [hp]⟩
    · rcases eq_or_ne p .free with rfl | hfree
      · exact ⟨.free, by simp [hp]⟩
      · exact ⟨p, by simpa [hpf, hfree] using hp⟩
  · intro a ha
    simp
  · intro a _ e _
    rw [hitem]
  · have hfits := hk.fits b
    refine ⟨fun _ ↦ hatt, ?_, ?_, by simp [hatt], by simp [hatt], by simp [hatt]⟩
    · intro hround
      rw [hbuilder]
      exact hfits.offset hround
    · intro _ _
      rw [hbuilder]
      exact Int.zero_le_ofNat 1
  · obtain ⟨position, hd, _⟩ := hk.delivers b
    refine ⟨position, ?_, by simp [hatt]⟩
    simpa [hitem] using hd

private theorem Kept.skip (hk : w.Kept base nodes) {length : Int32} {room : Bool} {g : Building}
    (h : (w.space.building b).skip length.toInt = some (room, g)) :
    Kept base ⟨w.space.put b g,
        Function.update w.logs b ((w.logs b).turn (.skip length))⟩ nodes ∧
      g.builder.buffer = (w.space.builders b).buffer := by
  obtain ⟨hheap, hr, hbuffer, hatt⟩ := Building.skip_spec hk.represents_put h
  have hfits := hk.fits b
  simp only [Building.skip, Option.ite_none_left_eq_some, Option.some.injEq, Prod.mk.injEq] at h
  obtain ⟨-, -, rfl⟩ := h
  have hround : (w.space.builders b).attached = true → (w.logs b).round ≠ 0 := by
    intro hold hzero
    simp [hfits.unused hzero] at hold
  have hlater : ∀ last position : Int, position ≤ if last > position then last else position := by
    intro last position
    split <;> omega
  have hreach : ∀ last position : Int, last ≤ if last > position then last else position := by
    intro last position
    split <;> omega
  refine ⟨hk.put hr hk.covered (fun _ _ ↦ rfl) (fun _ _ _ _ ↦ rfl) ?_ ?_, hbuffer⟩
  · refine ⟨hfits.unused, fun h ↦ ?_, fun h hnot ↦ ?_, hfits.size, fun hold ↦ ?_, fun hold ↦ ?_⟩
    · simpa [MidiLog.turn, MidiSpace.building] using hfits.offset h
    · exact Int.le_trans (hfits.finished h hnot) (hlater _ _)
    · have hoffset := hfits.offset (hround hold)
      simp only [MidiLog.turn, hoffset]
      exact hreach _ _
    · exact (hfits.waiting hold).imp_right fun hfull ↦ Int.le_trans hfull (hlater _ _)
  · obtain ⟨position, hd, hposition⟩ := hk.delivers b
    cases hold : (w.space.builders b).attached with
    | false => exact ⟨position, hd, fun h ↦ absurd (hold.symm.trans h) (by simp)⟩
    | true =>
      rw [hposition hold] at hd
      exact ⟨_, hd.advance (hlater _ _), fun _ ↦ rfl⟩

/-- A new event is on the chain it was queued to, and all others are still on some chain. -/
private theorem Kept.covered_queue (hk : w.Kept base nodes) {q : Place ι} (hq : q ≠ .free)
    {e count : Nat} {l : List EventId}
    (hnew : ∀ x : Nat, x ∈ nodes .free ∨ w.space.heap.count ≤ x ∧ x < count → x ∈ e :: l)
    {x : Nat} (hle : base ≤ x) (hlt : x < count) :
    ∃ p, x ∈ Function.update (Function.update nodes .free l) q (nodes q ++ [e]) p := by
  have hfree : x ∈ e :: l →
      ∃ p, x ∈ Function.update (Function.update nodes .free l) q (nodes q ++ [e]) p := by
    intro hx
    rcases List.mem_cons.mp hx with rfl | hx
    · exact ⟨q, by simp⟩
    · exact ⟨.free, by simpa [hq.symm] using hx⟩
  by_cases hold : x < w.space.heap.count
  · obtain ⟨p, hp⟩ := hk.covered x hle hold
    rcases eq_or_ne p .free with rfl | hpf
    · exact hfree (hnew x (.inl hp))
    · rcases eq_or_ne p q with rfl | hpq
      · exact ⟨p, by simp [hp]⟩
      · exact ⟨p, by simpa [hpf, hpq] using hp⟩
  · exact hfree (hnew x (.inr ⟨Nat.le_of_not_lt hold, hlt⟩))

private theorem Kept.item_queue (hk : w.Kept base nodes) {e : Nat} {l : List EventId}
    {g : Building} (hpop : nodes .free = e :: l ∨ nodes .free = [] ∧ w.space.heap.count ≤ e)
    (hkeep : ∀ x < w.space.heap.count, x ≠ e →
      (g.heap.nodes x).event = (w.space.heap.nodes x).event) {p : Place ι} (hp : p ≠ .free)
    {x : Nat} (hx : x ∈ nodes p) : (w.space.put b g).item x = w.space.item x := by
  have hlt := hk.represents.allocated p x hx
  have hne : x ≠ e := by
    rintro rfl
    rcases hpop with hl | ⟨-, hle⟩
    · exact hp (hk.represents.apart hx (by simp [hl]))
    · omega
  simp only [MidiSpace.item, MidiSpace.put_heap, hkeep x hlt hne]

private theorem Kept.queue (hk : w.Kept base nodes) {status first second : UInt8} {e : Nat}
    {g : Building} (h : (w.space.building b).queue status first second = some (e, g)) :
    ∃ nodes', Kept base ⟨w.space.put b g, Function.update w.logs b
      ((w.logs b).note (some (e, [status, first, second]))
        ((g.builder.buffer.drop (w.space.builders b).buffer.length).map fun e ↦
          (e.1, (w.space.put b g).item e.2)))⟩ nodes' := by
  obtain ⟨l, hpop, hnew, hkeep, hatt, hcases⟩ := Building.queue_spec hk.represents_put h
  obtain ⟨hmessage, hbuffer⟩ := Building.queue_buffer h
  obtain ⟨-, hsize, hskip, hposition⟩ := Building.queue_position h
  have hown : (w.space.put b g).item e = (e, [status, first, second]) := by
    simp only [MidiSpace.item, MidiSpace.put_heap, hmessage]
  have hfits := hk.fits b
  have hkept : (nodes (.remaining b)).map (w.space.put b g).item =
      (nodes (.remaining b)).map w.space.item :=
    List.map_congr_left fun x hx ↦ hk.item_queue hpop hkeep (by simp) hx
  obtain ⟨position, hd, hplace⟩ := hk.delivers b
  rcases hcases with ⟨hsame, hr⟩ | ⟨hold, hsnd, hr⟩
  · have hfull : ¬ (w.space.builders b).bufferPosition < (w.space.builders b).bufferSize := by
      intro hroom
      have hlonger := hsame.symm.trans (hbuffer.trans (if_pos hroom))
      simp at hlonger
    have hstay := hposition.trans (if_neg hfull)
    refine ⟨_, hk.put hr (fun x ↦ hk.covered_queue (by simp) hnew) ?_ ?_ ?_ ?_⟩
    · intro a ha
      simp [ha]
    · exact fun a _ x hx ↦ hk.item_queue hpop hkeep (by simp) hx
    · refine ⟨?_, ?_, ?_, ?_, ?_, ?_⟩ <;> simp only [MidiLog.note, hatt, hsize, hskip, hstay]
      · exact hfits.unused
      · exact hfits.offset
      · exact hfits.finished
      · exact hfits.size
      · exact hfits.position
      · exact fun _ ↦ .inr (Int.not_lt.mp hfull)
    · refine ⟨position, ?_, ?_⟩
      · have hwait := hd.wait (e, [status, first, second]) (w.logs b).offset
        have hnone : g.builder.buffer.drop (w.space.builders b).buffer.length = [] := by
          rw [hsame]
          exact List.drop_length
        simpa [MidiLog.note, hnone, hkept, hown] using hwait
      · rw [hatt, hstay]
        exact hplace
  · have hroom : (w.space.builders b).bufferPosition < (w.space.builders b).bufferSize := by
      by_contra hfull
      rw [hbuffer.trans (if_neg hfull)] at hsnd
      simp at hsnd
    have hnext := hposition.trans (if_pos hroom)
    have hlonger := hbuffer.trans (if_pos hroom)
    have hempty : nodes (.remaining b) = [] :=
      (hfits.waiting hold).resolve_right (Int.not_le.mpr hroom)
    refine ⟨_, hk.put hr (fun x ↦ hk.covered_queue (by simp) hnew) ?_ ?_ ?_ ?_⟩
    · intro a ha
      simp
    · exact fun a _ x hx ↦ hk.item_queue hpop hkeep (by simp) hx
    · refine ⟨?_, ?_, ?_, ?_, ?_, ?_⟩ <;> simp only [MidiLog.note, hatt, hsize, hskip, hnext]
      · exact hfits.unused
      · exact hfits.offset
      · exact fun _ hnot ↦ absurd (hold.symm.trans hnot) (by simp)
      · exact hfits.size
      · exact fun h ↦ Int.le_add_one (hfits.position h)
      · exact fun _ ↦ .inl (by simpa using hempty)
    · rw [hplace hold, hempty] at hd
      refine ⟨(w.space.builders b).bufferPosition + 1, ?_, fun _ ↦ hnext.symm⟩
      have hsize' := hfits.size hold
      have hdeliver := hd.deliver (e, [status, first, second]) (hfits.position hold)
        (hsize' ▸ hroom)
      have hone : g.builder.buffer.drop (w.space.builders b).buffer.length =
          [((w.space.builders b).bufferPosition, e)] := by
        rw [hlonger]
        exact List.drop_left
      simpa [MidiLog.note, hone, hempty, hown] using hdeliver

/-- Every call keeps the chains in order and the logs lossless. -/
theorem Kept.step (hk : w.Kept base nodes) {call : ι × MidiCall} {mev : Option EventId}
    (hst : w.step call = some (mev, w')) : ∃ nodes', w'.Kept base nodes' := by
  obtain ⟨b, call⟩ := call
  simp only [Logged.step, Option.map_eq_some_iff, Prod.mk.injEq] at hst
  obtain ⟨⟨mev, s'⟩, hs', rfl, rfl⟩ := hst
  obtain ⟨g, rfl, hcases⟩ := MidiSpace.step_cases hs'
  have hsame : g.builder.buffer = (w.space.builders b).buffer →
      g.builder.buffer.drop (w.space.builders b).buffer.length = [] := by
    intro h
    rw [h, List.drop_length]
  rcases hcases with ⟨size, rfl, rfl, hg⟩ | ⟨rfl, rfl, hg⟩ | ⟨length, room, rfl, rfl, hg⟩ |
    ⟨_, _, _, e, hq, rfl, -⟩
  · simpa [MidiCall.written] using hk.useBuffer hg
  · obtain ⟨hkept, hbuffer⟩ := hk.finishCurrentBuffer hg
    simpa [MidiCall.written, MidiLog.turn, MidiLog.note, hsame hbuffer] using hkept
  · obtain ⟨hkept, hbuffer⟩ := hk.skip hg
    exact ⟨nodes, by simpa [MidiCall.written, MidiLog.note, hsame hbuffer] using hkept⟩
  · obtain ⟨status, first, second, e', g', hmessage, he, hput, hg⟩ :=
      MidiSpace.step_queue hq hs'
    obtain rfl := Option.some.inj he
    obtain ⟨nodes', hkept⟩ := hk.queue hg
    rw [hput]
    refine ⟨nodes', ?_⟩
    cases call with
    | useBuffer | finishCurrentBuffer | skip => cases hq
    | queueNoteOn | queueNoteOff | queueController | queuePitchBend =>
      simpa [MidiCall.written, MidiLog.turn, hmessage] using hkept

omit [DecidableEq ι] in
theorem kept_start {s : MidiSpace ι} (hs : s.Initial) :
    Kept s.heap.count (start s) fun _ ↦ [] where
  represents := hs.represents
  covered e hle hlt := absurd hlt (Nat.not_lt.mpr hle)
  fits b := by
    have hatt := hs.attached b
    exact ⟨fun _ ↦ hatt, by simp [start, MidiLog.empty], by simp [start, MidiLog.empty],
      by simp [start, hatt], by simp [start, hatt], by simp [start, hatt]⟩
  delivers b := ⟨0, .nil, by simp [start, hs.attached b]⟩

omit [DecidableEq ι] in
theorem Kept.partitioned (hk : w.Kept base nodes) : w.space.Partitioned base := by
  have hchain : w.space.chain = nodes := funext hk.represents.chain_eq
  rw [MidiSpace.Partitioned, hchain]
  refine ⟨fun e hle hlt ↦ ?_, hk.represents.chains.nodup⟩
  obtain ⟨p, hp⟩ := hk.covered e hle hlt
  exact ⟨p, hp, fun q hq ↦ hk.represents.apart hq hp⟩

omit [DecidableEq ι] in
theorem Kept.knowsTail (hk : w.Kept base nodes) {p : Place ι} (hp : p ≠ .free) :
    w.space.KnowsTail p := by
  intro e he
  rw [hk.represents.chain_eq]
  refine hk.represents.last p hp e ?_
  rw [← hk.represents.chains.head_eq, he]

/-- The call is `use_buffer`, or there has been one on this builder, and the ticks skipped in one
buffer fit an `int`. -/
def Proper (w : Logged ι) (b : ι) (call : MidiCall) : Prop :=
  ((∃ size, call = .useBuffer size) ∨ (w.logs b).round ≠ 0) ∧
    ∀ length, call = .skip length →
      -2 ^ 31 ≤ (w.logs b).offset + length.toInt ∧ (w.logs b).offset + length.toInt < 2 ^ 31

private theorem Kept.exists_queue (hk : w.Kept base nodes) (hround : (w.logs b).round ≠ 0)
    (status first second : UInt8) :
    ∃ mev s, ((w.space.building b).queue status first second).map
      (fun (mev, g) ↦ (some mev, w.space.put b g)) = some (mev, s) := by
  have hready : (w.space.building b).builder.attached = true ∨
      (w.space.building b).builder.bufferSize ≤ (w.space.building b).builder.bufferPosition := by
    cases hatt : (w.space.builders b).attached with
    | true => exact .inl hatt
    | false => exact .inr ((hk.fits b).finished hround hatt)
  obtain ⟨e, g, hg⟩ := Building.exists_queue hk.represents_put hready status first second
  exact ⟨some e, w.space.put b g, by rw [hg]; rfl⟩

/-- Such a call is defined. -/
theorem Kept.exists_step (hk : w.Kept base nodes) {call : MidiCall} (hp : w.Proper b call) :
    ∃ mev w', w.step (b, call) = some (mev, w') := by
  have hdefined : (∃ mev s, w.space.step (b, call) = some (mev, s)) →
      ∃ mev w', w.step (b, call) = some (mev, w') := by
    rintro ⟨mev, s, hs⟩
    exact ⟨mev, _, by rw [Logged.step, hs]; rfl⟩
  apply hdefined
  have hround : (∀ size, call ≠ .useBuffer size) → (w.logs b).round ≠ 0 :=
    fun hno ↦ hp.1.resolve_left fun ⟨size, hcall⟩ ↦ hno size hcall
  cases call with
  | useBuffer size =>
    obtain ⟨g, _, _, hg, -⟩ := Building.useBuffer_spec (hk.represents_put (b := b)) size.toInt
    exact ⟨none, w.space.put b g, by simp [MidiSpace.step, hg]⟩
  | finishCurrentBuffer =>
    obtain ⟨g, hg, -⟩ := Building.finishCurrentBuffer_spec (hk.represents_put (b := b))
    exact ⟨none, w.space.put b g, by simp [MidiSpace.step, hg]⟩
  | skip length =>
    have hoffset := (hk.fits b).offset (hround (by simp))
    obtain ⟨hlow, hhigh⟩ := hp.2 length rfl
    rw [hoffset] at hlow hhigh
    have hfits : ¬ ((w.space.building b).builder.bufferPLastSkip + length.toInt < -2 ^ 31 ∨
        2 ^ 31 ≤ (w.space.building b).builder.bufferPLastSkip + length.toInt) := by
      simp only [MidiSpace.building]
      omega
    simp only [MidiSpace.step, Building.skip, if_neg hfits]
    exact ⟨_, _, rfl⟩
  | queueNoteOn | queueNoteOff | queueController | queuePitchBend =>
    exact hk.exists_queue (hround (by simp)) _ _ _

/-! ### Runs -/

theorem kept_of_run {s : MidiSpace ι} (hs : s.Initial) {calls : List (ι × MidiCall)}
    (hrun : Run Logged.step (fun _ _ _ ↦ True) (start s) calls w) :
    ∃ nodes, w.Kept s.heap.count nodes := by
  refine hrun.invariant (fun w ↦ ∃ nodes, w.Kept s.heap.count nodes) ?_ ⟨_, kept_start hs⟩
  rintro v call mev v' ⟨nodes, hk⟩ - hst
  exact hk.step hst

/-- After every sequence of calls on any builders, every queued event has been written to exactly
one slot, in the order of queueing and not before its tick offset, or is still on the remaining
chain; every event is on exactly one chain, and the chains of a builder know their tails. Calls
that skip no more ticks in a buffer than fit an `int` are all defined after `use_buffer`. -/
theorem events_delivered {s : MidiSpace ι} (hs : s.Initial) {calls : List (ι × MidiCall)}
    {w : Logged ι} (hrun : Run Logged.step (fun _ _ _ ↦ True) (start s) calls w) :
    (∀ b, Lossless (w.logs b).requests (w.logs b).receipts
        ((w.space.chain (.remaining b)).map w.space.item)) ∧
      w.space.Partitioned s.heap.count ∧ (∀ p, p ≠ .free → w.space.KnowsTail p) ∧
      ∀ b call, w.Proper b call → ∃ mev w', w.step (b, call) = some (mev, w') := by
  obtain ⟨nodes, hk⟩ := kept_of_run hs hrun
  refine ⟨fun b ↦ ?_, hk.partitioned, fun p hp ↦ hk.knowsTail hp, fun b call hp ↦ hk.exists_step hp⟩
  obtain ⟨position, hd, -⟩ := hk.delivers b
  rw [hk.represents.chain_eq]
  exact hd.toLossless

/-- One builder as constructed, before any event has been allocated. -/
def oneBuilder : MidiSpace Unit where
  heap := ⟨fun _ ↦ ⟨⟨0, []⟩, none, none⟩, 0, none⟩
  builders _ := ⟨[], false, 0, 0, 0, none, none⟩

theorem initial_oneBuilder : oneBuilder.Initial :=
  ⟨rfl, fun _ ↦ rfl, fun _ ↦ rfl, fun _ ↦ rfl, fun _ ↦ rfl⟩

/-- Two events in a buffer of two slots, the first of which is skipped: the second event is
carried over and comes first in the next buffer. -/
def carriedOver : List (Unit × MidiCall) :=
  [((), .useBuffer 2), ((), .skip 1), ((), .queueNoteOn 60 100 0), ((), .queueNoteOff 60 100 0),
    ((), .finishCurrentBuffer), ((), .useBuffer 2)]

/-- The result applies to events that are carried over. -/
theorem events_delivered_carriedOver :
    ∃ w, Run Logged.step (fun _ _ _ ↦ True) (start oneBuilder) carriedOver w ∧
      (w.logs ()).receipts.map (fun d ↦ (d.round, d.place, d.item)) =
        [(1, 1, 0, [0x90, 60, 100]), (2, 0, 1, [0x80, 60, 100])] ∧
      Lossless (w.logs ()).requests (w.logs ()).receipts
        ((w.space.chain (.remaining ())).map w.space.item) := by
  have heval : (runAll Logged.step (fun _ _ _ ↦ true) (start oneBuilder) carriedOver).map (fun w ↦
      (w.logs ()).receipts.map (fun d ↦ (d.round, d.place, d.item))) =
      some [(1, 1, 0, [0x90, 60, 100]), (2, 0, 1, [0x80, 60, 100])] := by decide +kernel
  obtain ⟨w, hw, hreceipts⟩ := Option.map_eq_some_iff.mp heval
  have hrun : Run Logged.step (fun _ _ _ ↦ True) (start oneBuilder) carriedOver w :=
    (Run.of_runAll hw).mono fun _ _ _ _ ↦ trivial
  exact ⟨w, hrun, hreceipts, (events_delivered initial_oneBuilder hrun).1 ()⟩

/-- The first free event does not know the last one, which `init_free_midi_event_chain` does not
set; and ticks that add up to more than an `int` cannot be skipped in a buffer. -/
theorem free_chain_lacks_tail :
    (¬ ∀ s : MidiSpace Unit, s.Initial → ∀ calls w,
      Run Logged.step (fun _ _ _ ↦ True) (start s) calls w → ∀ p, w.space.KnowsTail p) ∧
    ¬ ∀ s : MidiSpace Unit, s.Initial → ∀ calls w,
      Run Logged.step (fun _ _ _ ↦ True) (start s) calls w → (w.logs ()).round ≠ 0 →
      ∀ length : Int32, 0 ≤ length → (w.step ((), .skip length)).isSome = true := by
  constructor
  · intro hall
    let queued : List (Unit × MidiCall) := [((), .useBuffer 2), ((), .queueNoteOn 60 100 0)]
    have heval : (runAll Logged.step (fun _ _ _ ↦ true) (start oneBuilder) queued).map (fun w ↦
        (w.space.head .free, (w.space.heap.nodes 1).lastInChain,
          (w.space.chain .free).getLast?)) = some (some 1, none, some 255) := by decide +kernel
    obtain ⟨w, hw, h⟩ := Option.map_eq_some_iff.mp heval
    obtain ⟨hhead, hlast, htail⟩ : w.space.head .free = some 1 ∧
        (w.space.heap.nodes 1).lastInChain = none ∧
        (w.space.chain .free).getLast? = some 255 := by simpa using h
    have hknows := hall oneBuilder initial_oneBuilder queued w
      ((Run.of_runAll hw).mono fun _ _ _ _ ↦ trivial) .free 1 hhead
    rw [hlast, htail] at hknows
    cases hknows
  · intro hall
    let skipped : List (Unit × MidiCall) := [((), .useBuffer 2), ((), .skip 2147483647)]
    have heval : (runAll Logged.step (fun _ _ _ ↦ true) (start oneBuilder) skipped).map (fun w ↦
        ((w.logs ()).round, (w.step ((), .skip 1)).isSome)) = some (1, false) := by decide +kernel
    obtain ⟨w, hw, h⟩ := Option.map_eq_some_iff.mp heval
    obtain ⟨hround, hnone⟩ := Prod.mk.inj h
    have hsome := hall oneBuilder initial_oneBuilder skipped w
      ((Run.of_runAll hw).mono fun _ _ _ _ ↦ trivial) (by simp [hround]) 1 (by decide)
    rw [hnone] at hsome
    cases hsome

end Logged

end Vuknob
