import Vuknob.Midi.Chains

/-!
# What the calls do to the chains

`use_buffer` moves events from the front of the remaining chain behind the freeable chain,
`finish_current_buffer` stacks the freeable chain on the free chain, and the functions that
queue take an event from the front of the free chain. No call but the last changes an event.
-/

namespace Vuknob

open Library

namespace MidiSpace

variable {ι : Type} [DecidableEq ι] {s : MidiSpace ι} {b : ι} {g : Building}
  {nodes : Place ι → List EventId}

/-- Where the chains start. -/
def head (s : MidiSpace ι) : Place ι → Option EventId
  | .free => s.heap.nextFreeMidiEvent
  | .remaining b => (s.builders b).remainingMidiChain
  | .freeable b => (s.builders b).freeableMidiChain

/-- The chains of the space are these. -/
def Represents (s : MidiSpace ι) (nodes : Place ι → List EventId) : Prop :=
  s.heap.Holds s.head nodes

@[simp]
theorem put_put (g' : Building) : (s.put b g).put b g' = s.put b g' := by
  simp [put]

@[simp]
theorem put_building : s.put b (s.building b) = s := by
  simp [put, building]

@[simp]
theorem put_heap : (s.put b g).heap = g.heap := rfl

@[simp]
theorem put_builders_self : (s.put b g).builders b = g.builder := by
  simp [put]

theorem put_builders_of_ne {a : ι} (h : a ≠ b) :
    (s.put b g).builders a = s.builders a := by
  simp [put, h]

theorem put_head_apply (p : Place ι) :
    (s.put b g).head p =
      if p = .free then g.heap.nextFreeMidiEvent
      else if p = .remaining b then g.builder.remainingMidiChain
      else if p = .freeable b then g.builder.freeableMidiChain
      else s.head p := by
  cases p with
  | free => rfl
  | remaining a =>
    rcases eq_or_ne a b with rfl | ha
    · simp [head]
    · simp [head, ha, put_builders_of_ne ha]
  | freeable a =>
    rcases eq_or_ne a b with rfl | ha
    · simp [head]
    · simp [head, ha, put_builders_of_ne ha]

omit [DecidableEq ι] in
/-- At the start there are no chains. -/
theorem Initial.represents {s : MidiSpace ι} (hs : s.Initial) : s.Represents fun _ ↦ [] where
  chains :=
    { linked := by
        intro p
        cases p with
        | free => exact hs.free
        | remaining b => exact hs.remaining b
        | freeable b => exact hs.freeable b
      apart := fun _ _ _ ↦ by simp }
  free := rfl
  last := by simp
  allocated := by simp

/-- The chains of a space are read off the heads of one builder and of the others. -/
theorem Represents.of_holds {head' : Place ι → Option EventId} (hh : g.heap.Holds head' nodes)
    (hhead : ∀ p, (s.put b g).head p = head' p) : (s.put b g).Represents nodes :=
  hh.congr (fun _ ↦ rfl) (fun _ ↦ rfl) rfl rfl hhead

end MidiSpace

namespace Building

open MidiSpace

/-- No event has been allocated or changed. -/
def SameEvents (h h' : MidiHeap) : Prop :=
  h'.count = h.count ∧ ∀ x, (h'.nodes x).event = (h.nodes x).event

theorem SameEvents.trans {h h' h'' : MidiHeap} (h1 : SameEvents h h') (h2 : SameEvents h' h'') :
    SameEvents h h'' := ⟨h2.1.trans h1.1, fun x ↦ (h2.2 x).trans (h1.2 x)⟩

variable {ι : Type} [DecidableEq ι] {s : MidiSpace ι} {b : ι} {g : Building}
  {nodes : Place ι → List EventId}

/-- Placing a loose event: it is the last of the buffer and of the freeable chain. -/
theorem place_spec (hr : (s.put b g).Represents nodes) {e : EventId} (he : g.heap.Loose nodes e)
    (hatt : g.builder.attached = true) :
    ∃ g', g.place e = some g' ∧ SameEvents g.heap g'.heap ∧
      (s.put b g').Represents
        (Function.update nodes (.freeable b) (nodes (.freeable b) ++ [e])) ∧
      g'.builder =
        { g.builder with
          buffer := g.builder.buffer ++ [(g.builder.bufferPosition, e)]
          bufferPosition := g.builder.bufferPosition + 1
          freeableMidiChain := g'.builder.freeableMidiChain } := by
  obtain ⟨c, h', hc, hh, hcount, hfree, hevent⟩ :=
    MidiHeap.Holds.chainToTail (p := .freeable b) hr (by simp) he
  have hchain : (s.put b g).head (.freeable b) = g.builder.freeableMidiChain := by
    simp [put_head_apply]
  rw [hchain, put_heap] at hc
  simp only [place, hatt, hc, Option.map_some, if_true]
  refine ⟨_, rfl, ⟨hcount, hevent⟩, Represents.of_holds hh fun p ↦ ?_, rfl⟩
  simp only [put_head_apply, Function.update_apply, hfree]
  split_ifs <;> simp_all

private theorem chainEvent_spec_of_full (hr : (s.put b g).Represents nodes) {e : EventId}
    (he : g.heap.Loose nodes e) (hfull : g.builder.bufferSize ≤ g.builder.bufferPosition) :
    ∃ g', g.chainEvent e = some g' ∧ SameEvents g.heap g'.heap ∧
      (s.put b g').Represents
        (Function.update nodes (.remaining b) (nodes (.remaining b) ++ [e])) ∧
      g'.builder =
        { g.builder with remainingMidiChain := g'.builder.remainingMidiChain } := by
  obtain ⟨c, h', hc, hh, hcount, hfree, hevent⟩ :=
    MidiHeap.Holds.chainToTail (p := .remaining b) hr (by simp) he
  have hchain : (s.put b g).head (.remaining b) = g.builder.remainingMidiChain := by
    simp [put_head_apply]
  rw [hchain, put_heap] at hc
  simp only [chainEvent, ge_iff_le, hfull, hc, Option.map_some, if_true]
  refine ⟨_, rfl, ⟨hcount, hevent⟩, Represents.of_holds hh fun p ↦ ?_, rfl⟩
  simp only [put_head_apply, Function.update_apply, hfree]
  split_ifs <;> simp_all

/-- A loose event is chained to the remaining chain, or placed if the buffer has room. -/
theorem chainEvent_spec (hr : (s.put b g).Represents nodes) {e : EventId} {g' : Building}
    (he : g.heap.Loose nodes e) (h : g.chainEvent e = some g') :
    SameEvents g.heap g'.heap ∧ g'.builder.attached = g.builder.attached ∧
      ((g'.builder.buffer = g.builder.buffer ∧
          (s.put b g').Represents
            (Function.update nodes (.remaining b) (nodes (.remaining b) ++ [e]))) ∨
        (g.builder.attached = true ∧
          g'.builder.buffer.map Prod.snd = g.builder.buffer.map Prod.snd ++ [e] ∧
          (s.put b g').Represents
            (Function.update nodes (.freeable b) (nodes (.freeable b) ++ [e])))) := by
  by_cases hfull : g.builder.bufferSize ≤ g.builder.bufferPosition
  · obtain ⟨g2, hg2, hsame, hrep, hbuilder⟩ := chainEvent_spec_of_full hr he hfull
    obtain rfl := Option.some.inj (hg2.symm.trans h)
    exact ⟨hsame, by rw [hbuilder], .inl ⟨by rw [hbuilder], hrep⟩⟩
  · rw [chainEvent, if_neg hfull] at h
    have hatt : g.builder.attached = true := by
      by_contra hatt
      rw [place, if_neg hatt] at h
      cases h
    obtain ⟨g2, hg2, hsame, hrep, hbuilder⟩ := place_spec hr he hatt
    obtain rfl := Option.some.inj (hg2.symm.trans h)
    refine ⟨hsame, by rw [hbuilder], .inr ⟨hatt, ?_, hrep⟩⟩
    rw [hbuilder]
    simp

private theorem Represents.freeableMidiChain_eq (hr : (s.put b g).Represents nodes) :
    g.builder.freeableMidiChain = (nodes (.freeable b)).head? := by
  rw [← hr.chains.head_eq]
  simp [put_head_apply]

private theorem Represents.remainingMidiChain_eq (hr : (s.put b g).Represents nodes) :
    g.builder.remainingMidiChain = (nodes (.remaining b)).head? := by
  rw [← hr.chains.head_eq]
  simp [put_head_apply]

private theorem moveToFree_spec (hr : (s.put b g).Represents nodes) {e : EventId}
    {l : List EventId} (hl : nodes (.freeable b) = e :: l) :
    (s.put b
        { heap := (g.heap.getChainHead e).2.pushNextFreeMidi e
          builder :=
            { g.builder with freeableMidiChain := (g.heap.getChainHead e).1 } }).Represents
      (Function.update (Function.update nodes (.freeable b) l) .free (e :: nodes .free)) := by
  obtain ⟨hh, hloose⟩ := MidiHeap.Holds.getChainHead hr (by simp) hl
  have hp := hh.pushNextFreeMidi hloose
  rw [Function.update_of_ne (by simp : (.free : Place ι) ≠ .freeable b)] at hp
  refine Represents.of_holds hp fun p ↦ ?_
  simp only [put_head_apply, Function.update_apply]
  split_ifs <;> simp_all [MidiHeap.pushNextFreeMidi]

/-- `process_freeable_chain` ends, and stacks the freeable chain on the free chain. -/
theorem processFreeableChain_spec {fuel : Nat} (hr : (s.put b g).Represents nodes)
    {l : List EventId} (hl : nodes (.freeable b) = l) (hfuel : l.length ≤ fuel) :
    ∃ g', processFreeableChain fuel g = some g' ∧ SameEvents g.heap g'.heap ∧
      (s.put b g').Represents
        (Function.update (Function.update nodes .free (l.reverse ++ nodes .free))
          (.freeable b) []) ∧
      g'.builder = { g.builder with freeableMidiChain := none } := by
  have hchain := Represents.freeableMidiChain_eq hr
  induction l generalizing fuel g nodes with
  | nil =>
    rw [hl] at hchain
    refine ⟨g, ?_, ⟨rfl, fun _ ↦ rfl⟩, ?_, ?_⟩
    · rw [processFreeableChain, hchain]
      rfl
    · rw [List.reverse_nil, List.nil_append, Function.update_eq_self, ← hl,
        Function.update_eq_self]
      exact hr
    · rw [← hchain.trans List.head?_nil]
  | cons e l ih =>
    rw [hl] at hchain
    cases fuel with
    | zero => simp at hfuel
    | succ fuel =>
      have hmove := moveToFree_spec hr hl
      obtain ⟨g', hg', hsame, hrep, hbuilder⟩ :=
        ih hmove (by simp) (by simpa using hfuel) (Represents.freeableMidiChain_eq hmove)
      refine ⟨g', ?_, ?_, ?_, hbuilder⟩
      · rw [processFreeableChain, hchain]
        exact hg'
      · refine SameEvents.trans ⟨by simp [MidiHeap.pushNextFreeMidi], fun x ↦ ?_⟩ hsame
        rw [MidiHeap.pushNextFreeMidi_event, MidiHeap.getChainHead_event]
      · convert hrep using 1
        ext1 p
        simp only [Function.update_apply, List.reverse_cons, List.append_assoc,
          List.singleton_append]
        split_ifs <;> simp_all

private theorem moveToBuffer_spec (hr : (s.put b g).Represents nodes) {e : EventId}
    {l : List EventId} (hl : nodes (.remaining b) = e :: l) (hatt : g.builder.attached = true) :
    ∃ g', place
        { heap := (g.heap.getChainHead e).2
          builder :=
            { g.builder with remainingMidiChain := (g.heap.getChainHead e).1 } } e = some g' ∧
      SameEvents g.heap g'.heap ∧
      (s.put b g').Represents
        (Function.update (Function.update nodes (.remaining b) l) (.freeable b)
          (nodes (.freeable b) ++ [e])) ∧
      g'.builder =
        { g.builder with
          buffer := g.builder.buffer ++ [(g.builder.bufferPosition, e)]
          bufferPosition := g.builder.bufferPosition + 1
          remainingMidiChain := g'.builder.remainingMidiChain
          freeableMidiChain := g'.builder.freeableMidiChain } := by
  obtain ⟨hh, hloose⟩ := MidiHeap.Holds.getChainHead hr (by simp) hl
  have hr' : (s.put b
      { heap := (g.heap.getChainHead e).2
        builder :=
          { g.builder with remainingMidiChain := (g.heap.getChainHead e).1 } }).Represents
      (Function.update nodes (.remaining b) l) := by
    refine Represents.of_holds hh fun p ↦ ?_
    simp only [put_head_apply, Function.update_apply]
    split_ifs <;> simp_all
  obtain ⟨g', hg', hsame, hrep, hbuilder⟩ := place_spec hr' hloose hatt
  refine ⟨g', hg', SameEvents.trans ?_ hsame, ?_, ?_⟩
  · exact ⟨MidiHeap.getChainHead_count e, MidiHeap.getChainHead_event e⟩
  · rw [Function.update_of_ne (by simp : Place.freeable b ≠ .remaining b)] at hrep
    exact hrep
  · rw [hbuilder]

/-- The events `moved` have gone from the front of the remaining chain behind those of the
buffer and of the freeable chain, and `left` remain. -/
structure Fills (s : MidiSpace ι) (b : ι) (nodes : Place ι → List EventId) (g g' : Building)
    (moved left : List EventId) : Prop where
  same : SameEvents g.heap g'.heap
  remaining : nodes (.remaining b) = moved ++ left
  represents : (s.put b g').Represents
    (Function.update (Function.update nodes (.remaining b) left) (.freeable b)
      (nodes (.freeable b) ++ moved))
  buffer : g'.builder.buffer.map Prod.snd = g.builder.buffer.map Prod.snd ++ moved
  attached : g'.builder.attached = true
  position : g'.builder.bufferPosition = g.builder.bufferPosition + moved.length
  size : g'.builder.bufferSize = g.builder.bufferSize
  lastSkip : g'.builder.bufferPLastSkip = g.builder.bufferPLastSkip
  ended : left = [] ∨ g'.builder.bufferSize ≤ g'.builder.bufferPosition

private theorem Fills.refl (hr : (s.put b g).Represents nodes) (hatt : g.builder.attached = true)
    (hended : nodes (.remaining b) = [] ∨ g.builder.bufferSize ≤ g.builder.bufferPosition) :
    Fills s b nodes g g [] (nodes (.remaining b)) :=
  ⟨⟨rfl, fun _ ↦ rfl⟩, rfl, by simpa using hr, by simp, hatt, by simp, rfl, rfl, hended⟩

/-- `process_remaining_chain` ends when the buffer is full or no event remains. -/
theorem processRemainingChain_spec {fuel : Nat} (hr : (s.put b g).Represents nodes)
    (hatt : g.builder.attached = true)
    (hfuel : g.builder.bufferSize - g.builder.bufferPosition ≤ fuel) :
    ∃ g' moved left, processRemainingChain fuel g = some g' ∧
      Fills s b nodes g g' moved left := by
  induction fuel generalizing g nodes with
  | zero =>
    refine ⟨g, [], _, ?_, .refl hr hatt (.inr (by omega))⟩
    rw [processRemainingChain, if_neg (by omega)]
  | succ fuel ih =>
    rw [processRemainingChain]
    split
    · next hroom =>
      split
      · next he =>
        rw [Represents.remainingMidiChain_eq hr, List.head?_eq_none_iff] at he
        exact ⟨g, [], _, rfl, .refl hr hatt (.inl he)⟩
      · next e he =>
        rw [Represents.remainingMidiChain_eq hr] at he
        obtain ⟨l, hl⟩ := List.head?_eq_some_iff.mp he
        obtain ⟨g1, hg1, hsame1, hr1, hb1⟩ := moveToBuffer_spec hr hl hatt
        have hatt1 : g1.builder.attached = true := by rw [hb1, hatt]
        have hfuel1 : g1.builder.bufferSize - g1.builder.bufferPosition ≤ fuel := by
          rw [hb1]
          simp only
          omega
        obtain ⟨g', moved, left, hg', hf⟩ := ih hr1 hatt1 hfuel1
        refine ⟨g', e :: moved, left, ?_, hsame1.trans hf.same, ?_, ?_, ?_, hf.attached, ?_, ?_,
          ?_, hf.ended⟩
        · simp only [hg1, Option.bind_some, hg']
        · rw [hl, List.cons_append, ← hf.remaining]
          simp
        · convert hf.represents using 1
          ext1 p
          rcases eq_or_ne p (.freeable b) with rfl | hp
          · simp
          · rcases eq_or_ne p (.remaining b) with rfl | hq
            · simp
            · simp [hp, hq]
        · rw [hf.buffer, hb1]
          simp
        · rw [hf.position, hb1, List.length_cons]
          simp only
          omega
        · rw [hf.size, hb1]
        · rw [hf.lastSkip, hb1]
    · next hfull => exact ⟨g, [], _, rfl, .refl hr hatt (.inr (by omega))⟩

/-- `use_buffer` fills an empty buffer from the remaining chain. -/
theorem useBuffer_spec (hr : (s.put b g).Represents nodes) (bufferSize : Int) :
    ∃ g' moved left, g.useBuffer bufferSize = some g' ∧ SameEvents g.heap g'.heap ∧
      (s.put b g').Represents
        (Function.update (Function.update nodes (.remaining b) left) (.freeable b)
          (nodes (.freeable b) ++ moved)) ∧
      g'.builder.buffer.map Prod.snd = moved ∧ g'.builder.attached = true ∧
      g'.builder.bufferPosition = moved.length ∧ g'.builder.bufferSize = bufferSize ∧
      g'.builder.bufferPLastSkip = 0 ∧ nodes (.remaining b) = moved ++ left ∧
      (left = [] ∨ bufferSize ≤ moved.length) := by
  have hr' : (s.put b { g with builder :=
      { g.builder with
        buffer := [], attached := true, bufferSize := bufferSize, bufferPosition := 0
        bufferPLastSkip := 0 } }).Represents nodes :=
    Represents.of_holds hr fun p ↦ by simp only [put_head_apply]
  have hfuel : bufferSize - 0 ≤ bufferSize.toNat := by omega
  obtain ⟨g', moved, left, hg', hf⟩ := processRemainingChain_spec hr' rfl hfuel
  have hposition : g'.builder.bufferPosition = moved.length := by
    rw [hf.position]
    exact Int.zero_add _
  have hsize : g'.builder.bufferSize = bufferSize := hf.size
  have hended := hf.ended
  rw [hposition, hsize] at hended
  exact ⟨g', moved, left, hg', hf.same, hf.represents, hf.buffer, hf.attached, hposition, hsize,
    hf.lastSkip, hf.remaining, hended⟩

/-- `finish_current_buffer` gives the freeable chain back to the free chain. -/
theorem finishCurrentBuffer_spec (hr : (s.put b g).Represents nodes) :
    ∃ g', g.finishCurrentBuffer = some g' ∧ SameEvents g.heap g'.heap ∧
      (s.put b g').Represents
        (Function.update
          (Function.update nodes .free ((nodes (.freeable b)).reverse ++ nodes .free))
          (.freeable b) []) ∧
      g'.builder.buffer = g.builder.buffer ∧ g'.builder.attached = false := by
  have hr' : (s.put b { g with builder :=
      { g.builder with bufferSize := 0, bufferPosition := 1, attached := false } }).Represents
      nodes := Represents.of_holds hr fun p ↦ by simp only [put_head_apply]
  obtain ⟨g', hg', hsame, hrep, hbuilder⟩ :=
    processFreeableChain_spec hr' rfl (hr.length_le (.freeable b))
  exact ⟨g', hg', hsame, hrep, by rw [hbuilder], by rw [hbuilder]⟩

/-- `skip` moves within the buffer only. -/
theorem skip_spec (hr : (s.put b g).Represents nodes) {skipLength : Int} {room : Bool}
    {g' : Building} (h : g.skip skipLength = some (room, g')) :
    g'.heap = g.heap ∧ (s.put b g').Represents nodes ∧
      g'.builder.buffer = g.builder.buffer ∧ g'.builder.attached = g.builder.attached := by
  simp only [skip, Option.ite_none_left_eq_some, Option.some.injEq, Prod.mk.injEq] at h
  obtain ⟨-, -, rfl⟩ := h
  exact ⟨rfl, Represents.of_holds hr fun p ↦ by simp only [put_head_apply], rfl, rfl⟩

/-- Up to chaining it, queueing takes the first free event, or a new one, and writes to it. -/
private theorem queue_eq (hr : (s.put b g).Represents nodes) (status first second : UInt8) :
    ∃ (mev : Nat) (h : MidiHeap) (l : List EventId),
      g.queue status first second =
        (chainEvent { g with heap := h } mev).map (fun g ↦ (mev, g)) ∧
      (nodes .free = mev :: l ∨ nodes .free = [] ∧ g.heap.count ≤ mev) ∧
      (∀ x : Nat, x ∈ nodes .free ∨ g.heap.count ≤ x ∧ x < h.count → x ∈ mev :: l) ∧
      (s.put b { g with heap := h }).Represents (Function.update nodes .free l) ∧
      h.Loose (Function.update nodes .free l) mev ∧
      ∀ x < g.heap.count, x ≠ mev → (h.nodes x).event = (g.heap.nodes x).event := by
  obtain ⟨mev, h1, l, hpop, hl, hnew, hh1, hloose1, hkeep⟩ := MidiHeap.Holds.popNextFreeMidi hr 3
  rw [put_heap] at hpop
  obtain ⟨hh2, hloose2⟩ := hh1.setEvent hloose1 fun event ↦
    { event with data := status :: first :: second :: event.data.drop 3 }
  refine ⟨mev, _, l, ?_, hl, ?_, ?_, hloose2, ?_⟩
  · simp only [queue, hpop]
  · exact hnew
  · refine Represents.of_holds hh2 fun p ↦ ?_
    simp only [put_head_apply, Function.update_apply]
    have := hh2.free
    split_ifs <;> simp_all
  · intro x hlt hx
    rw [MidiHeap.modify_nodes_of_ne _ hx, hkeep x hlt hx, put_heap]

/-- Queueing takes the first free event, or a new one when there is none, and chains it. -/
theorem queue_spec (hr : (s.put b g).Represents nodes) {status first second : UInt8} {e : Nat}
    {g' : Building} (h : g.queue status first second = some (e, g')) :
    ∃ l, (nodes .free = e :: l ∨ nodes .free = [] ∧ g.heap.count ≤ e) ∧
      (∀ x : Nat, x ∈ nodes .free ∨ g.heap.count ≤ x ∧ x < g'.heap.count → x ∈ e :: l) ∧
      (∀ x < g.heap.count, x ≠ e → (g'.heap.nodes x).event = (g.heap.nodes x).event) ∧
      g'.builder.attached = g.builder.attached ∧
      ((g'.builder.buffer = g.builder.buffer ∧
          (s.put b g').Represents
            (Function.update (Function.update nodes .free l) (.remaining b)
              (nodes (.remaining b) ++ [e]))) ∨
        (g.builder.attached = true ∧
          g'.builder.buffer.map Prod.snd = g.builder.buffer.map Prod.snd ++ [e] ∧
          (s.put b g').Represents
            (Function.update (Function.update nodes .free l) (.freeable b)
              (nodes (.freeable b) ++ [e])))) := by
  obtain ⟨mev, h2, l, hqueue, hl, hnew, hr2, hloose, hkeep⟩ := queue_eq hr status first second
  rw [hqueue] at h
  obtain ⟨g2, hchain, he⟩ := Option.map_eq_some_iff.mp h
  obtain ⟨rfl, rfl⟩ := Prod.mk.inj he
  obtain ⟨hsame, hatt, hcases⟩ := chainEvent_spec hr2 hloose hchain
  rw [← hsame.1] at hnew
  refine ⟨l, hl, hnew, fun x hlt hx ↦ (hsame.2 x).trans (hkeep x hlt hx), hatt, ?_⟩
  rwa [Function.update_of_ne (by simp), Function.update_of_ne (by simp)] at hcases

/-- A builder with a buffer, or without any slots, can always queue. -/
theorem exists_queue (hr : (s.put b g).Represents nodes)
    (hatt : g.builder.attached = true ∨ g.builder.bufferSize ≤ g.builder.bufferPosition)
    (status first second : UInt8) : ∃ e g', g.queue status first second = some (e, g') := by
  obtain ⟨mev, h2, l, hqueue, -, -, hr2, hloose, -⟩ := queue_eq hr status first second
  rw [hqueue]
  by_cases hfull : g.builder.bufferSize ≤ g.builder.bufferPosition
  · obtain ⟨g', hg', -⟩ := chainEvent_spec_of_full hr2 hloose hfull
    exact ⟨mev, g', by rw [hg', Option.map_some]⟩
  · obtain ⟨g', hg', -⟩ := place_spec hr2 hloose (hatt.resolve_right hfull)
    refine ⟨mev, g', ?_⟩
    rw [chainEvent, if_neg hfull, hg', Option.map_some]

/-- An event takes the next place of the buffer if there is one. -/
theorem queue_position {status first second : UInt8} {e : EventId} {g' : Building}
    (h : g.queue status first second = some (e, g')) :
    g'.builder.attached = g.builder.attached ∧ g'.builder.bufferSize = g.builder.bufferSize ∧
      g'.builder.bufferPLastSkip = g.builder.bufferPLastSkip ∧
      g'.builder.bufferPosition =
        if g.builder.bufferPosition < g.builder.bufferSize then g.builder.bufferPosition + 1
        else g.builder.bufferPosition := by
  simp only [queue, Option.map_eq_some_iff, Prod.mk.injEq] at h
  obtain ⟨g2, hchain, -, rfl⟩ := h
  rw [chainEvent] at hchain
  split at hchain
  · next hfull =>
    obtain ⟨_, -, rfl⟩ := Option.map_eq_some_iff.mp hchain
    exact ⟨rfl, rfl, rfl, (if_neg (Int.not_lt.mpr hfull)).symm⟩
  · next hroom =>
    rw [place] at hchain
    split at hchain
    · obtain ⟨_, -, rfl⟩ := Option.map_eq_some_iff.mp hchain
      exact ⟨rfl, rfl, rfl, (if_pos (Int.not_le.mp hroom)).symm⟩
    · cases hchain

end Building

/-- What a call can be. -/
theorem MidiSpace.step_cases {ι : Type} [DecidableEq ι] {s s' : MidiSpace ι} {b : ι}
    {call : MidiCall} {r : Option EventId} (h : s.step (b, call) = some (r, s')) :
    ∃ g, s' = s.put b g ∧
      ((∃ size, call = .useBuffer size ∧ r = none ∧
          (s.building b).useBuffer size.toInt = some g) ∨
        (call = .finishCurrentBuffer ∧ r = none ∧
          (s.building b).finishCurrentBuffer = some g) ∨
        (∃ length room, call = .skip length ∧ r = none ∧
          (s.building b).skip length.toInt = some (room, g)) ∨
        (∃ status first second e, call.queues = true ∧ r = some e ∧
          (s.building b).queue status first second = some (e, g))) := by
  cases call with
  | useBuffer size =>
    simp only [step, Option.map_eq_some_iff, Prod.mk.injEq] at h
    obtain ⟨g, hg, rfl, rfl⟩ := h
    exact ⟨g, rfl, .inl ⟨size, rfl, rfl, hg⟩⟩
  | finishCurrentBuffer =>
    simp only [step, Option.map_eq_some_iff, Prod.mk.injEq] at h
    obtain ⟨g, hg, rfl, rfl⟩ := h
    exact ⟨g, rfl, .inr (.inl ⟨rfl, rfl, hg⟩)⟩
  | skip length =>
    simp only [step, Option.map_eq_some_iff, Prod.mk.injEq] at h
    obtain ⟨⟨room, g⟩, hg, rfl, rfl⟩ := h
    exact ⟨g, rfl, .inr (.inr (.inl ⟨length, room, rfl, rfl, hg⟩))⟩
  | queueNoteOn | queueNoteOff | queueController | queuePitchBend =>
    simp only [step, Building.queueNoteOn, Building.queueNoteOff, Building.queueController,
      Building.queuePitchBend, Option.map_eq_some_iff, Prod.mk.injEq] at h
    obtain ⟨⟨e, g⟩, hg, rfl, rfl⟩ := h
    exact ⟨g, rfl, .inr (.inr (.inr ⟨_, _, _, e, rfl, rfl, hg⟩))⟩

/-- A call leaves the chains in order. -/
theorem MidiSpace.Represents.step {ι : Type} [DecidableEq ι] {s s' : MidiSpace ι} {b : ι}
    {call : MidiCall} {r : Option EventId} {nodes : Place ι → List EventId}
    (hr : s.Represents nodes) (h : s.step (b, call) = some (r, s')) :
    ∃ nodes', s'.Represents nodes' := by
  rw [← put_building (s := s) (b := b)] at hr
  obtain ⟨g, rfl, hcases⟩ := step_cases h
  rcases hcases with ⟨size, -, -, hg⟩ | ⟨-, -, hg⟩ | ⟨length, room, -, -, hg⟩ |
    ⟨status, first, second, e, -, -, hg⟩
  · obtain ⟨g', _, _, hg', -, hr', -⟩ := Building.useBuffer_spec hr size.toInt
    obtain rfl := Option.some.inj (hg'.symm.trans hg)
    exact ⟨_, hr'⟩
  · obtain ⟨g', hg', -, hr', -⟩ := Building.finishCurrentBuffer_spec hr
    obtain rfl := Option.some.inj (hg'.symm.trans hg)
    exact ⟨_, hr'⟩
  · exact ⟨_, (Building.skip_spec hr hg).2.1⟩
  · obtain ⟨l, -, -, -, -, ⟨-, hr'⟩ | ⟨-, -, hr'⟩⟩ := Building.queue_spec hr hg
    · exact ⟨_, hr'⟩
    · exact ⟨_, hr'⟩

theorem queues_of_midiMessage {status first second : UInt8} {call : MidiCall}
    (h : midiMessage status first second = some call) : call.queues = true := by
  simp only [midiMessage] at h
  split_ifs at h <;> (obtain rfl := Option.some.inj h; rfl)

/-- `queue_midi_data` acts on the builder by queueing events only. -/
theorem queues_of_queueMidiData {data : List UInt8} {calls : List MidiCall}
    (h : queueMidiData data = some calls) : ∀ call ∈ calls, call.queues = true := by
  fun_induction queueMidiData data generalizing calls with
  | case1 =>
    obtain rfl := Option.some.inj h
    simp
  | case2 status first second data call hcall ih =>
    obtain ⟨rest, hrest, rfl⟩ := Option.map_eq_some_iff.mp h
    simp only [List.mem_cons, forall_eq_or_imp]
    exact ⟨queues_of_midiMessage hcall, ih hrest⟩
  | case3 =>
    obtain rfl := Option.some.inj h
    simp
  | case4 => cases h
  | case5 =>
    obtain rfl := Option.some.inj h
    simp

end Vuknob
