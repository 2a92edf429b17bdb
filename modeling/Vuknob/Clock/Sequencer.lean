import Vuknob.Clock.Ranges
import Vuknob.Midi.Recycling

/-!
# The clock of a sequencer

`MachineSequencer::fill_buffers`, `src_jni/machine_sequencer.cc:708–772`, walks through the
ticks of a buffer by itself and relies on `MidiEventBuilder::skip` to find the end of it. The
position of the builder moves on with every event, so that a crowded buffer ends early: the
ticks that are left are not processed although the clock steps over them.
-/

namespace Vuknob

open Library

/-- The events that are queued at a tick, each by its three bytes. -/
abbrev TickEvents := List (UInt8 × UInt8 × UInt8)

/-- Queue the events of a tick. -/
def Building.queueAll : Building → TickEvents → Option Building
  | g, [] => some g
  | g, (status, first, second) :: events =>
    Option.bind (g.queue status first second) fun (_, g) ↦ queueAll g events

namespace Transport

/-- The variables of `fill_buffers`, with the lines and ticks that have been processed. -/
structure SequencerState where
  meb : Building
  sequencePosition : Int
  currentTick : Int
  skipLength : Int
  processed : List (Int × Int)

variable (t : Transport) (events : Nat → TickEvents)

/-- The body of the loop, `src_jni/machine_sequencer.cc:735–767`; what the pad, the loop and
the envelopes queue at each tick is given. -/
def sequencerBody (x : SequencerState) : Option SequencerState := do
  let meb ← x.meb.queueAll (events x.processed.length)
  let processed := x.processed ++ [(x.sequencePosition, x.currentTick)]
  let tick ← int (x.currentTick + 1)
  let tick := tick.tmod machineTicksPerLine
  Option.bind (if tick = 0 then t.nextLine x.sequencePosition else some x.sequencePosition)
    fun position ↦ do
      let skipLength ← t.tickLength .midi (evenLine position)
      some ⟨meb, position, tick, skipLength, processed⟩

/-- The loop, `src_jni/machine_sequencer.cc:734–769`. -/
def sequencerLoop : Nat → SequencerState → Option SequencerState
  | fuel, x =>
    match x.meb.skip x.skipLength with
    | none => none
    | some (false, meb) => some { x with meb := meb }
    | some (true, meb) =>
      match fuel with
      | 0 => none
      | fuel + 1 => Option.bind (t.sequencerBody events { x with meb := meb }) (sequencerLoop fuel)

/-- `fill_buffers`, `src_jni/machine_sequencer.cc:708–772`, with the lines and ticks that it
has processed. -/
def fillBuffers (meb : Building) (fuel : Nat) : Option (List (Int × Int) × Building) := do
  let loopLength ← t.getLoopLength
  let loopStop ← int (loopLength + t.loopStart)
  let meb ← meb.useBuffer (t.defaults.samples .midi)
  let x ← sequencerLoop { t with loopStop := loopStop } events fuel
    ⟨meb, t.nextSequencePosition, t.currentTick, t.nextTickAt .midi, []⟩
  let meb ← x.meb.finishCurrentBuffer
  some (x.processed, meb)

/-- The offsets into the buffer of the ticks that the clock steps over. -/
def tickOffsets : Nat → TickState → List Int
  | 0, _ => []
  | fuel + 1, x =>
    if x.nta < t.defaults.samples .midi then
      x.nta :: ((t.tickBody .midi x).map (tickOffsets fuel)).getD []
    else []

end Transport

/-! ## A builder among others -/

namespace Building

variable {ι : Type} [DecidableEq ι] {s : MidiSpace ι} {b : ι} {g : Building}

/-- The chains of the builders and the free chain are in order when the builder is as given. -/
def InOrder (s : MidiSpace ι) (b : ι) (g : Building) : Prop := ∃ nodes, (s.put b g).Represents nodes

/-- The number of events that remain to be placed. -/
def remainingLength (g : Building) : Nat :=
  ((walk (fun e ↦ some (g.heap.next e)) g.heap.count g.builder.remainingMidiChain).getD []).length

private theorem remainingLength_eq {nodes : Place ι → List EventId}
    (h : (s.put b g).Represents nodes) :
    g.remainingLength = (nodes (.remaining b)).length := by
  have hlist : IsList (fun e ↦ some (g.heap.next e)) g.builder.remainingMidiChain
      (nodes (.remaining b)) := by
    simpa [MidiSpace.put_head_apply] using h.chains.linked (.remaining b)
  have hlen : (nodes (.remaining b)).length ≤ g.heap.count := h.length_le (.remaining b)
  rw [remainingLength, (walk_eq_some_iff _ _ _ _).mpr ⟨hlist, hlen⟩, Option.getD_some]

private theorem InOrder.queue (hg : InOrder s b g) (hatt : g.builder.attached = true)
    (status first second : UInt8) :
    ∃ e g', g.queue status first second = some (e, g') ∧ InOrder s b g' := by
  obtain ⟨nodes, hr⟩ := hg
  obtain ⟨e, g', hq⟩ := exists_queue hr (.inl hatt) status first second
  obtain ⟨l, -, -, -, -, hcases⟩ := queue_spec hr hq
  rcases hcases with ⟨-, hr'⟩ | ⟨-, -, hr'⟩
  · exact ⟨e, g', hq, _, hr'⟩
  · exact ⟨e, g', hq, _, hr'⟩

/-- Where the builder is when the events of a tick have been queued. -/
private theorem InOrder.queueAll (events : TickEvents) (hg : InOrder s b g)
    (hatt : g.builder.attached = true) (hroom : g.builder.bufferPosition ≤ g.builder.bufferSize) :
    ∃ g', g.queueAll events = some g' ∧ InOrder s b g' ∧ g'.builder.attached = true ∧
      g'.builder.bufferSize = g.builder.bufferSize ∧
      g'.builder.bufferPLastSkip = g.builder.bufferPLastSkip ∧
      g'.builder.bufferPosition =
        min (g.builder.bufferPosition + events.length) g.builder.bufferSize := by
  induction events generalizing g with
  | nil =>
    refine ⟨g, rfl, hg, hatt, rfl, rfl, ?_⟩
    simp only [List.length_nil]
    omega
  | cons event events ih =>
    obtain ⟨status, first, second⟩ := event
    obtain ⟨e, g1, hq, hg1⟩ := hg.queue hatt status first second
    obtain ⟨hatt1, hsize1, hskip1, hpos1⟩ := queue_position hq
    have hroom1 : g1.builder.bufferPosition ≤ g1.builder.bufferSize := by
      rw [hpos1, hsize1]
      split <;> omega
    obtain ⟨g', hg', hvalid, hatt', hsize', hskip', hpos'⟩ :=
      ih hg1 (hatt1.trans hatt) hroom1
    refine ⟨g', ?_, hvalid, hatt', hsize'.trans hsize1, hskip'.trans hskip1, ?_⟩
    · rw [Building.queueAll, hq]
      exact hg'
    · rw [hpos', hpos1, hsize1, List.length_cons]
      split <;> omega

/-- A skip is defined if the sum of all skips is. -/
private theorem InOrder.skip (hg : InOrder s b g) {skipLength lastSkip : Int}
    (hskip : g.builder.bufferPLastSkip + skipLength = lastSkip)
    (hfits : -2 ^ 31 ≤ lastSkip ∧ lastSkip < 2 ^ 31) :
    ∃ g', g.skip skipLength =
        some (decide (max g.builder.bufferPosition lastSkip < g.builder.bufferSize), g') ∧
      InOrder s b g' ∧ g'.builder.attached = g.builder.attached ∧
      g'.builder.bufferSize = g.builder.bufferSize ∧ g'.builder.bufferPLastSkip = lastSkip ∧
      g'.builder.bufferPosition = max g.builder.bufferPosition lastSkip := by
  have hmax : (if lastSkip > g.builder.bufferPosition then lastSkip
      else g.builder.bufferPosition) = max g.builder.bufferPosition lastSkip := by
    split <;> omega
  have hdef : g.skip skipLength =
      some (decide (max g.builder.bufferPosition lastSkip < g.builder.bufferSize),
        { g with builder :=
          { g.builder with
            bufferPLastSkip := lastSkip
            bufferPosition := max g.builder.bufferPosition lastSkip } }) := by
    rw [Building.skip, hskip, if_neg (by omega), hmax]
  obtain ⟨nodes, hr⟩ := hg
  exact ⟨_, hdef, ⟨nodes, (skip_spec hr hdef).2.1⟩, rfl, rfl, rfl, rfl⟩

end Building

/-! ## Room in the buffer -/

/-- The events at `n` ticks from the `i`-th on. -/
def total (count : Nat → Nat) : Nat → Nat → Nat
  | _, 0 => 0
  | i, n + 1 => count i + total count (i + 1) n

/-- Whenever a tick comes, the events before it have not reached the end of the buffer: neither
those that remained from before, nor those of any tick since. -/
def Roomy (size : Int) (count : Nat → Nat) (remaining : Int) (offsets : List Int) : Prop :=
  ∀ j < offsets.length, remaining + total count 0 j < size ∧
    ∀ i < j, ∀ offset, offsets[i]? = some offset → offset + total count i (j - i) < size

private theorem total_tail (count : Nat → Nat) (i n : Nat) :
    total (fun k ↦ count (k + 1)) i n = total count (i + 1) n := by
  induction n generalizing i with
  | zero => rfl
  | succ n ih => rw [total, total, ih]

/-- The first tick and its events are taken off. -/
private theorem roomy_cons {size remaining offset : Int} {count : Nat → Nat}
    {offsets : List Int} :
    Roomy size count remaining (offset :: offsets) ↔
      remaining < size ∧
        Roomy size (fun k ↦ count (k + 1)) (min (max remaining offset + count 0) size) offsets := by
  have hsucc (i j : Nat) : j + 1 - (i + 1) = j - i := by omega
  constructor
  · intro h
    have h0 := (h 0 (by simp)).1
    rw [total] at h0
    refine ⟨by omega, fun j hj ↦ ⟨?_, ?_⟩⟩
    · obtain ⟨hrem, hticks⟩ := h (j + 1) (by simpa using hj)
      have hfirst := hticks 0 (by omega) offset rfl
      rw [total, Nat.zero_add] at hrem
      rw [Nat.sub_zero, total, Nat.zero_add] at hfirst
      rw [total_tail, Nat.zero_add]
      omega
    · intro i hi o ho
      have hi' := (h (j + 1) (by simpa using hj)).2 (i + 1) (by omega) o ho
      rwa [hsucc, ← total_tail] at hi'
  · rintro ⟨h0, h⟩ j hj
    cases j with
    | zero =>
      refine ⟨?_, fun i hi ↦ absurd hi (Nat.not_lt_zero i)⟩
      rw [total]
      omega
    | succ j =>
      obtain ⟨hrem, hticks⟩ := h j (by simpa using hj)
      rw [total_tail, Nat.zero_add] at hrem
      refine ⟨?_, ?_⟩
      · rw [total, Nat.zero_add]
        omega
      · intro i hi o ho
        cases i with
        | zero =>
          obtain rfl : offset = o := by simpa using ho
          rw [Nat.sub_zero, total, Nat.zero_add]
          omega
        | succ i =>
          rw [hsucc, ← total_tail]
          exact hticks i (by omega) o ho

/-- The carry matters only where it leaves room. -/
private theorem roomy_congr {size p q : Int} {count : Nat → Nat} {offsets : List Int}
    (h : p < size ∨ q < size → p = q) :
    Roomy size count p offsets ↔ Roomy size count q offsets := by
  refine forall₂_congr fun j hj ↦ and_congr_left' ?_
  omega

/-! ## The two loops -/

namespace Transport

variable {t : Transport} {events : Nat → TickEvents} {ι : Type} [DecidableEq ι]
  {s : MidiSpace ι} {b : ι}

/-- The sequencer is at the tick that the clock is at. -/
private structure Synchronous (t : Transport) (s : MidiSpace ι) (b : ι) (x : SequencerState)
    (y : TickState) : Prop where
  inOrder : Building.InOrder s b x.meb
  attached : x.meb.builder.attached = true
  size : x.meb.builder.bufferSize = t.defaults.samples .midi
  skip : x.meb.builder.bufferPLastSkip + x.skipLength = y.nta
  fits : -2 ^ 31 ≤ y.nta ∧ y.nta < 2 ^ 31
  position : x.sequencePosition = y.nextSequencePosition
  tick : x.currentTick = y.currentTick
  even : y.evenLine = evenLine y.nextSequencePosition
  processed : x.processed = y.stepped

/-- A round of the clock is one of the sequencer. -/
private theorem sequencerBody_of_tickBody {x : SequencerState} {y z : TickState} {meb : Building}
    (hbody : t.tickBody .midi y = some z) (hposition : x.sequencePosition = y.nextSequencePosition)
    (htick : x.currentTick = y.currentTick) (heven : y.evenLine = evenLine y.nextSequencePosition)
    (hmeb : x.meb.queueAll (events x.processed.length) = some meb) :
    ∃ skipLength, t.sequencerBody events x = some ⟨meb, z.nextSequencePosition, z.currentTick,
        skipLength, x.processed ++ [(y.nextSequencePosition, y.currentTick)]⟩ ∧
      z.nta = y.nta + skipLength ∧ (-2 ^ 31 ≤ z.nta ∧ z.nta < 2 ^ 31) ∧
      z.evenLine = evenLine z.nextSequencePosition := by
  rw [tickBody, if_pos rfl, Option.bind_eq_some_iff] at hbody
  obtain ⟨u, hu, hbody⟩ := hbody
  simp only [Option.bind_eq_bind, Option.bind_eq_some_iff, int_eq_some_iff,
    Option.some.injEq] at hbody
  obtain ⟨length, hlength, nta, ⟨hfits, rfl⟩, rfl⟩ := hbody
  simp only [synchronize, Option.bind_eq_bind, Option.bind_eq_some_iff] at hu
  obtain ⟨tick, hint, hu⟩ := hu
  have hunfold (p : Int) (hp : (if tick.tmod machineTicksPerLine = 0 then
      t.nextLine y.nextSequencePosition else some y.nextSequencePosition) = some p)
      (hl : t.tickLength .midi (evenLine p) = some length) :
      t.sequencerBody events x = some ⟨meb, p, tick.tmod machineTicksPerLine, length,
        x.processed ++ [(y.nextSequencePosition, y.currentTick)]⟩ := by
    simp only [sequencerBody, hmeb, hposition, htick, hint, hp, hl, Option.bind_eq_bind,
      Option.bind_some]
  by_cases h0 : tick.tmod machineTicksPerLine = 0
  · rw [if_pos h0] at hu
    obtain ⟨p, hp, hu⟩ := Option.bind_eq_some_iff.mp hu
    obtain rfl := Option.some.inj hu
    exact ⟨length, hunfold p (by rw [if_pos h0, hp]) hlength, rfl, hfits, rfl⟩
  · rw [if_neg h0] at hu
    obtain rfl := Option.some.inj hu
    have hl : t.tickLength .midi (evenLine y.nextSequencePosition) = some length := by
      rw [← heven]
      exact hlength
    exact ⟨length, hunfold _ (by rw [if_neg h0]) hl, rfl, hfits, heven⟩

private theorem stepped_of_tickBody {y z : TickState} (h : t.tickBody .midi y = some z) :
    z.stepped = y.stepped ++ [(y.nextSequencePosition, y.currentTick)] := by
  obtain ⟨u, hu, -, rfl⟩ := tickBody_cases h
  rw [if_pos rfl] at hu
  rcases synchronize_cases hu with ⟨-, rfl⟩ | ⟨-, p, -, rfl⟩
  · rfl
  · rfl

/-- The ticks that have been stepped over are not forgotten. -/
private theorem stepped_isPrefix {fuel : Nat} {y y' : TickState}
    (h : t.tickLoop .midi fuel y = some y') : y.stepped <+: y'.stepped := by
  refine tickLoop_invariant (P := fun z ↦ y.stepped <+: z.stepped) ?_ h (List.prefix_refl _)
  intro z z' hz hbody
  rw [stepped_of_tickBody hbody]
  exact hz.trans (List.prefix_append _ _)

/-- What comes of the loop of the sequencer when the clock has stepped over these ticks. -/
private def Follows (t : Transport) (events : Nat → TickEvents) (s : MidiSpace ι) (b : ι)
    (fuel : Nat) (x : SequencerState) (y : TickState) (stepped : List (Int × Int)) : Prop :=
  ∃ x', t.sequencerLoop events fuel x = some x' ∧ Building.InOrder s b x'.meb ∧
    x'.processed <+: stepped ∧
    (x'.processed = stepped ↔
      Roomy (t.defaults.samples .midi) (fun k ↦ (events (x.processed.length + k)).length)
        x.meb.builder.bufferPosition (t.tickOffsets fuel y))

private theorem sequencerLoop_of_room {fuel : Nat} {x x1 : SequencerState} {meb : Building}
    (hskip : x.meb.skip x.skipLength = some (true, meb))
    (hbody : t.sequencerBody events { x with meb := meb } = some x1) :
    t.sequencerLoop events (fuel + 1) x = t.sequencerLoop events fuel x1 := by
  rw [sequencerLoop, hskip]
  exact congrArg (fun o ↦ Option.bind o (t.sequencerLoop events fuel)) hbody

private theorem sequencerLoop_of_full {fuel : Nat} {x : SequencerState} {meb : Building}
    (hskip : x.meb.skip x.skipLength = some (false, meb)) :
    t.sequencerLoop events fuel x = some { x with meb := meb } := by
  cases fuel with
  | zero => rw [sequencerLoop, hskip]
  | succ fuel => rw [sequencerLoop, hskip]

/-- When the buffer is over for the clock, it is for the sequencer. -/
private theorem follows_of_end {fuel : Nat} {x : SequencerState} {y : TickState}
    (hxy : Synchronous t s b x y) (hend : ¬ y.nta < t.defaults.samples .midi) :
    Follows t events s b fuel x y y.stepped := by
  obtain ⟨meb, hskip, hmeb, -⟩ := hxy.inOrder.skip hxy.skip hxy.fits
  rw [hxy.size, decide_eq_false (by omega)] at hskip
  have hoffsets : t.tickOffsets fuel y = [] := by
    cases fuel with
    | zero => rfl
    | succ fuel => exact if_neg hend
  refine ⟨_, sequencerLoop_of_full hskip, hmeb, ?_, iff_of_true hxy.processed ?_⟩
  · exact hxy.processed ▸ List.prefix_refl _
  · rw [hoffsets]
    exact nofun

/-- When events have reached the end of the buffer, the sequencer misses the ticks that are
left. -/
private theorem follows_of_crowded {fuel : Nat} {x : SequencerState} {y z : TickState}
    {stepped : List (Int × Int)} (hxy : Synchronous t s b x y)
    (hlt : y.nta < t.defaults.samples .midi) (hz : t.tickBody .midi y = some z)
    (hstepped : y.stepped ++ [(y.nextSequencePosition, y.currentTick)] <+: stepped)
    (hfull : ¬ x.meb.builder.bufferPosition < t.defaults.samples .midi) :
    Follows t events s b (fuel + 1) x y stepped := by
  obtain ⟨meb, hskip, hmeb, -⟩ := hxy.inOrder.skip hxy.skip hxy.fits
  rw [hxy.size, decide_eq_false (by omega)] at hskip
  rw [← hxy.processed] at hstepped
  refine ⟨_, sequencerLoop_of_full hskip, hmeb, ?_, iff_of_false ?_ ?_⟩
  · exact (List.prefix_append _ _).trans hstepped
  · intro (heq : x.processed = stepped)
    have hlen := hstepped.length_le
    rw [← heq, List.length_append, List.length_singleton] at hlen
    omega
  · rw [tickOffsets, if_pos hlt, hz, Option.map_some, Option.getD_some, roomy_cons]
    exact fun h ↦ hfull h.1

/-- When there is room, both are at the next tick. -/
private theorem exists_synchronous (events : Nat → TickEvents) {x : SequencerState} {y z : TickState}
    (hxy : Synchronous t s b x y) (hz : t.tickBody .midi y = some z)
    (hlt : y.nta < t.defaults.samples .midi)
    (hroom : x.meb.builder.bufferPosition < t.defaults.samples .midi) :
    ∃ x1, (∀ fuel, t.sequencerLoop events (fuel + 1) x = t.sequencerLoop events fuel x1) ∧
      Synchronous t s b x1 z ∧ x1.processed.length = x.processed.length + 1 ∧
      x1.meb.builder.bufferPosition =
        min (max x.meb.builder.bufferPosition y.nta + (events x.processed.length).length)
          (t.defaults.samples .midi) := by
  obtain ⟨meb, hskip, hmeb, hatt, hsize, hlast, hposition⟩ := hxy.inOrder.skip hxy.skip hxy.fits
  rw [hxy.size] at hskip hsize
  rw [decide_eq_true (by omega)] at hskip
  obtain ⟨meb', hqueue, hmeb', hatt', hsize', hlast', hposition'⟩ :=
    hmeb.queueAll (events x.processed.length) (hatt.trans hxy.attached) (by omega)
  obtain ⟨length, hbody, hnta, hfits, heven⟩ :=
    sequencerBody_of_tickBody (x := { x with meb := meb }) hz hxy.position hxy.tick hxy.even hqueue
  refine ⟨_, fun fuel ↦ sequencerLoop_of_room hskip hbody, ?_, by simp, ?_⟩
  · exact
      { inOrder := hmeb'
        attached := hatt'
        size := hsize'.trans hsize
        skip := by rw [hlast', hlast, hnta]
        fits := hfits
        position := rfl
        tick := rfl
        even := heven
        processed := by rw [stepped_of_tickBody hz, hxy.processed] }
  · rw [hposition', hposition, hsize]

/-- The sequencer processes the ticks of the clock in their order, and all of them exactly if
there is room whenever one comes. -/
private theorem follows_of_tickLoop (events : Nat → TickEvents) {fuel : Nat} {x : SequencerState}
    {y y' : TickState} (hxy : Synchronous t s b x y) (hy : t.tickLoop .midi fuel y = some y') :
    Follows t events s b fuel x y y'.stepped := by
  induction fuel generalizing x y with
  | zero =>
    rw [tickLoop] at hy
    split at hy
    · cases hy
    · next hend =>
      obtain rfl := Option.some.inj hy
      exact follows_of_end hxy hend
  | succ fuel ih =>
    rw [tickLoop] at hy
    split at hy
    · next hlt =>
      obtain ⟨z, hz, hy⟩ := Option.bind_eq_some_iff.mp hy
      by_cases hroom : x.meb.builder.bufferPosition < t.defaults.samples .midi
      · obtain ⟨x1, hloop, hsync, hlen, hposition⟩ :=
          exists_synchronous events hxy hz hlt hroom
        obtain ⟨x', hx', hmeb, hprefix, hiff⟩ := ih hsync hy
        refine ⟨x', (hloop fuel).trans hx', hmeb, hprefix, hiff.trans ?_⟩
        rw [tickOffsets, if_pos hlt, hz, Option.map_some, Option.getD_some, roomy_cons,
          and_iff_right hroom, hposition, hlen]
        simp only [Nat.add_zero, Nat.add_assoc, Nat.add_comm 1]
      · have hstepped := stepped_isPrefix hy
        rw [stepped_of_tickBody hz] at hstepped
        exact follows_of_crowded hxy hlt hz hstepped hroom
    · next hend =>
      obtain rfl := Option.some.inj hy
      exact follows_of_end hxy hend

/-- There is room in the buffer for every tick of the clock, after what remains of the buffers
before it. -/
def RoomyBuffer (t : Transport) (meb : Building) (events : Nat → TickEvents) (fuel : Nat) : Prop :=
  Roomy (t.defaults.samples .midi) (fun k ↦ (events k).length) meb.remainingLength
    (t.tickOffsets fuel (t.tickStart .midi))

/-- `fill_buffers` returns when the clock does, having processed its ticks in their order, and
all of them exactly if there is room. -/
theorem fillBuffers_spec {meb : Building} (hloop : t.LoopSettings)
    (hfits : -2 ^ 31 ≤ t.nextTickAt .midi ∧ t.nextTickAt .midi < 2 ^ 31)
    (hmeb : Building.InOrder s b meb) {fuel : Nat} {y : TickState}
    (hy : t.tickLoop .midi fuel (t.tickStart .midi) = some y) (events : Nat → TickEvents) :
    ∃ processed meb', t.fillBuffers events meb fuel = some (processed, meb') ∧
      Building.InOrder s b meb' ∧ processed <+: y.stepped ∧
      (processed = y.stepped ↔ t.RoomyBuffer meb events fuel) := by
  obtain ⟨⟨hstart, hstart'⟩, hstop, hstop'⟩ := hloop
  obtain ⟨nodes, hr⟩ := hmeb
  obtain ⟨meb1, moved, left, huse, -, hr1, -, hatt, hposition, hsize, hlast, hremaining, hleft⟩ :=
    Building.useBuffer_spec hr (t.defaults.samples .midi)
  have hsync : Synchronous t s b
      ⟨meb1, t.nextSequencePosition, t.currentTick, t.nextTickAt .midi, []⟩
      (t.tickStart .midi) :=
    { inOrder := ⟨_, hr1⟩
      attached := hatt
      size := hsize
      skip := by simp only [hlast, tickStart, Int.zero_add]
      fits := hfits
      position := rfl
      tick := rfl
      even := rfl
      processed := rfl }
  obtain ⟨x', hx', ⟨nodes', hr'⟩, hprefix, hiff⟩ := follows_of_tickLoop events hsync hy
  obtain ⟨meb', hmeb', -, hr'', -⟩ := Building.finishCurrentBuffer_spec hr'
  refine ⟨x'.processed, meb', ?_, ⟨_, hr''⟩, hprefix, hiff.trans ?_⟩
  · have hstops : t.loopStop - t.loopStart + t.loopStart = t.loopStop := by omega
    simp only [fillBuffers, getLoopLength, @int_of_fits (t.loopStop - t.loopStart) (by omega),
      hstops, @int_of_fits (t.loopStop) (by omega), huse, Option.bind_eq_bind,
      Option.bind_some]
    rw [hx', Option.bind_some, hmeb', Option.bind_some]
  · rw [RoomyBuffer, Building.remainingLength_eq hr, hremaining]
    simp only [List.length_nil, Nat.zero_add]
    apply roomy_congr
    simp only [hposition, List.length_append]
    rcases hleft with rfl | hfull
    · simp
    · omega

end Transport

/-! ## Runs -/

/-- The clock and the builders, with the ticks that one sequencer has processed and those that
the clock has stepped over. -/
structure Playing (ι : Type) where
  transport : Transport
  midi : MidiSpace ι
  processed : List (Int × Int)
  stepped : List (Int × Int)

/-- A call that acts on the clock, one on a builder, or a buffer with the events of its ticks. -/
inductive PlayCommand (ι : Type)
  | call (call : TransportCall)
  | midi (b : ι) (call : MidiCall)
  | buffer (fuel : Nat) (events : Nat → TickEvents)

namespace Playing

variable {ι : Type} [DecidableEq ι]

/-- Carry out a command, with the ticks that the sequencer of builder `b` processes and those
that the clock steps over in the course of it. The chain is rendered between the two parts of
`fillSink`, `src_jni/machine.cc:1891–1897`. -/
def step (b : ι) (s : Playing ι) :
    PlayCommand ι → Option ((List (Int × Int) × List (Int × Int)) × Playing ι)
  | .call (.fillSink _) => none
  | .call call => (s.transport.step call).map fun (_, t) ↦ (([], []), { s with transport := t })
  | .midi a call => (s.midi.step (a, call)).map fun (_, m) ↦ (([], []), { s with midi := m })
  | .buffer fuel events => do
    let t ← s.transport.calculateSamplesPerTick
    let (processed, meb) ← t.fillBuffers events (s.midi.building b) fuel
    let x ← t.tickLoop .midi fuel (t.tickStart .midi)
    let t ← t.calculateNextTickAtAndSequencePosition fuel
    some ((processed, x.stepped),
      ⟨t, s.midi.put b meb, s.processed ++ processed, s.stepped ++ x.stepped⟩)

/-- The sequencer processes the ticks that the clock steps over. -/
def AllTicks (_ : Playing ι) (_ : PlayCommand ι) (r : List (Int × Int) × List (Int × Int)) :
    Prop :=
  r.1 = r.2

/-- In a buffer there is room for every tick. -/
def LeavesRoom (b : ι) (s : Playing ι) (command : PlayCommand ι)
    (_ : List (Int × Int) × List (Int × Int)) : Prop :=
  match command with
  | .buffer fuel events => ∀ t, s.transport.calculateSamplesPerTick = some t →
      t.RoomyBuffer (s.midi.building b) events fuel
  | _ => True

/-- The clock is in its ranges and the chains are in order. -/
structure Sound (s : Playing ι) : Prop where
  transport : s.transport.Ranges
  midi : ∃ nodes, s.midi.Represents nodes

variable {b : ι} {s s' : Playing ι} {command : PlayCommand ι}
  {r : List (Int × Int) × List (Int × Int)}

/-- A buffer is the lengths of the ticks, the sequencer, and then the clock. -/
theorem buffer_cases {fuel : Nat} {events : Nat → TickEvents}
    (h : s.step b (.buffer fuel events) = some (r, s')) :
    ∃ t meb y, s.transport.calculateSamplesPerTick = some t ∧
      t.fillBuffers events (s.midi.building b) fuel = some (r.1, meb) ∧
      t.tickLoop .midi fuel (t.tickStart .midi) = some y ∧ y.stepped = r.2 ∧
      s.transport.step (.fillSink fuel) = some (.returned, s'.transport) ∧
      s'.midi = s.midi.put b meb ∧ s'.processed = s.processed ++ r.1 ∧
      s'.stepped = s.stepped ++ r.2 := by
  simp only [step, Option.bind_eq_bind, Option.bind_eq_some_iff, Option.some.injEq,
    Prod.mk.injEq] at h
  obtain ⟨t, ht, ⟨processed, meb⟩, hfill, y, hy, t', ht', rfl, rfl⟩ := h
  refine ⟨t, meb, y, ht, hfill, hy, rfl, ?_, rfl, rfl, rfl⟩
  simp only [Transport.step, ht, ht', Option.bind_eq_bind, Option.bind_some]

/-- The commands other than a buffer concern no ticks. -/
theorem step_cases (h : s.step b command = some (r, s')) :
    (r = ([], []) ∧ s'.processed = s.processed ∧ s'.stepped = s.stepped ∧
        (∀ fuel events, command ≠ .buffer fuel events) ∧
        ((∃ call r, s.transport.step call = some (r, s'.transport) ∧ s'.midi = s.midi) ∨
          ∃ a call r, s'.transport = s.transport ∧ s.midi.step (a, call) = some (r, s'.midi))) ∨
      ∃ fuel events, command = .buffer fuel events := by
  cases command with
  | buffer fuel events => exact .inr ⟨fuel, events, rfl⟩
  | midi a call =>
    simp only [step, Option.map_eq_some_iff, Prod.mk.injEq] at h
    obtain ⟨⟨mev, m⟩, hm, rfl, rfl⟩ := h
    exact .inl ⟨rfl, rfl, rfl, nofun, .inr ⟨a, call, mev, rfl, hm⟩⟩
  | call call =>
    cases call with
    | fillSink => cases h
    | _ =>
      simp only [step, Option.map_eq_some_iff, Prod.mk.injEq] at h
      obtain ⟨⟨result, t⟩, ht, rfl, rfl⟩ := h
      exact .inl ⟨rfl, rfl, rfl, nofun, .inl ⟨_, result, ht, rfl⟩⟩

/-- A command keeps the clock and the chains sound, and processes the ticks exactly if there
is room for them. -/
theorem Sound.step (hs : s.Sound) (h : s.step b command = some (r, s')) :
    s'.Sound ∧ (LeavesRoom b s command r ↔ AllTicks s command r) := by
  obtain ⟨hranges, nodes, hmidi⟩ := hs
  rcases step_cases h with ⟨rfl, -, -, hne, hcases⟩ | ⟨fuel, events, rfl⟩
  · have hiff : LeavesRoom b s command ([], []) ↔ AllTicks s command ([], []) := by
      refine iff_of_true ?_ rfl
      cases command with
      | buffer fuel events => exact absurd rfl (hne fuel events)
      | call => trivial
      | midi => trivial
    rcases hcases with ⟨call, r, ht, hm⟩ | ⟨a, call, r, ht, hm⟩
    · exact ⟨⟨hranges.step ht, nodes, hm ▸ hmidi⟩, hiff⟩
    · exact ⟨⟨ht ▸ hranges, hmidi.step hm⟩, hiff⟩
  · obtain ⟨t, meb, y, ht, hfill, hy, hstepped, htransport, hm, -⟩ := buffer_cases h
    obtain ⟨⟨spt, sptf, hsame⟩, -⟩ := Transport.calculateSamplesPerTick_eq ht
    have hloop : t.LoopSettings := by
      rw [hsame]
      exact ⟨hranges.loop.start, hranges.loop.stop⟩
    have hnta : 0 ≤ t.nextTickAt .midi ∧ t.nextTickAt .midi < 2 ^ 31 := by
      rw [hsame]
      exact hranges.nextTickAt .midi (by decide)
    have hput : Building.InOrder s.midi b (s.midi.building b) := ⟨nodes, by
      rw [MidiSpace.put_building]
      exact hmidi⟩
    obtain ⟨processed, meb', hfill', ⟨nodes', hr'⟩, -, hiff⟩ :=
      Transport.fillBuffers_spec hloop ⟨by omega, hnta.2⟩ hput hy events
    obtain ⟨rfl, rfl⟩ := Prod.mk.inj (Option.some.inj (hfill'.symm.trans hfill))
    refine ⟨⟨hranges.step htransport, nodes', hm ▸ hr'⟩, ?_⟩
    rw [AllTicks, ← hstepped, hiff]
    constructor
    · intro hroom
      exact hroom _ ht
    · rintro hroom t' ht'
      obtain rfl := Option.some.inj (ht.symm.trans ht')
      exact hroom

/-- The ticks of a run in whose buffers all ticks are processed. -/
theorem processed_of_run {commands : List (PlayCommand ι)}
    (h : Run (step b) AllTicks s commands s') (hs : s.processed = s.stepped) :
    s'.processed = s'.stepped := by
  refine h.invariant (fun s ↦ s.processed = s.stepped) ?_ hs
  intro s command r s' hs hok h
  rcases step_cases h with ⟨-, hp, hq, -⟩ | ⟨fuel, events, rfl⟩
  · rw [hp, hq, hs]
  · obtain ⟨t, meb, y, -, -, -, -, -, -, hp, hq⟩ := buffer_cases h
    rw [hp, hq, hs, hok]

omit [DecidableEq ι] in
theorem sound_of_initial {m : MidiSpace ι} (hm : m.Initial) :
    Sound ⟨.initial, m, [], []⟩ :=
  ⟨Transport.ranges_initial,
    _, (Watched.tracked_of_initial (w := ⟨m, fun _ ↦ 0⟩) hm).represents⟩

/-- In every buffer that the clock goes through the sequencer processes ticks of the clock, in
their order, and all of them exactly if there is room; and so in a run from the start of the
program, after which every tick has been processed once if there always was room. -/
theorem ticks_processed_iff (b : ι) :
    (∀ (t : Transport) (m : MidiSpace ι) (meb : Building) (fuel : Nat)
        (y : Transport.TickState) (events : Nat → TickEvents),
      t.LoopSettings → (-2 ^ 31 ≤ t.nextTickAt .midi ∧ t.nextTickAt .midi < 2 ^ 31) →
      Building.InOrder m b meb → t.tickLoop .midi fuel (t.tickStart .midi) = some y →
      ∃ processed meb', t.fillBuffers events meb fuel = some (processed, meb') ∧
        processed <+: y.stepped ∧ (processed = y.stepped ↔ t.RoomyBuffer meb events fuel)) ∧
    ∀ (m : MidiSpace ι) (commands : List (PlayCommand ι)) (s : Playing ι), m.Initial →
      (Run (step b) (LeavesRoom b) ⟨.initial, m, [], []⟩ commands s ↔
        Run (step b) AllTicks ⟨.initial, m, [], []⟩ commands s) ∧
      (Run (step b) (LeavesRoom b) ⟨.initial, m, [], []⟩ commands s →
        s.processed = s.stepped) := by
  constructor
  · intro t m meb fuel y events hloop hfits hmeb hy
    obtain ⟨processed, meb', hfill, -, hrest⟩ :=
      Transport.fillBuffers_spec hloop hfits hmeb hy events
    exact ⟨processed, meb', hfill, hrest⟩
  · intro m commands s hm
    have hiff : Run (step b) (LeavesRoom b) ⟨.initial, m, [], []⟩ commands s ↔
        Run (step b) AllTicks ⟨.initial, m, [], []⟩ commands s :=
      Run.iff_of_invariant Sound (fun _ _ _ _ hs h ↦ (hs.step h).2)
        (fun _ _ _ _ hs _ h ↦ (hs.step h).1) (sound_of_initial hm)
    exact ⟨hiff, fun hrun ↦ processed_of_run (hiff.mp hrun) rfl⟩

/-- A machine space with one sequencer. -/
def oneSequencer : MidiSpace Unit where
  heap := ⟨fun _ ↦ ⟨⟨0, []⟩, none, none⟩, 0, none⟩
  builders _ := ⟨[], false, 0, 0, 0, none, none⟩

private theorem initial_oneSequencer : oneSequencer.Initial :=
  ⟨rfl, fun _ ↦ rfl, fun _ ↦ rfl, fun _ ↦ rfl, fun _ ↦ rfl⟩

/-- A buffer of the default size at the highest tempo: 31 ticks, the last one at sample 1020. -/
def fastBuffer (events : Nat → TickEvents) : List (PlayCommand Unit) :=
  [.call (.createSignal .midi), .call (.setBpm 200), .call (.setLpb 24), .buffer 31 events]

/-- `count` notes at the tick before the last one. -/
def chord (count n : Nat) : TickEvents :=
  if n = 29 then List.replicate count (0x90, 60, 100) else []

/-- With 37 notes at the tick before, the last tick is still processed. -/
theorem ticks_processed_iff_fastBuffer :
    ∃ s, Run (step ()) (LeavesRoom ()) ⟨.initial, oneSequencer, [], []⟩ (fastBuffer (chord 37)) s ∧
      s.processed = s.stepped ∧ s.processed.length = 31 := by
  have hall : (runAll (step ()) (fun _ _ r ↦ r.1 = r.2) ⟨.initial, oneSequencer, [], []⟩
      (fastBuffer (chord 37))).any (fun s ↦ s.processed.length = 31) = true := by
    decide +kernel
  obtain ⟨s, hs, hlen⟩ := (Option.any_eq_true _ _).mp hall
  have hrun := (Run.of_runAll hs).mono (o := AllTicks) fun _ _ r h ↦
    of_decide_eq_true (p := r.1 = r.2) h
  have htheorem := (ticks_processed_iff ()).2 oneSequencer (fastBuffer (chord 37)) s
    initial_oneSequencer
  have hroom := htheorem.1.mpr hrun
  exact ⟨s, hroom, htheorem.2 hroom, of_decide_eq_true hlen⟩

/-- With 38 notes, the last tick of the buffer is not processed, and never will be. -/
theorem tick_missed :
    ¬ ∀ (m : MidiSpace Unit) (commands : List (PlayCommand Unit)) (s : Playing Unit),
      m.Initial → Run (step ()) (fun _ _ _ ↦ True) ⟨.initial, m, [], []⟩ commands s →
      s.processed = s.stepped := by
  intro hclaim
  have hlost : (runAll (step ()) (fun _ _ _ ↦ true) ⟨.initial, oneSequencer, [], []⟩
      (fastBuffer (chord 38))).any (fun s ↦ s.stepped = s.processed ++ [(1, 14)]) = true := by
    decide +kernel
  obtain ⟨s, hs, hstepped⟩ := (Option.any_eq_true _ _).mp hlost
  have hrun := (Run.of_runAll hs).mono (o := fun _ _ _ ↦ True) fun _ _ _ _ ↦ trivial
  have heq := hclaim oneSequencer _ s initial_oneSequencer hrun
  rw [of_decide_eq_true hstepped] at heq
  simp at heq

end Playing

end Vuknob
