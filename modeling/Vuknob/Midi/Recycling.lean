import Mathlib.Data.Fintype.Defs
import Vuknob.Library.Runs
import Vuknob.Midi.Calls

/-!
# When events are recycled under a reader

`finish_current_buffer` gives the events of a buffer back to the free chain although they
are read from the buffer later, `src_jni/machine_sequencer.cc:730–771` and
`src_jni/machine.cc:1096–1102`. They are on top of the free chain then, so they stay as they
are exactly as long as every event that is queued comes from above them.
-/

namespace Vuknob

open Library

namespace MidiHeap

/-- The number of events on the free chain. -/
def freeLength (h : MidiHeap) : Nat :=
  ((walk (fun e ↦ some (h.next e)) h.count h.nextFreeMidiEvent).getD []).length

theorem Holds.freeLength_eq {ι : Type} {h : MidiHeap} {head : Place ι → Option EventId}
    {nodes : Place ι → List EventId} (hh : h.Holds head nodes) :
    h.freeLength = (nodes .free).length := by
  have hlist := hh.chains.linked .free
  rw [hh.free] at hlist
  rw [freeLength, (walk_eq_some_iff _ _ _ _).mpr ⟨hlist, hh.length_le .free⟩, Option.getD_some]

end MidiHeap

namespace MidiSpace

variable {ι : Type} (s : MidiSpace ι)

/-- The events in the buffer of a builder. -/
def placed (b : ι) : List EventId := (s.builders b).buffer.map Prod.snd

/-- The builder has finished its buffer, and there are events in it. -/
def Exposed (b : ι) : Prop := (s.builders b).attached = false ∧ s.placed b ≠ []

end MidiSpace

/-- The builders, with the length of the free chain when each of them last finished a buffer. -/
structure Watched (ι : Type) where
  space : MidiSpace ι
  releasedAt : ι → Nat

namespace Watched

variable {ι : Type}

/-- A call, with the length of the free chain noted at the end of a buffer. -/
def step [DecidableEq ι] (w : Watched ι) : ι × MidiCall → Option (Option EventId × Watched ι)
  | (b, call) =>
    (w.space.step (b, call)).map fun (mev, s) ↦
      (mev,
        { space := s
          releasedAt :=
            if call = .finishCurrentBuffer ∧ (w.space.builders b).attached = true then
              Function.update w.releasedAt b s.heap.freeLength
            else w.releasedAt })

/-- When an event is queued, the free chain is longer than it was when any builder with
events in its buffer finished that buffer. -/
def Spare (w : Watched ι) (call : ι × MidiCall) (_ : Option EventId) : Prop :=
  call.2.queues = true → ∀ b, w.space.Exposed b → w.releasedAt b < w.space.heap.freeLength

/-- The event that `pop_next_free_midi` returns is in no buffer. -/
def NotReferenced (w : Watched ι) (_ : ι × MidiCall) (mev : Option EventId) : Prop :=
  ∀ e, mev = some e → ∀ b, e ∉ w.space.placed b

/-- The events in a buffer are at the end of the freeable chain while it is filled. When it
is finished they are, in reverse, on top of what was the free chain then, which later calls
have not touched. -/
structure Tracked (w : Watched ι) (nodes : Place ι → List EventId) : Prop where
  represents : w.space.Represents nodes
  attached : ∀ b, (w.space.builders b).attached = true →
    ∃ older, nodes (.freeable b) = older ++ w.space.placed b
  finished : ∀ b, (w.space.builders b).attached = false → nodes (.freeable b) = []
  exposed : ∀ b, w.space.Exposed b → ∃ above below,
    nodes .free = above ++ ((w.space.placed b).reverse ++ below) ∧
      ((w.space.placed b).reverse ++ below).length = w.releasedAt b

variable {w w' : Watched ι} {nodes : Place ι → List EventId} {b : ι}

/-- At the start there are no chains. -/
theorem tracked_of_initial (hs : w.space.Initial) : w.Tracked fun _ ↦ [] where
  represents := hs.represents
  attached b hb := by simp [hs.attached b] at hb
  finished _ _ := rfl
  exposed b hb := by
    refine absurd ?_ hb.2
    rw [MidiSpace.placed, hs.buffer b, List.map_nil]

/-- The events of a buffer are on the freeable chain of its builder or on the free chain. -/
theorem Tracked.mem_of_placed (ht : w.Tracked nodes) {e : EventId}
    (he : e ∈ w.space.placed b) :
    (w.space.builders b).attached = true ∧ e ∈ nodes (.freeable b) ∨
      w.space.Exposed b ∧ e ∈ nodes .free := by
  cases hatt : (w.space.builders b).attached with
  | true =>
    obtain ⟨older, hl⟩ := ht.attached b hatt
    exact .inl ⟨rfl, by simp [hl, he]⟩
  | false =>
    have hexp : w.space.Exposed b := ⟨hatt, List.ne_nil_of_mem he⟩
    obtain ⟨above, below, hl, -⟩ := ht.exposed b hexp
    exact .inr ⟨hexp, by simp [hl, he]⟩

/-- The events of a buffer have been allocated. -/
theorem Tracked.lt_count (ht : w.Tracked nodes) {e : Nat} (he : e ∈ w.space.placed b) :
    e < w.space.heap.count := by
  rcases ht.mem_of_placed he with ⟨-, hm⟩ | ⟨-, hm⟩
  · exact ht.represents.allocated _ e hm
  · exact ht.represents.allocated _ e hm

/-- A free chain longer than its part below a mark keeps that part when its first event is
taken. -/
private theorem exists_above {e : EventId} {l above base : List EventId}
    (hl : e :: l = above ++ base) (hlt : base.length < (e :: l).length) :
    ∃ above', above = e :: above' ∧ l = above' ++ base := by
  cases above with
  | nil =>
    rw [hl, List.nil_append] at hlt
    exact absurd hlt (Nat.lt_irrefl _)
  | cons x above' =>
    rw [List.cons_append, List.cons.injEq] at hl
    obtain ⟨rfl, rfl⟩ := hl
    exact ⟨above', rfl, rfl⟩

/-- The first free event is in no buffer exactly when the free chain is longer than it was at
the end of every buffer that has events. -/
private theorem Tracked.spare_iff (ht : w.Tracked nodes) {e : Nat} {l : List EventId}
    (hpop : nodes .free = e :: l ∨ nodes .free = [] ∧ w.space.heap.count ≤ e) :
    (∀ a, w.space.Exposed a → w.releasedAt a < w.space.heap.freeLength) ↔
      ∀ a, e ∉ w.space.placed a := by
  rw [ht.represents.freeLength_eq]
  constructor
  · intro hspare a he
    rcases hpop with hl | ⟨hl, hnew⟩
    · rcases ht.mem_of_placed he with ⟨-, hm⟩ | ⟨hexp, -⟩
      · have := ht.represents.apart hm (q := .free) (by simp [hl])
        cases this
      · obtain ⟨above, below, hsplit, hlen⟩ := ht.exposed a hexp
        have hlt := hspare a hexp
        rw [← hlen, hl] at hlt
        obtain ⟨above', rfl, -⟩ := exists_above (hl.symm.trans hsplit) hlt
        have hnd := ht.represents.chains.nodup .free
        rw [hsplit, List.cons_append, List.nodup_cons] at hnd
        exact hnd.1 (by simp [he])
    · have := ht.lt_count he
      omega
  · intro hnone a hexp
    obtain ⟨above, below, hsplit, hlen⟩ := ht.exposed a hexp
    have habove : above ≠ [] := by
      rintro rfl
      -- With nothing above them the last event of the buffer is the first free one.
      obtain ⟨init, z, hz⟩ := (List.eq_nil_or_concat' (w.space.placed a)).resolve_left hexp.2
      rw [hz, List.reverse_concat] at hsplit
      rcases hpop with hl | ⟨hl, -⟩
      · rw [hl] at hsplit
        obtain rfl : e = z := by simpa using congrArg List.head? hsplit
        exact hnone a (by simp [hz])
      · rw [hl] at hsplit
        cases hsplit
    have hpos := List.length_pos_of_ne_nil habove
    rw [hsplit, List.length_append]
    omega

/-! ### One step -/

variable [DecidableEq ι]

/-- What has to be shown when one builder has been at work. -/
private theorem Tracked.put (ht : w.Tracked nodes) {g : Building} {marks : ι → Nat}
    {nodes' : Place ι → List EventId} (hr : (w.space.put b g).Represents nodes')
    (hmarks : ∀ a, a ≠ b → marks a = w.releasedAt a)
    (hother : ∀ a, a ≠ b → nodes' (.freeable a) = nodes (.freeable a))
    (hfree : ∀ a, a ≠ b → w.space.Exposed a → ∀ above base, nodes .free = above ++ base →
      base.length = w.releasedAt a → ∃ above, nodes' .free = above ++ base)
    (hattached : g.builder.attached = true →
      ∃ older, nodes' (.freeable b) = older ++ g.builder.buffer.map Prod.snd)
    (hfinished : g.builder.attached = false → nodes' (.freeable b) = [])
    (hexposed : g.builder.attached = false → g.builder.buffer.map Prod.snd ≠ [] →
      ∃ above below, nodes' .free = above ++ ((g.builder.buffer.map Prod.snd).reverse ++ below) ∧
        ((g.builder.buffer.map Prod.snd).reverse ++ below).length = marks b) :
    Tracked ⟨w.space.put b g, marks⟩ nodes' := by
  have hself : (w.space.put b g).placed b = g.builder.buffer.map Prod.snd := by
    simp [MidiSpace.placed]
  have hplaced : ∀ a, a ≠ b → (w.space.put b g).placed a = w.space.placed a := by
    intro a ha
    simp [MidiSpace.placed, MidiSpace.put_builders_of_ne ha]
  refine ⟨hr, fun a hatt ↦ ?_, fun a hatt ↦ ?_, fun a hexp ↦ ?_⟩
  · rcases eq_or_ne a b with rfl | ha
    · rw [hself]
      exact hattached (by simpa using hatt)
    · rw [hother a ha, hplaced a ha]
      exact ht.attached a (by simpa [MidiSpace.put_builders_of_ne ha] using hatt)
  · rcases eq_or_ne a b with rfl | ha
    · exact hfinished (by simpa using hatt)
    · rw [hother a ha]
      exact ht.finished a (by simpa [MidiSpace.put_builders_of_ne ha] using hatt)
  · rcases eq_or_ne a b with rfl | ha
    · rw [hself]
      exact hexposed (by simpa using hexp.1) (by simpa [hself] using hexp.2)
    · have hexp' : w.space.Exposed a := by
        simpa [MidiSpace.Exposed, hplaced a ha, MidiSpace.put_builders_of_ne ha] using hexp
      obtain ⟨above, below, hl, hlen⟩ := ht.exposed a hexp'
      obtain ⟨above', hl'⟩ := hfree a ha hexp' above _ hl hlen
      rw [hplaced a ha]
      exact ⟨above', below, hl', hlen.trans (hmarks a ha).symm⟩

private theorem Tracked.represents_put (ht : w.Tracked nodes) :
    (w.space.put b (w.space.building b)).Represents nodes := by
  rw [MidiSpace.put_building]
  exact ht.represents

private theorem Tracked.useBuffer (ht : w.Tracked nodes) {size : Int} {g : Building}
    (h : (w.space.building b).useBuffer size = some g) :
    (∃ nodes', Tracked ⟨w.space.put b g, w.releasedAt⟩ nodes') ∧
      Building.SameEvents w.space.heap g.heap := by
  obtain ⟨g', moved, left, hg', hsame, hr, hbuffer, hatt, -⟩ :=
    Building.useBuffer_spec ht.represents_put size
  obtain rfl := Option.some.inj (hg'.symm.trans h)
  refine ⟨⟨_, ht.put hr (fun _ _ ↦ rfl) ?_ ?_ ?_ ?_ ?_⟩, hsame⟩
  · intro a ha
    simp [ha]
  · intro a _ _ above base hl _
    exact ⟨above, by simpa using hl⟩
  · intro _
    exact ⟨nodes (.freeable b), by simp [hbuffer]⟩
  · intro hfin
    simp [hatt] at hfin
  · intro hfin
    simp [hatt] at hfin

private theorem Tracked.finishCurrentBuffer (ht : w.Tracked nodes) {g : Building}
    (h : (w.space.building b).finishCurrentBuffer = some g) :
    (∃ nodes', Tracked ⟨w.space.put b g,
        if (w.space.builders b).attached = true then
          Function.update w.releasedAt b g.heap.freeLength
        else w.releasedAt⟩ nodes') ∧
      Building.SameEvents w.space.heap g.heap ∧
      g.builder.buffer = (w.space.builders b).buffer := by
  obtain ⟨g', hg', hsame, hr, hbuffer, hatt⟩ :=
    Building.finishCurrentBuffer_spec ht.represents_put
  obtain rfl := Option.some.inj (hg'.symm.trans h)
  have hlen : g'.heap.freeLength = _ := hr.freeLength_eq
  have hplaced : g'.builder.buffer.map Prod.snd = w.space.placed b := by
    rw [hbuffer]
    rfl
  refine ⟨⟨_, ht.put hr ?_ ?_ ?_ ?_ ?_ ?_⟩, hsame, hbuffer⟩
  · intro a ha
    split <;> simp [ha]
  · intro a ha
    simp [ha]
  · intro a _ _ above base hl _
    exact ⟨(nodes (.freeable b)).reverse ++ above, by simp [hl]⟩
  · intro h
    simp [hatt] at h
  · intro _
    simp
  · intro _ hne
    rw [hplaced] at hne ⊢
    cases hold : (w.space.builders b).attached with
    | true =>
      -- The events of the buffer are given back last, and are now on top.
      obtain ⟨older, hl⟩ := ht.attached b hold
      refine ⟨[], older.reverse ++ nodes .free, by simp [hl], ?_⟩
      simp [hlen, hl]
    | false =>
      obtain ⟨above, below, hl, hmark⟩ := ht.exposed b ⟨hold, hne⟩
      exact ⟨above, below, by simp [ht.finished b hold, hl], by simpa using hmark⟩

private theorem Tracked.skip (ht : w.Tracked nodes) {length : Int} {room : Bool} {g : Building}
    (h : (w.space.building b).skip length = some (room, g)) :
    Tracked ⟨w.space.put b g, w.releasedAt⟩ nodes ∧
      Building.SameEvents w.space.heap g.heap ∧
      g.builder.buffer = (w.space.builders b).buffer := by
  obtain ⟨hheap, hr, hbuffer, hatt⟩ := Building.skip_spec ht.represents_put h
  have hplaced : g.builder.buffer.map Prod.snd = w.space.placed b := by
    rw [hbuffer]
    rfl
  refine ⟨ht.put hr (fun _ _ ↦ rfl) (fun _ _ ↦ rfl) ?_ ?_ ?_ ?_, ?_, hbuffer⟩
  · exact fun _ _ _ above _ hl _ ↦ ⟨above, hl⟩
  · intro h
    rw [hplaced]
    exact ht.attached b (hatt ▸ h)
  · intro h
    exact ht.finished b (hatt ▸ h)
  · intro h hne
    rw [hplaced] at hne ⊢
    exact ht.exposed b ⟨hatt ▸ h, hne⟩
  · rw [hheap]
    exact ⟨rfl, fun _ ↦ rfl⟩

private theorem Tracked.queue (ht : w.Tracked nodes) {status first second : UInt8} {e : Nat}
    {g : Building} (h : (w.space.building b).queue status first second = some (e, g)) :
    ((∀ a, w.space.Exposed a → w.releasedAt a < w.space.heap.freeLength) ↔
      ∀ a, e ∉ w.space.placed a) ∧
    ((∀ a, w.space.Exposed a → w.releasedAt a < w.space.heap.freeLength) →
      ∃ nodes', Tracked ⟨w.space.put b g, w.releasedAt⟩ nodes') ∧
    (∀ x < w.space.heap.count, x ≠ e →
      (g.heap.nodes x).event = (w.space.heap.nodes x).event) ∧
    w.space.placed b ⊆ g.builder.buffer.map Prod.snd := by
  obtain ⟨l, hpop, -, hkeep, hatt, hcases⟩ := Building.queue_spec ht.represents_put h
  have hiff := ht.spare_iff hpop
  have hfree : (∀ a, w.space.Exposed a → w.releasedAt a < w.space.heap.freeLength) →
      ∀ a, w.space.Exposed a → ∀ above base, nodes .free = above ++ base →
        base.length = w.releasedAt a → ∃ above, l = above ++ base := by
    intro hspare a hexp above base hl hlen
    have hlt := hspare a hexp
    rw [ht.represents.freeLength_eq, ← hlen] at hlt
    rcases hpop with hfirst | ⟨hnil, -⟩
    · rw [hfirst] at hl hlt
      obtain ⟨above', -, hl'⟩ := exists_above hl hlt
      exact ⟨above', hl'⟩
    · simp [hnil] at hlt
  have hplaced : (w.space.building b).builder.buffer.map Prod.snd = w.space.placed b := rfl
  rw [hplaced] at hcases
  rcases hcases with ⟨hbuffer, hr⟩ | ⟨hold, hbuffer, hr⟩
  · have hsame : g.builder.buffer.map Prod.snd = w.space.placed b := by
      rw [hbuffer]
      rfl
    refine ⟨hiff, fun hspare ↦ ⟨_, ht.put hr (fun _ _ ↦ rfl) ?_ ?_ ?_ ?_ ?_⟩, hkeep, ?_⟩
    · simp
    · intro a _ hexp above base hl hlen
      simpa using hfree hspare a hexp above base hl hlen
    · intro h
      simpa [hsame] using ht.attached b (hatt ▸ h)
    · intro h
      simpa using ht.finished b (hatt ▸ h)
    · intro h hne
      rw [hsame] at hne ⊢
      have hexp : w.space.Exposed b := ⟨hatt ▸ h, hne⟩
      obtain ⟨above, below, hl, hlen⟩ := ht.exposed b hexp
      obtain ⟨above', hl'⟩ := hfree hspare b hexp above _ hl hlen
      exact ⟨above', below, by simpa using hl', hlen⟩
    · rw [hsame]
      exact fun _ hx ↦ hx
  · have hatt' : g.builder.attached = true := hatt.trans hold
    refine ⟨hiff, fun hspare ↦ ⟨_, ht.put hr (fun _ _ ↦ rfl) ?_ ?_ ?_ ?_ ?_⟩, hkeep, ?_⟩
    · intro a ha
      simp [ha]
    · intro a _ hexp above base hl hlen
      simpa using hfree hspare a hexp above base hl hlen
    · intro _
      obtain ⟨older, hl⟩ := ht.attached b hold
      exact ⟨older, by simp [hl, hbuffer]⟩
    · intro h
      simp [hatt'] at h
    · intro h
      simp [hatt'] at h
    · rw [hbuffer]
      exact List.subset_append_left _ _

/-- A call pops no referenced event exactly when there are events to spare, and if so the
invariant is kept. -/
theorem Tracked.step {call : ι × MidiCall} {mev : Option EventId} (ht : w.Tracked nodes)
    (hst : w.step call = some (mev, w')) :
    (w.Spare call mev ↔ w.NotReferenced call mev) ∧
      (w.Spare call mev → ∃ nodes', w'.Tracked nodes') := by
  obtain ⟨b, call⟩ := call
  simp only [Watched.step, Option.map_eq_some_iff, Prod.mk.injEq] at hst
  obtain ⟨⟨mev, s'⟩, hs', rfl, rfl⟩ := hst
  obtain ⟨g, rfl, hcases⟩ := MidiSpace.step_cases hs'
  rcases hcases with ⟨size, rfl, rfl, hg⟩ | ⟨rfl, rfl, hg⟩ | ⟨length, room, rfl, rfl, hg⟩ |
    ⟨status, first, second, e, hq, rfl, hg⟩
  · refine ⟨by simp [Spare, NotReferenced, MidiCall.queues], fun _ ↦ ?_⟩
    simpa using (ht.useBuffer hg).1
  · refine ⟨by simp [Spare, NotReferenced, MidiCall.queues], fun _ ↦ ?_⟩
    simpa using (ht.finishCurrentBuffer hg).1
  · refine ⟨by simp [Spare, NotReferenced, MidiCall.queues], fun _ ↦ ?_⟩
    exact ⟨nodes, by simpa using (ht.skip hg).1⟩
  · obtain ⟨hiff, hnext, -⟩ := ht.queue hg
    have hcall : call ≠ .finishCurrentBuffer := by
      rintro rfl
      simp [MidiCall.queues] at hq
    simpa [Spare, NotReferenced, hq, hcall] using ⟨hiff, hnext⟩

/-- A call that pops no referenced event leaves the events of all buffers as they are; they
stay in the buffer if it is not `use_buffer` on their builder. -/
theorem Tracked.step_keeps {call : ι × MidiCall} {mev : Option EventId} (ht : w.Tracked nodes)
    (hst : w.step call = some (mev, w')) (hok : w.NotReferenced call mev) {a : ι} {e : EventId}
    (he : e ∈ w.space.placed a) :
    (w'.space.heap.nodes e).event = (w.space.heap.nodes e).event ∧
      ((∀ size, call ≠ (a, .useBuffer size)) → e ∈ w'.space.placed a) := by
  obtain ⟨b, call⟩ := call
  simp only [Watched.step, Option.map_eq_some_iff, Prod.mk.injEq] at hst
  obtain ⟨⟨mev, s'⟩, hs', rfl, rfl⟩ := hst
  obtain ⟨g, rfl, hcases⟩ := MidiSpace.step_cases hs'
  have hplaced : w.space.placed b ⊆ g.builder.buffer.map Prod.snd →
      e ∈ (w.space.put b g).placed a := by
    intro hsub
    rcases eq_or_ne a b with rfl | ha
    · simpa [MidiSpace.placed] using hsub he
    · simpa [MidiSpace.placed, MidiSpace.put_builders_of_ne ha] using he
  have hsub : g.builder.buffer = (w.space.builders b).buffer →
      w.space.placed b ⊆ g.builder.buffer.map Prod.snd := by
    intro h
    rw [h]
    exact fun _ hx ↦ hx
  rcases hcases with ⟨size, rfl, rfl, hg⟩ | ⟨rfl, rfl, hg⟩ | ⟨length, room, rfl, rfl, hg⟩ |
    ⟨status, first, second, p, hq, rfl, hg⟩
  · refine ⟨(ht.useBuffer hg).2.2 e, fun hno ↦ ?_⟩
    have ha : a ≠ b := by
      rintro rfl
      exact hno size rfl
    simpa [MidiSpace.placed, MidiSpace.put_builders_of_ne ha] using he
  · obtain ⟨-, hsame, hbuffer⟩ := ht.finishCurrentBuffer hg
    exact ⟨hsame.2 e, fun _ ↦ hplaced (hsub hbuffer)⟩
  · obtain ⟨-, hsame, hbuffer⟩ := ht.skip hg
    exact ⟨hsame.2 e, fun _ ↦ hplaced (hsub hbuffer)⟩
  · obtain ⟨-, -, hkeep, hbuffer⟩ := ht.queue hg
    refine ⟨hkeep e (ht.lt_count he) ?_, fun _ ↦ hplaced hbuffer⟩
    rintro rfl
    exact hok e rfl a he

/-! ### Runs -/

/-- Along a run that always has events to spare, the invariant holds. -/
theorem tracked_of_run {calls : List (ι × MidiCall)} (hs : w.space.Initial)
    (hrun : Run Watched.step Spare w calls w') : ∃ nodes, w'.Tracked nodes := by
  refine hrun.invariant (fun w ↦ ∃ nodes, w.Tracked nodes) ?_ ⟨_, tracked_of_initial hs⟩
  rintro v call mev v' ⟨nodes, ht⟩ hok hst
  exact (ht.step hst).2 hok

private theorem Tracked.run_keeps {calls : List (ι × MidiCall)} (ht : w.Tracked nodes)
    (hrun : Run Watched.step Spare w calls w') {b : ι}
    (hno : ∀ size, (b, .useBuffer size) ∉ calls) {e : EventId} (he : e ∈ w.space.placed b) :
    (w'.space.heap.nodes e).event = (w.space.heap.nodes e).event := by
  induction hrun generalizing nodes with
  | nil w => rfl
  | cons hst hok _ ih =>
    obtain ⟨hiff, hnext⟩ := ht.step hst
    obtain ⟨hevent, hin⟩ := ht.step_keeps hst (hiff.mp hok) he
    obtain ⟨nodes', ht'⟩ := hnext hok
    rw [ih ht' (fun size hm ↦ hno size (by simp [hm])) (hin ?_), hevent]
    rintro size rfl
    exact hno size (by simp)

/-- A run never pops an event that is in a buffer exactly when it has events to spare at every
call, and then the events of a buffer stay unchanged until the next `use_buffer`. -/
theorem events_kept_iff {w : Watched ι} (hs : w.space.Initial) :
    (∀ calls w', Run Watched.step Spare w calls w' ↔ Run Watched.step NotReferenced w calls w') ∧
      ∀ before w1 after w2, Run Watched.step Spare w before w1 →
        Run Watched.step Spare w1 after w2 →
        ∀ b, (∀ size, (b, .useBuffer size) ∉ after) → ∀ e ∈ w1.space.placed b,
          (w2.space.heap.nodes e).event = (w1.space.heap.nodes e).event := by
  constructor
  · intro calls w'
    refine Run.iff_of_invariant (fun w ↦ ∃ nodes, w.Tracked nodes) ?_ ?_ ⟨_, tracked_of_initial hs⟩
    · rintro v call mev v' ⟨nodes, ht⟩ hst
      exact (ht.step hst).1
    · rintro v call mev v' ⟨nodes, ht⟩ hok hst
      exact (ht.step hst).2 hok
  · intro before w1 after w2 hbefore hafter b hno e he
    obtain ⟨nodes, ht⟩ := tracked_of_run hs hbefore
    exact ht.run_keeps hafter hno he

instance [Fintype ι] (w : Watched ι) (call : ι × MidiCall) (mev : Option EventId) :
    Decidable (w.Spare call mev) :=
  inferInstanceAs (Decidable (_ → ∀ b, (w.space.builders b).attached = false ∧ _ → _))

/-- Two builders as constructed, before any event has been allocated. -/
def twoBuilders : MidiSpace Bool where
  heap := ⟨fun _ ↦ ⟨⟨0, []⟩, none, none⟩, 0, none⟩
  builders _ := ⟨[], false, 0, 0, 0, none, none⟩

private theorem initial_twoBuilders : twoBuilders.Initial :=
  ⟨rfl, fun _ ↦ rfl, fun _ ↦ rfl, fun _ ↦ rfl, fun _ ↦ rfl⟩

/-- An event that was finished early is kept while another builder plays on with its own. -/
theorem events_kept_iff_twoBuilders :
    ∃ w1 w2, Run Watched.step Spare ⟨twoBuilders, fun _ ↦ 0⟩
        [(false, .useBuffer 64), (false, .queueNoteOn 60 100 0), (true, .useBuffer 64),
          (true, .queueNoteOn 72 100 1), (true, .finishCurrentBuffer),
          (false, .finishCurrentBuffer), (false, .useBuffer 64)] w1 ∧
      Run Watched.step Spare w1 [(false, .queueNoteOn 64 100 0)] w2 ∧
      1 ∈ w1.space.placed true ∧
      (w2.space.heap.nodes 1).event = (w1.space.heap.nodes 1).event := by
  have hrun :
      ((runAll Watched.step (fun w call mev ↦ decide (w.Spare call mev))
          ⟨twoBuilders, fun _ ↦ 0⟩
          [(false, .useBuffer 64), (false, .queueNoteOn 60 100 0), (true, .useBuffer 64),
            (true, .queueNoteOn 72 100 1), (true, .finishCurrentBuffer),
            (false, .finishCurrentBuffer), (false, .useBuffer 64)]).bind fun w1 ↦
        (runAll Watched.step (fun w call mev ↦ decide (w.Spare call mev)) w1
          [(false, .queueNoteOn 64 100 0)]).map fun _ ↦ w1.space.placed true) = some [1] := by
    decide +kernel
  simp only [Option.bind_eq_some_iff, Option.map_eq_some_iff] at hrun
  obtain ⟨w1, h1, w2, h2, hplaced⟩ := hrun
  have hbefore := (Run.of_runAll h1).mono fun w call mev h ↦ of_decide_eq_true h
  have hafter := (Run.of_runAll h2).mono fun w call mev h ↦ of_decide_eq_true h
  refine ⟨w1, w2, hbefore, hafter, by simp [hplaced], ?_⟩
  exact (events_kept_iff (w := ⟨twoBuilders, fun _ ↦ 0⟩) initial_twoBuilders).2 _ w1 _ w2 hbefore
    hafter true (by simp) 1 (by simp [hplaced])

/-- The next builder that queues an event overwrites the one that was just finished. -/
theorem finished_event_overwritten :
    ¬ ∀ s : MidiSpace Bool, s.Initial → ∀ before s1 after s2,
      Run MidiSpace.step (fun _ _ _ ↦ True) s before s1 →
      Run MidiSpace.step (fun _ _ _ ↦ True) s1 after s2 →
      ∀ b, (∀ size, (b, .useBuffer size) ∉ after) → ∀ e ∈ s1.placed b,
        (s2.heap.nodes e).event = (s1.heap.nodes e).event := by
  intro hclaim
  have hrun :
      ((runAll MidiSpace.step (fun _ _ _ ↦ true) twoBuilders
          [(false, .useBuffer 64), (false, .queueNoteOn 60 100 0),
            (false, .finishCurrentBuffer)]).bind fun s1 ↦
        (runAll MidiSpace.step (fun _ _ _ ↦ true) s1
          [(true, .useBuffer 64), (true, .queueNoteOn 72 100 0)]).map fun s2 ↦
          (s1.placed false, (s1.heap.nodes 0).event, (s2.heap.nodes 0).event)) =
      some ([0], ⟨3, [0x90, 60, 100, 0]⟩, ⟨3, [0x90, 72, 100, 0]⟩) := by
    decide +kernel
  simp only [Option.bind_eq_some_iff, Option.map_eq_some_iff, Prod.mk.injEq] at hrun
  obtain ⟨s1, h1, s2, h2, hplaced, he1, he2⟩ := hrun
  have hbefore := (Run.of_runAll h1).mono fun _ _ _ _ ↦ trivial
  have hafter := (Run.of_runAll h2).mono fun _ _ _ _ ↦ trivial
  have hsame := hclaim twoBuilders initial_twoBuilders _ s1 _ s2 hbefore hafter false (by simp) 0
    (by simp [hplaced])
  rw [he1, he2] at hsame
  exact absurd hsame (by decide)

end Watched

end Vuknob
