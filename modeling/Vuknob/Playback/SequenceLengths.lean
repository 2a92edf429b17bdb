import Mathlib.Logic.Function.Basic
import Vuknob.Playback.LoopStore

/-!
# The length of the sequences

The static member `sequence_length` of `MachineSequencer` is mirrored in every sequencer by
`loop_sequence_length`. It grows through whichever sequencer is set beyond its end, and then the
sequencers in `machine2sequencer` are refreshed, `src_jni/machine_sequencer.cc:1638–1650`. One that
is being made is not yet there: `create_sequencer_for_machine` constructs it and registers it in
another operation, and those of a project file wait in `machine_from_xml_cache`.
-/

namespace Vuknob

open Library

/-- The sequencers that have been made, with the static members of `MachineSequencer`. The length
that an object of `LoopStore` has as a member is not used, see `sequencer`. `pending` are those that
`create_sequencer_for_machine` has constructed and not registered. -/
structure MachineSequencers where
  sequenceLength : Int
  object : Nat → LoopStore
  made : Nat
  machine2sequencer : List (Nat × Nat)
  machineFromXmlCache : List Nat
  pending : List Nat

/-- What is done with sequencers. `sibling` is what `internal_get_by_name` finds for the sequencers
of a project file. -/
inductive SequencersOp
  | construct
  | register (machine k : Nat)
  | presetupFromXml (x : LoopsXml)
  | finalizeXmlInitialization (sibling : Nat → Option Nat)
  | setLoopIdAt (k : Nat) (position loopId : Int)

namespace MachineSequencers

/-- The state of the program when it starts, `src_jni/machine_sequencer.cc:1617–1619`. -/
def new : MachineSequencers where
  sequenceLength := machineSequencerInitialSequenceLength
  object := fun _ ↦ .allocated 0 0 0
  made := 0
  machine2sequencer := []
  machineFromXmlCache := []
  pending := []

/-- A sequencer with the static length. -/
def sequencer (w : MachineSequencers) (k : Nat) : LoopStore :=
  { w.object k with sequenceLength := w.sequenceLength }

/-- The `loop_sequence_length` of a sequencer. -/
def length (w : MachineSequencers) (k : Nat) : Nat := (w.object k).loopSequence.length

/-- Some machine has the sequencer. -/
def registered (w : MachineSequencers) (k : Nat) : Bool := w.machine2sequencer.any fun e ↦ e.2 = k

/-- `machine2sequencer[machine] = k`. -/
def assign (machine k : Nat) (w : MachineSequencers) : MachineSequencers :=
  { w with machine2sequencer := (machine, k) :: w.machine2sequencer.filter fun e ↦ e.1 ≠ machine }

/-- `set_sequence_length`, `src_jni/machine_sequencer.cc:1638–1650`. -/
def setSequenceLength (newv : Int) (w : MachineSequencers) : MachineSequencers :=
  let w := { w with sequenceLength := newv }
  { w with object := fun k ↦ if w.registered k then (w.sequencer k).refreshLength else w.object k }

/-- `internal_set_loop_id_at` on one of the sequencers, `src_jni/machine_sequencer.cc:543–562`. -/
def internalSetLoopIdAt (k : Nat) (position loopId : Int) (w : MachineSequencers) :
    Option (LoopStoreResult × MachineSequencers) :=
  ((w.sequencer k).internalSetLoopIdAt position loopId).map fun (r, s) ↦
    let w := if position < w.length k then w else w.setSequenceLength s.sequenceLength
    (r, { w with object := Function.update w.object k s })

/-- A new object. -/
def add (s : LoopStore) (w : MachineSequencers) : MachineSequencers :=
  { w with object := Function.update w.object w.made s, made := w.made + 1 }

/-- `create_sequencer_for_machine` up to its last operation,
`src_jni/machine_sequencer.cc:1724–1760`. -/
def construct (w : MachineSequencers) : MachineSequencers :=
  { w.add (.new w.sequenceLength) with pending := w.made :: w.pending }

/-- An entry of the sequence of a project file, unless one before it has thrown,
`src_jni/machine_sequencer.cc:1319–1327`. -/
def readEntry (k : Nat) (state : Bool × MachineSequencers) (entry : Option Int × Option Int) :
    Option (Bool × MachineSequencers) :=
  let pos := entry.1.getD (-1)
  let id := entry.2.getD (-1)
  if state.1 && pos ≠ -1 && id ≠ -1 then
    (state.2.internalSetLoopIdAt k pos id).map fun (r, w) ↦ (r = .returned, w)
  else some state

/-- `presetup_from_xml`, `src_jni/machine_sequencer.cc:1658–1675`, with the constructor at
`src_jni/machine_sequencer.cc:1257–1329`; a sequencer whose entries cannot be read is not kept. -/
def presetupFromXml (x : LoopsXml) (w : MachineSequencers) : Option (Bool × MachineSequencers) := do
  let ids := x.loops.map fun id ↦ id.getD (-1)
  let size := LoopStore.storeSize (ids.foldl max (-1))
  let s ← ids.foldlM LoopStore.readLoop (.allocated size w.sequenceLength 0)
  let s := LoopStore.prepEmptyLoopSequence
    { s with lastFreeLoopStorePosition := s.lastFreeLoopStorePosition + 1 }
  let (returned, w') ← x.entries.foldlM (readEntry w.made) (true, w.add s)
  if returned then
    return (true, { w' with machineFromXmlCache := w'.machineFromXmlCache ++ [w.made] })
  else return (false, w')

/-- The loop of `finalize_xml_initialization`, `src_jni/machine_sequencer.cc:1689–1709`: whether it
comes to its end, and the sequencers. -/
def connectSiblings (sibling : Nat → Option Nat) :
    List Nat → MachineSequencers → Bool × MachineSequencers
  | [], w => (true, w)
  | k :: rest, w =>
    match sibling k with
    | none => (false, w)
    | some machine => connectSiblings sibling rest (w.assign machine k)

/-- `finalize_xml_initialization`, `src_jni/machine_sequencer.cc:1677–1722`. -/
def finalizeXmlInitialization (sibling : Nat → Option Nat) (w : MachineSequencers) :
    Bool × MachineSequencers :=
  match connectSiblings sibling w.machineFromXmlCache w with
  | (false, w) => (false, w)
  | (true, w) => (true, { w with machineFromXmlCache := [] }.setSequenceLength w.sequenceLength)

/-- One operation; the result says whether it returned. -/
def step (w : MachineSequencers) : SequencersOp → Option (Bool × MachineSequencers)
  | .construct => some (true, w.construct)
  | .register machine k =>
    if k ∈ w.pending then
      some (true, { w.assign machine k with pending := w.pending.erase k })
    else none
  | .presetupFromXml x => w.presetupFromXml x
  | .finalizeXmlInitialization sibling => some (w.finalizeXmlInitialization sibling)
  | .setLoopIdAt k position loopId =>
    (w.internalSetLoopIdAt k position loopId).map fun (r, w) ↦ (r = .returned, w)

end MachineSequencers

/-! ## What is kept -/

theorem LoopStore.length_refreshLength (s : LoopStore) :
    s.refreshLength.loopSequence.length = max s.loopSequence.length s.sequenceLength.toNat := by
  rw [refreshLength, List.length_append, List.length_replicate]
  omega

/-- Setting an id leaves the lengths as they are, or takes them to 16 beyond the position. -/
theorem LoopStore.internalSetLoopIdAt_lengths {s s' : LoopStore} {position loopId : Int}
    {r : LoopStoreResult} (h : s.internalSetLoopIdAt position loopId = some (r, s')) :
    (position < s.loopSequence.length ∧ s'.loopSequence.length = s.loopSequence.length ∧
      s'.sequenceLength = s.sequenceLength) ∨
    (s.loopSequence.length ≤ position ∧ s'.sequenceLength = position + 16 ∧
      s'.loopSequence.length = max s.loopSequence.length (position + 16).toNat) := by
  rw [internalSetLoopIdAt] at h
  split at h
  · obtain ⟨-, rfl⟩ := Prod.mk.inj (Option.some.inj h)
    exact .inl ⟨by omega, rfl, rfl⟩
  · next hposition =>
    obtain ⟨s₁, hreach, h⟩ := Option.map_eq_some_iff.mp h
    have hlengths : s'.loopSequence.length = s₁.loopSequence.length ∧
        s'.sequenceLength = s₁.sequenceLength := by
      split at h
      · obtain ⟨-, rfl⟩ := Prod.mk.inj h
        exact ⟨rfl, rfl⟩
      · obtain ⟨-, rfl⟩ := Prod.mk.inj h
        exact ⟨List.length_set, rfl⟩
    rw [hlengths.1, hlengths.2]
    rw [reach] at hreach
    split at hreach
    · obtain rfl := Option.some.inj hreach
      exact .inl ⟨by omega, rfl, rfl⟩
    · obtain ⟨newv, hnewv, rfl⟩ := Option.map_eq_some_iff.mp hreach
      obtain ⟨-, rfl⟩ := int_eq_some_iff.mp hnewv
      rw [Int.toNat_of_nonneg (by omega)]
      refine .inr ⟨by omega, rfl, ?_⟩
      exact length_refreshLength { s with sequenceLength := position + 16 }

/-- Reading loops leaves the static length alone. -/
theorem LoopStore.readLoops_sequenceLength {ids : List Int} {s s' : LoopStore}
    (h : ids.foldlM readLoop s = some s') : s'.sequenceLength = s.sequenceLength := by
  induction ids generalizing s with
  | nil =>
    obtain rfl := Option.some.inj h
    rfl
  | cons id ids ih =>
    rw [List.foldlM_cons] at h
    obtain ⟨s₁, hread, h⟩ := Option.bind_eq_some_iff.mp h
    rw [ih h]
    rw [readLoop] at hread
    split at hread
    · obtain rfl := Option.some.inj hread
      rfl
    · split at hread
      · obtain rfl := Option.some.inj hread
        rfl
      · cases hread

namespace MachineSequencers

/-- Every sequencer of a machine has the static length. -/
def InSync (w : MachineSequencers) : Prop :=
  ∀ machine k, (machine, k) ∈ w.machine2sequencer → (w.length k : Int) = w.sequenceLength

/-- The operation keeps the lengths: a sequencer is registered only with the static length, the ones
of a project file all find their siblings or have the static length, and one that is set beyond its
end is not shorter by more than it grows. -/
def keepsLengths (w : MachineSequencers) : SequencersOp → Bool
  | .construct => true
  | .register _ k => w.length k = w.sequenceLength
  | .presetupFromXml _ => true
  | .finalizeXmlInitialization sibling =>
    w.machineFromXmlCache.all (fun k ↦ (sibling k).isSome) ||
      (w.machineFromXmlCache.takeWhile fun k ↦ (sibling k).isSome).all fun k ↦
        w.length k = w.sequenceLength
  | .setLoopIdAt k position _ => position < w.length k || w.sequenceLength ≤ position + 16

/-- The sequencers of machines have the static length, and none is longer. -/
structure Even (w : MachineSequencers) : Prop where
  inSync : w.InSync
  le : ∀ k, (w.length k : Int) ≤ w.sequenceLength

theorem even_new : new.Even := ⟨nofun, fun _ ↦ Int.natCast_nonneg 16⟩

theorem registered_iff {w : MachineSequencers} {k : Nat} :
    w.registered k = true ↔ ∃ machine, (machine, k) ∈ w.machine2sequencer := by
  rw [registered, List.any_eq_true]
  constructor
  · rintro ⟨⟨machine, k'⟩, he, hk⟩
    obtain rfl : k' = k := of_decide_eq_true hk
    exact ⟨machine, he⟩
  · rintro ⟨machine, he⟩
    exact ⟨(machine, k), he, decide_eq_true rfl⟩

theorem length_setSequenceLength (w : MachineSequencers) (newv : Int) (k : Nat) :
    (w.setSequenceLength newv).length k =
      if w.registered k then max (w.length k) newv.toNat else w.length k := by
  show (if w.registered k then _ else _ : LoopStore).loopSequence.length = _
  split
  · exact LoopStore.length_refreshLength _
  · rfl

theorem length_update (w : MachineSequencers) (k : Nat) (s : LoopStore) (j : Nat) :
    { w with object := Function.update w.object k s }.length j =
      if j = k then s.loopSequence.length else w.length j := by
  show (Function.update w.object k s j).loopSequence.length = _
  by_cases hj : j = k
  · rw [if_pos hj, hj, Function.update_self]
  · rw [if_neg hj, Function.update_of_ne hj]
    rfl

/-- The lengths after an id is set: none changes, or all sequencers of machines and the one that is
set are at least as long as the static length, which is 16 beyond the position. -/
theorem internalSetLoopIdAt_cases {w w' : MachineSequencers} {k : Nat} {position loopId : Int}
    {r : LoopStoreResult} (h : w.internalSetLoopIdAt k position loopId = some (r, w')) :
    w'.machine2sequencer = w.machine2sequencer ∧
      ((position < w.length k ∧ w'.sequenceLength = w.sequenceLength ∧
        ∀ j, w'.length j = w.length j) ∨
      (w.length k ≤ position ∧ w'.sequenceLength = position + 16 ∧
        ∀ j, w'.length j =
          if w.registered j = true ∨ j = k then max (w.length j) (position + 16).toNat
          else w.length j)) := by
  obtain ⟨⟨r', s⟩, hset, heq⟩ := Option.map_eq_some_iff.mp h
  obtain ⟨-, rfl⟩ := Prod.mk.inj heq
  have hlength : (w.sequencer k).loopSequence.length = w.length k := rfl
  rcases LoopStore.internalSetLoopIdAt_lengths hset with ⟨hlt, hsame, -⟩ | ⟨hle, hgrown, hmax⟩
  · rw [hlength] at hlt hsame
    rw [if_pos hlt]
    refine ⟨rfl, .inl ⟨hlt, rfl, fun j ↦ ?_⟩⟩
    rw [length_update]
    split
    · next hj => rw [hsame, hj]
    · rfl
  · rw [hlength] at hle hmax
    rw [if_neg (by omega), hgrown]
    refine ⟨rfl, .inr ⟨hle, rfl, fun j ↦ ?_⟩⟩
    rw [length_update, length_setSequenceLength]
    by_cases hj : j = k
    · rw [if_pos hj, if_pos (.inr hj), hmax, hj]
    · rw [if_neg hj]
      exact if_congr (or_iff_left hj).symm rfl rfl

/-- Setting an id keeps the lengths even exactly if it does not make the static length less. -/
theorem Even.internalSetLoopIdAt {w w' : MachineSequencers} (h : w.Even) {k : Nat}
    {position loopId : Int} {r : LoopStoreResult}
    (hset : w.internalSetLoopIdAt k position loopId = some (r, w')) :
    (position < w.length k ∨ w.sequenceLength ≤ position + 16 →
      w'.Even ∧ w.sequenceLength ≤ w'.sequenceLength ∧
        ((w.length k : Int) = w.sequenceLength → (w'.length k : Int) = w'.sequenceLength)) ∧
    (w.sequenceLength ≤ w'.sequenceLength →
      position < w.length k ∨ w.sequenceLength ≤ position + 16) := by
  have hk := h.le k
  obtain ⟨hmap, ⟨hlt, hsame, hlengths⟩ | ⟨hle, hgrown, hlengths⟩⟩ := internalSetLoopIdAt_cases hset
  · refine ⟨fun _ ↦ ⟨⟨fun machine j hj ↦ ?_, fun j ↦ ?_⟩, by omega, fun heq ↦ ?_⟩, fun _ ↦ .inl hlt⟩
    · rw [hmap] at hj
      rw [hlengths, hsame]
      exact h.inSync machine j hj
    · rw [hlengths, hsame]
      exact h.le j
    · rw [hlengths, hsame, heq]
  · rw [hgrown]
    refine ⟨fun hkeeps ↦ ?_, .inr⟩
    have hgrows : w.sequenceLength ≤ position + 16 := by omega
    refine ⟨⟨fun machine j hj ↦ ?_, fun j ↦ ?_⟩, hgrows, fun _ ↦ ?_⟩
    · rw [hmap] at hj
      have hsync := h.inSync machine j hj
      rw [hlengths, if_pos (.inl (registered_iff.mpr ⟨machine, hj⟩)), hgrown]
      omega
    · have hj := h.le j
      rw [hlengths, hgrown]
      split <;> omega
    · rw [hlengths, if_pos (.inr rfl)]
      omega

theorem Even.nonneg {w : MachineSequencers} (h : w.Even) : 0 ≤ w.sequenceLength := by
  have := h.le 0
  omega

/-- A new sequencer has the static length. -/
theorem Even.add {w : MachineSequencers} (h : w.Even) {s : LoopStore}
    (hs : s.loopSequence.length = w.sequenceLength.toNat) :
    (w.add s).Even ∧ ((w.add s).length w.made : Int) = w.sequenceLength := by
  have hnonneg := h.nonneg
  have hlength : ∀ j, (w.add s).length j =
      if j = w.made then w.sequenceLength.toNat else w.length j := by
    intro j
    exact (length_update w w.made s j).trans (by rw [hs])
  refine ⟨⟨fun machine j hj ↦ ?_, fun j ↦ ?_⟩, ?_⟩
  · have hsync := h.inSync machine j hj
    rw [hlength]
    show _ = w.sequenceLength
    split <;> omega
  · have hj := h.le j
    rw [hlength]
    show _ ≤ w.sequenceLength
    split <;> omega
  · rw [hlength, if_pos rfl]
    omega

theorem length_new (sequenceLength : Int) :
    (LoopStore.new sequenceLength).loopSequence.length = sequenceLength.toNat :=
  List.length_replicate

/-- Reading the entries of a project file keeps the lengths even: the sequencer that reads them has
the static length all the time. -/
theorem Even.readEntries {k : Nat} {entries : List (Option Int × Option Int)}
    {state state' : Bool × MachineSequencers} (h : state.2.Even)
    (hk : (state.2.length k : Int) = state.2.sequenceLength)
    (hread : entries.foldlM (readEntry k) state = some state') :
    state'.2.Even ∧ state.2.sequenceLength ≤ state'.2.sequenceLength := by
  induction entries generalizing state with
  | nil =>
    obtain rfl := Option.some.inj hread
    exact ⟨h, Int.le_refl _⟩
  | cons entry entries ih =>
    rw [List.foldlM_cons] at hread
    obtain ⟨state₁, hentry, hread⟩ := Option.bind_eq_some_iff.mp hread
    simp only [readEntry] at hentry
    split at hentry
    · obtain ⟨⟨r, w₁⟩, hset, rfl⟩ := Option.map_eq_some_iff.mp hentry
      obtain ⟨heven, hle, hkept⟩ := (h.internalSetLoopIdAt hset).1 (by omega)
      obtain ⟨heven', hle'⟩ := ih heven (hkept hk) hread
      exact ⟨heven', Int.le_trans hle hle'⟩
    · obtain rfl := Option.some.inj hentry
      exact ih h hk hread

theorem Even.presetupFromXml {w w' : MachineSequencers} (h : w.Even) {x : LoopsXml} {r : Bool}
    (hstep : w.presetupFromXml x = some (r, w')) :
    w'.Even ∧ w.sequenceLength ≤ w'.sequenceLength := by
  rw [MachineSequencers.presetupFromXml] at hstep
  obtain ⟨s, hloops, hstep⟩ := Option.bind_eq_some_iff.mp hstep
  obtain ⟨⟨returned, w₁⟩, hread, hstep⟩ := Option.bind_eq_some_iff.mp hstep
  have hlength : s.sequenceLength = w.sequenceLength := LoopStore.readLoops_sequenceLength hloops
  obtain ⟨hadded, hmade⟩ := h.add (s := LoopStore.prepEmptyLoopSequence
    { s with lastFreeLoopStorePosition := s.lastFreeLoopStorePosition + 1 })
    (by rw [← hlength]; exact List.length_replicate)
  obtain ⟨heven, hle⟩ := hadded.readEntries hmade hread
  dsimp only at hstep
  split at hstep
  · obtain ⟨-, rfl⟩ := Prod.mk.inj (Option.some.inj hstep)
    exact ⟨⟨heven.inSync, heven.le⟩, hle⟩
  · obtain ⟨-, rfl⟩ := Prod.mk.inj (Option.some.inj hstep)
    exact ⟨heven, hle⟩

/-- Connecting to siblings registers the sequencers up to the first without one. -/
theorem connectSiblings_spec (sibling : Nat → Option Nat) (ks : List Nat) (w : MachineSequencers) :
    (connectSiblings sibling ks w).1 = ks.all (fun k ↦ (sibling k).isSome) ∧
    (connectSiblings sibling ks w).2.object = w.object ∧
    (connectSiblings sibling ks w).2.sequenceLength = w.sequenceLength ∧
    ∀ machine k, (machine, k) ∈ (connectSiblings sibling ks w).2.machine2sequencer →
      (machine, k) ∈ w.machine2sequencer ∨ k ∈ ks.takeWhile fun k ↦ (sibling k).isSome := by
  induction ks generalizing w with
  | nil => exact ⟨rfl, rfl, rfl, fun _ _ ↦ .inl⟩
  | cons k ks ih =>
    rw [connectSiblings]
    cases hsibling : sibling k with
    | none => exact ⟨by simp [hsibling], rfl, rfl, fun _ _ ↦ .inl⟩
    | some machine =>
      obtain ⟨hall, hobject, hlength, hmap⟩ := ih (w.assign machine k)
      refine ⟨by simp [hsibling, hall], hobject, hlength, fun machine' k' hk' ↦ ?_⟩
      rw [List.takeWhile_cons_of_pos (by rw [hsibling]; rfl)]
      rcases hmap machine' k' hk' with hold | hnew
      · rcases List.mem_cons.mp hold with heq | hold
        · exact .inr (List.mem_cons.mpr (.inl (Prod.mk.inj heq).2))
        · exact .inl (List.mem_of_mem_filter hold)
      · exact .inr (List.mem_cons_of_mem k hnew)

theorem Even.finalizeXmlInitialization {w : MachineSequencers} (h : w.Even)
    {sibling : Nat → Option Nat}
    (hkeeps : w.keepsLengths (.finalizeXmlInitialization sibling) = true) :
    (w.finalizeXmlInitialization sibling).2.Even ∧
      (w.finalizeXmlInitialization sibling).2.sequenceLength = w.sequenceLength := by
  obtain ⟨hall, hobject, hlength, hmap⟩ := connectSiblings_spec sibling w.machineFromXmlCache w
  rw [MachineSequencers.finalizeXmlInitialization]
  generalize connectSiblings sibling w.machineFromXmlCache w = connected at hall hobject hlength hmap
  obtain ⟨returned, w₁⟩ := connected
  dsimp only at hall hobject hlength hmap
  have hlengths : ∀ k, w₁.length k = w.length k := fun k ↦ by rw [length, hobject, length]
  cases returned with
  | true =>
    dsimp only
    refine ⟨⟨fun machine k hk ↦ ?_, fun k ↦ ?_⟩, hlength⟩
    · have hle := h.le k
      have hregistered : w₁.registered k = true := registered_iff.mpr ⟨machine, hk⟩
      rw [length_setSequenceLength]
      show ((if w₁.registered k then _ else _ : Nat) : Int) = w₁.sequenceLength
      rw [if_pos hregistered]
      show ((max (w₁.length k) _ : Nat) : Int) = w₁.sequenceLength
      rw [hlengths]
      omega
    · have hle := h.le k
      have hmax : max (w₁.length k) w₁.sequenceLength.toNat ≤ w.sequenceLength.toNat := by
        rw [hlengths, hlength]
        omega
      rw [length_setSequenceLength]
      show ((if w₁.registered k then _ else w₁.length k : Nat) : Int) ≤ w₁.sequenceLength
      have hk := hlengths k
      split
      · exact Int.le_trans (Int.ofNat_le.mpr hmax) (by omega)
      · omega
  | false =>
    rw [keepsLengths, ← hall, Bool.false_or, List.all_eq_true] at hkeeps
    refine ⟨⟨fun machine k hk ↦ ?_, fun k ↦ ?_⟩, hlength⟩
    · rw [hlengths, hlength]
      rcases hmap machine k hk with hold | hnew
      · exact h.inSync machine k hold
      · exact of_decide_eq_true (hkeeps k hnew)
    · rw [hlengths, hlength]
      exact h.le k

theorem Even.assign {w : MachineSequencers} (h : w.Even) (machine k : Nat) :
    (w.assign machine k).InSync ↔ (w.length k : Int) = w.sequenceLength := by
  constructor
  · intro hsync
    exact hsync machine k List.mem_cons_self
  · intro hk machine' k' hk'
    rcases List.mem_cons.mp hk' with heq | hold
    · obtain ⟨rfl, rfl⟩ := Prod.mk.inj heq
      exact hk
    · exact h.inSync machine' k' (List.mem_of_mem_filter hold)

/-- A permitted operation keeps the lengths even and does not make the static length less. -/
theorem Even.step {w w' : MachineSequencers} (h : w.Even) {op : SequencersOp} {r : Bool}
    (hkeeps : w.keepsLengths op = true) (hstep : w.step op = some (r, w')) :
    w'.Even ∧ w.sequenceLength ≤ w'.sequenceLength := by
  cases op with
  | construct =>
    obtain ⟨-, rfl⟩ := Prod.mk.inj (Option.some.inj hstep)
    obtain ⟨hadded, -⟩ := h.add (length_new w.sequenceLength)
    exact ⟨⟨hadded.inSync, hadded.le⟩, Int.le_refl _⟩
  | register machine k =>
    rw [MachineSequencers.step] at hstep
    split at hstep
    · obtain ⟨-, rfl⟩ := Prod.mk.inj (Option.some.inj hstep)
      exact ⟨⟨(h.assign machine k).mpr (of_decide_eq_true hkeeps), h.le⟩, Int.le_refl _⟩
    · cases hstep
  | presetupFromXml x => exact h.presetupFromXml hstep
  | finalizeXmlInitialization sibling =>
    obtain ⟨heven, hlength⟩ := h.finalizeXmlInitialization hkeeps
    rw [MachineSequencers.step, Option.some.injEq] at hstep
    rw [hstep] at heven hlength
    exact ⟨heven, Int.le_of_eq hlength.symm⟩
  | setLoopIdAt k position loopId =>
    obtain ⟨⟨r', w₁⟩, hset, heq⟩ := Option.map_eq_some_iff.mp hstep
    obtain ⟨-, rfl⟩ := Prod.mk.inj heq
    simp only [keepsLengths, Bool.or_eq_true, decide_eq_true_eq] at hkeeps
    obtain ⟨heven, hle, -⟩ := (h.internalSetLoopIdAt hset).1 hkeeps
    exact ⟨heven, hle⟩

/-- An operation that is not permitted ends it, unless it loads a project. -/
theorem Even.keepsLengths_of_step {w w' : MachineSequencers} (h : w.Even) {op : SequencersOp}
    {r : Bool} (hop : ∀ sibling, op ≠ .finalizeXmlInitialization sibling)
    (hstep : w.step op = some (r, w')) (hsync : w'.InSync)
    (hle : w.sequenceLength ≤ w'.sequenceLength) : w.keepsLengths op = true := by
  cases op with
  | construct => rfl
  | register machine k =>
    rw [MachineSequencers.step] at hstep
    split at hstep
    · obtain ⟨-, rfl⟩ := Prod.mk.inj (Option.some.inj hstep)
      exact decide_eq_true ((h.assign machine k).mp hsync)
    · cases hstep
  | presetupFromXml x => rfl
  | finalizeXmlInitialization sibling => exact absurd rfl (hop sibling)
  | setLoopIdAt k position loopId =>
    obtain ⟨⟨r', w₁⟩, hset, heq⟩ := Option.map_eq_some_iff.mp hstep
    obtain ⟨-, rfl⟩ := Prod.mk.inj heq
    simp only [keepsLengths, Bool.or_eq_true, decide_eq_true_eq]
    exact (h.internalSetLoopIdAt hset).2 hle

/-- In every run whose operations are permitted, the sequencers of machines have the static length,
and that never gets less. An operation other than the end of loading a project keeps that only if it
is permitted. -/
theorem lengths_in_sync {ops : List SequencersOp} {w : MachineSequencers}
    (hrun : Run step (fun w op _ ↦ w.keepsLengths op = true) new ops w) :
    w.InSync ∧ ∀ op r w', w.step op = some (r, w') →
      (w.keepsLengths op = true → w'.InSync ∧ w.sequenceLength ≤ w'.sequenceLength) ∧
      ((∀ sibling, op ≠ .finalizeXmlInitialization sibling) → w'.InSync →
        w.sequenceLength ≤ w'.sequenceLength → w.keepsLengths op = true) := by
  have h : w.Even := by
    refine hrun.invariant Even ?_ even_new
    intro w op r w' h hkeeps hstep
    exact (h.step hkeeps hstep).1
  refine ⟨h.inSync, fun op r w' hstep ↦ ⟨fun hkeeps ↦ ?_, fun hop ↦ ?_⟩⟩
  · obtain ⟨heven, hle⟩ := h.step hkeeps hstep
    exact ⟨heven.inSync, hle⟩
  · exact h.keepsLengths_of_step hop hstep

/-- Two sequencers are made and registered, then one of them grows. -/
theorem lengths_in_sync_grown : ∃ w, Run step (fun w op _ ↦ w.keepsLengths op = true) new
      [.construct, .register 0 0, .construct, .register 1 1, .setLoopIdAt 0 20 0] w ∧
    w.sequenceLength = 36 ∧ w.length 1 = 36 ∧ w.InSync := by
  have hsome : (runAll step (fun w op _ ↦ w.keepsLengths op) new [.construct, .register 0 0,
      .construct, .register 1 1, .setLoopIdAt 0 20 0]).map (fun w ↦ (w.sequenceLength,
        w.length 1)) = some (36, 36) := by
    decide +kernel
  obtain ⟨w, hw, hlengths⟩ := Option.map_eq_some_iff.mp hsome
  obtain ⟨hstatic, hlength⟩ := Prod.mk.inj hlengths
  have hrun := Run.of_runAll hw
  exact ⟨w, hrun, hstatic, hlength, (lengths_in_sync hrun).1⟩

/-- One grows between the construction and the registration of the other. -/
theorem registered_short : ¬ ∀ (ops : List SequencersOp) (w : MachineSequencers),
    Run step (fun _ _ _ ↦ True) new ops w → w.InSync ∧ ∀ op r w', w.step op = some (r, w') →
      w.sequenceLength ≤ w'.sequenceLength := by
  intro hall
  have hsome : (runAll step (fun _ _ _ ↦ true) new [.construct, .register 0 0, .construct,
      .setLoopIdAt 0 20 0, .register 1 1]).map (fun w ↦ (w.sequenceLength, w.length 1,
        w.machine2sequencer)) = some (36, 16, [(1, 1), (0, 0)]) := by
    decide +kernel
  obtain ⟨w, hw, hlengths⟩ := Option.map_eq_some_iff.mp hsome
  simp only [Prod.mk.injEq] at hlengths
  obtain ⟨hstatic, hlength, hmap⟩ := hlengths
  have hsync := (hall _ w ((Run.of_runAll hw).mono fun _ _ _ _ ↦ trivial)).1 1 1
    (by rw [hmap]; exact List.mem_cons_self)
  rw [hstatic, hlength] at hsync
  cases hsync

end MachineSequencers

end Vuknob
