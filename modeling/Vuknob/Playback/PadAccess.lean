import Vuknob.Library.Runs
import Vuknob.Playback.PadFile

/-!
# What a motion looks up

The entries of `scale_data` that `process_motion` and `build_chord` read and write, and the patterns
that `set_pattern` is called with, `src_jni/engine_code/pad.cc:337–344,628–725`, for motions with
any numbers: a motion that is recorded has coordinates of 14 bits, but one that is read from a
project has what the project says.
-/

namespace Vuknob

/-- A place that is looked up: an entry of `scale_data`, or of the built-in patterns by
`set_pattern`. -/
inductive PadAccess
  | scaleData (k : Int)
  | pattern (id : Int)
  deriving DecidableEq

/-- The place is there: `scale_data` has 21 entries, there are 7 patterns, and a negative number is
no pattern. -/
def PadAccess.Within : PadAccess → Prop
  | scaleData k => 0 ≤ k ∧ k ≤ 20
  | pattern id => id < 7

/-- `Pad::PadMotion` with its numbers as they are. `recording` says that it is the one the finger
is making. -/
structure PlayedMotion extends SavedMotion where
  lastScale : Int
  index : Int
  crntTick : Int
  recording : Bool
  terminated : Bool
  toBeDeleted : Bool

namespace PlayedMotion

/-- `pad_column`, `src_jni/engine_code/pad.cc:715`. -/
def padColumn (p : SavedPosition) : Int := p.x >>> (7 : Nat) >>> (4 : Nat)

/-- A coordinate that passes through `enqueue_event`, `src_jni/engine_code/pad.cc:1299–1304`. -/
def masked (value : Int) : Int := (BitVec.ofInt 32 value &&& 0x3fff).toInt

/-- `add_position`, `src_jni/engine_code/pad.cc:592–599`, for the coordinates of an event. -/
def addPosition (x y z : Int) (m : PlayedMotion) : PlayedMotion :=
  if m.terminated then m
  else { m with positions := m.positions ++ [⟨masked x, masked y, masked z, m.crntTick + 1⟩] }

/-- The constructor for a press, `src_jni/engine_code/pad.cc:466–476`. -/
def press (config : SavedConfiguration) (sessionPosition x y z : Int) : PlayedMotion :=
  addPosition x y z
    { config with
      startTick := sessionPosition
      positions := []
      lastScale := -1
      index := -1
      crntTick := -1
      recording := true
      terminated := false
      toBeDeleted := false }

/-- What the constructors for projects make of what they have read. -/
def read (m : SavedMotion) : PlayedMotion :=
  { m with
    lastScale := -1
    index := -1
    crntTick := -1
    recording := false
    terminated := true
    toBeDeleted := false }

/-- `terminate`, `src_jni/engine_code/pad.cc:601–609`. -/
def terminate (m : PlayedMotion) : PlayedMotion :=
  let last := m.positions.length - 1
  let later :=
    0 < last && m.positions[0]?.map SavedPosition.t = m.positions[last]?.map SavedPosition.t
  { m with
    terminated := true
    positions := if later then m.positions.modify last fun p ↦ { p with t := p.t + 1 }
      else m.positions }

/-- `start_motion`, `src_jni/engine_code/pad.cc:628–643`. -/
def startMotion (sessionPosition : Int) (m : PlayedMotion) : List PadAccess × PlayedMotion :=
  if m.index = -1 ∧ sessionPosition = m.startTick then
    ([.pattern m.arpeggioPattern], { m with index := 0, crntTick := -1 })
  else ([], m)

/-- `build_chord`, `src_jni/engine_code/pad.cc:651–677`. -/
def buildChord (chordMode padColumn : Int) : List PadAccess :=
  match chordMode with
  | 1 => [.scaleData (padColumn + 0), .scaleData (padColumn + 2), .scaleData (padColumn + 4)]
  | 2 => [.scaleData (padColumn + 0), .scaleData (padColumn + 2), .scaleData (padColumn + 4),
      .scaleData (padColumn + 0)]
  | _ => []

/-- Read the scale, unless it has been read, `src_jni/engine_code/pad.cc:690–710`: all entries are
written. -/
def readScale (m : PlayedMotion) : List PadAccess × PlayedMotion :=
  if m.scale ≠ m.lastScale then
    ((List.range 21).map fun k : Nat ↦ .scaleData k, { m with lastScale := m.scale })
  else ([], m)

/-- One round of the loop of `process_motion`, `src_jni/engine_code/pad.cc:715–725`. -/
def positionAccesses (m : PlayedMotion) (p : SavedPosition) : List PadAccess :=
  .scaleData (padColumn p) ::
    if !m.toBeDeleted && m.chordMode ≠ 0 && (!m.terminated || m.index < m.positions.length - 1)
    then buildChord m.chordMode (padColumn p)
    else []

/-- The loop of `process_motion` over the positions from `index` on. -/
def playPositions : List SavedPosition → PlayedMotion → List PadAccess × PlayedMotion
  | [], m => ([], m)
  | p :: rest, m =>
    if p.t ≤ m.crntTick then
      let (more, m') := playPositions rest { m with index := m.index + 1 }
      (m.positionAccesses p ++ more, m')
    else ([], m)

/-- `process_motion`, `src_jni/engine_code/pad.cc:679–816`. It is called on motions that are
played. -/
def processMotion (m : PlayedMotion) : List PadAccess × PlayedMotion :=
  if m.terminated ∧ m.positions.length ≤ m.index then ([], { m with index := -1 })
  else
    let (scale, m₁) := readScale { m with crntTick := m.crntTick + 1 }
    let (notes, m₂) := playPositions (m₁.positions.drop m₁.index.toNat) m₁
    (scale ++ notes, m₂)

end PlayedMotion

/-- What may happen to a motion: it is started at a position of its session, it plays a tick, it is
stopped, or marked for deletion; and while it is recorded, the finger moves or leaves the pad, the
recording ends, and the motion is quantized. -/
inductive MotionStep
  | start (sessionPosition : Nat)
  | process
  | reset
  | delete
  | slide (x y z : Int)
  | release (x y z : Int)
  | terminate
  | quantize

namespace PlayedMotion

/-- A step of a motion, with what it looks up. -/
def step (m : PlayedMotion) : MotionStep → Option (List PadAccess × PlayedMotion)
  | .start sessionPosition => some (m.startMotion sessionPosition)
  | .process => if 0 ≤ m.index then some m.processMotion else none
  | .reset => some ([], { m with index := -1, crntTick := -1 })
  | .delete => if m.index = -1 then none else some ([], { m with toBeDeleted := true })
  | .slide x y z => if m.recording then some ([], m.addPosition x y z) else none
  | .release x y z => if m.recording then some ([], (m.addPosition x y z).terminate) else none
  | .terminate => if m.recording then some ([], m.terminate) else none
  | .quantize =>
    if m.recording then some ([], { m with startTick := quantizeTick m.startTick }) else none

/-- Whatever happens to the motion, all that is looked up is there. -/
def Safe (m : PlayedMotion) : Prop :=
  ∀ steps m', Library.Run step (fun _ _ _ ↦ True) m steps m' →
    ∀ a log m'', m'.step a = some (log, m'') → ∀ x ∈ log, x.Within

end PlayedMotion

/-- Where a motion comes from: a finger on the pad, a project before level 5, or a later one. -/
inductive MotionOrigin
  | pressed (config : SavedConfiguration) (sessionPosition : Nat) (x y z : Int)
  | old (config : SavedConfiguration) (padXml : KXMLDoc)
  | loaded (level : Int) (config : SavedConfiguration) (padXml : KXMLDoc)

namespace MotionOrigin

/-- The motion that is made. -/
def motion : MotionOrigin → PlayedMotion
  | pressed config sessionPosition x y z => .press config sessionPosition x y z
  | old config padXml => .read (SavedMotion.fromOldXml config padXml).2
  | loaded level config padXml => .read (SavedMotion.fromXml level config padXml)

/-- The attribute `x` of a position lies in the columns there are notes for; with a chord there are
fewer of them, and a chord is built for all positions but the last one. -/
def Inside (chordMode : Int) (ds : List XmlElement) : Prop :=
  ∀ i d, ds[i]? = some d →
    0 ≤ KXMLDoc.getNumber [d] "x" (-1) ∧ KXMLDoc.getNumber [d] "x" (-1) < 21 * 2048 ∧
      ((chordMode = 1 ∨ chordMode = 2) → i + 1 < ds.length →
        KXMLDoc.getNumber [d] "x" (-1) < 17 * 2048)

/-- The pattern is a built-in one or none, and the coordinates that are taken as they are written
lie on the pad, or little beyond it; or the motion never starts. -/
def Plain : MotionOrigin → Prop
  | pressed config _ _ _ _ => config.arpeggioPattern < 7
  | old config padXml => (config.loadConfigurationFromXml padXml).arpeggioPattern < 7
  | loaded level config padXml =>
    let c := config.loadConfigurationFromXml padXml
    padXml.getNumber "start" (-1) < 0 ∨ c.arpeggioPattern < 7 ∧
      (8 ≤ level → Inside c.chordMode ((padXml.child "d").getD []))

end MotionOrigin

namespace PlayedMotion

variable {m m' : PlayedMotion}

/-! ## One position -/

theorem padColumn_eq (p : SavedPosition) : padColumn p = p.x / 2048 := by
  rw [padColumn, Int.shiftRight_eq_div_pow, Int.shiftRight_eq_div_pow]
  omega

/-- There are notes for the column of this position, and for its chord where one is built. -/
def Fits (m : PlayedMotion) (i : Nat) (p : SavedPosition) : Prop :=
  0 ≤ padColumn p ∧ padColumn p ≤ 20 ∧
    ((m.chordMode = 1 ∨ m.chordMode = 2) → (m.terminated = false ∨ i + 1 < m.positions.length) →
      padColumn p ≤ 16)

theorem within_buildChord {chordMode column : Int} :
    (∀ a ∈ buildChord chordMode column, a.Within) ↔
      ((chordMode = 1 ∨ chordMode = 2) → 0 ≤ column ∧ column ≤ 16) := by
  unfold buildChord
  split
  · simp only [List.forall_mem_cons, PadAccess.Within, true_or, forall_const, List.not_mem_nil,
      false_implies, implies_true, and_true]
    omega
  · simp only [List.forall_mem_cons, PadAccess.Within, or_true, forall_const, List.not_mem_nil,
      false_implies, implies_true, and_true]
    omega
  · next hone htwo =>
    constructor
    · rintro - (h | h)
      · exact absurd h hone
      · exact absurd h htwo
    · intro _ a ha
      cases ha

theorem within_positionAccesses {i : Nat} {p : SavedPosition} (hi : m.index = i)
    (h : m.Fits i p) : ∀ a ∈ m.positionAccesses p, a.Within := by
  obtain ⟨hlow, hhigh, hchord⟩ := h
  refine List.forall_mem_cons.mpr ⟨⟨hlow, hhigh⟩, ?_⟩
  split
  · next hbuilt =>
    refine within_buildChord.mpr fun hmode ↦ ⟨hlow, hchord hmode ?_⟩
    rw [Bool.and_eq_true, Bool.or_eq_true, hi] at hbuilt
    rcases hbuilt.2 with hopen | hlast
    · exact .inl (by simpa using hopen)
    · have := of_decide_eq_true hlast
      exact .inr (by omega)
  · exact fun a ha ↦ by cases ha

theorem fits_of_positionAccesses {i : Nat} {p : SavedPosition} (hi : m.index = i)
    (hdeleted : m.toBeDeleted = false) (h : ∀ a ∈ m.positionAccesses p, a.Within) :
    m.Fits i p := by
  obtain ⟨⟨hlow, hhigh⟩, hrest⟩ := List.forall_mem_cons.mp h
  refine ⟨hlow, hhigh, fun hmode hopen ↦ ?_⟩
  rw [if_pos] at hrest
  · exact (within_buildChord.mp hrest hmode).2
  · have hchord : m.chordMode ≠ 0 := by omega
    rw [hdeleted, decide_eq_true hchord, Bool.not_false, Bool.true_and, Bool.true_and,
      Bool.or_eq_true, hi]
    rcases hopen with hopen | hlast
    · exact .inl (by rw [hopen]; rfl)
    · exact .inr (decide_eq_true (by omega))

/-! ## One tick -/

theorem snd_playPositions (rest : List SavedPosition) (m : PlayedMotion) :
    (playPositions rest m).2 =
      { m with index := m.index + (rest.takeWhile fun p ↦ p.t ≤ m.crntTick).length } := by
  induction rest generalizing m with
  | nil => simp [playPositions]
  | cons p rest ih =>
    rw [playPositions]
    split
    · next hdue =>
      rw [List.takeWhile_cons_of_pos (by simpa using hdue), List.length_cons]
      simp only [ih, Int.natCast_succ, Int.add_assoc, Int.add_comm 1]
    · next hdue =>
      rw [List.takeWhile_cons_of_neg (by simpa using hdue)]
      simp

/-- What the loop looks up it looks up for the positions that are due, one after the other. -/
theorem mem_playPositions {rest : List SavedPosition} {a : PadAccess} :
    a ∈ (playPositions rest m).1 ↔ ∃ j p, (rest.takeWhile fun p ↦ p.t ≤ m.crntTick)[j]? = some p ∧
      a ∈ positionAccesses { m with index := m.index + (j : Nat) } p := by
  induction rest generalizing m with
  | nil => simp [playPositions]
  | cons p rest ih =>
    rw [playPositions]
    split
    · next hdue =>
      rw [List.takeWhile_cons_of_pos (by simpa using hdue), List.mem_append, ih]
      constructor
      · rintro (ha | ⟨j, q, hq, ha⟩)
        · exact ⟨0, p, rfl, by simpa using ha⟩
        · refine ⟨j + 1, q, by simpa using hq, ?_⟩
          rw [Int.natCast_succ, Int.add_comm (j : Int), ← Int.add_assoc]
          exact ha
      · rintro ⟨j, q, hq, ha⟩
        cases j with
        | zero =>
          obtain rfl := Option.some.inj hq
          exact .inl (by simpa using ha)
        | succ j =>
          refine .inr ⟨j, q, by simpa using hq, ?_⟩
          rw [Int.natCast_succ, Int.add_comm (j : Int), ← Int.add_assoc] at ha
          exact ha
    · next hdue =>
      rw [List.takeWhile_cons_of_neg (by simpa using hdue)]
      simp

/-- The positions that are due at the next tick. -/
def due (m : PlayedMotion) : List SavedPosition :=
  (m.positions.drop m.index.toNat).takeWhile fun p ↦ p.t ≤ m.crntTick + 1

theorem readScale_eq (m : PlayedMotion) : m.readScale =
    (if m.scale ≠ m.lastScale then (List.range 21).map fun k : Nat ↦ .scaleData k else [],
      { m with lastScale := m.scale }) := by
  rw [readScale]
  split
  · rfl
  · next hscale =>
    rw [not_not] at hscale
    rw [hscale]

/-- A tick of a motion that has not come to its end. -/
theorem processMotion_eq (h : ¬ (m.terminated = true ∧ m.positions.length ≤ m.index)) :
    m.processMotion.2 = { m with
        crntTick := m.crntTick + 1, lastScale := m.scale, index := m.index + m.due.length } ∧
      ∀ a, a ∈ m.processMotion.1 ↔
        (m.scale ≠ m.lastScale ∧ ∃ k < 21, .scaleData (k : Nat) = a) ∨
          ∃ j p, m.due[j]? = some p ∧
            a ∈ positionAccesses { m with index := m.index + (j : Nat) } p := by
  rw [processMotion, if_neg h, readScale_eq]
  refine ⟨snd_playPositions _ _, fun a ↦ ?_⟩
  dsimp only
  rw [List.mem_append, mem_playPositions]
  refine or_congr ?_ Iff.rfl
  split
  · next hscale => simp [hscale]
  · next hscale => simp [hscale]

/-- A position that is due is the one at its index. -/
theorem getElem?_due {j : Nat} {p : SavedPosition} (h : m.due[j]? = some p) :
    m.positions[m.index.toNat + j]? = some p := by
  obtain ⟨hj, h⟩ := List.getElem?_eq_some_iff.mp h
  have hdue : m.due <+: m.positions.drop m.index.toNat := List.takeWhile_prefix _
  rw [hdue.getElem hj, List.getElem_drop] at h
  exact List.getElem?_eq_some_iff.mpr ⟨_, h⟩

/-! ## Coordinates of 14 bits -/

theorem masked_bounds (value : Int) : 0 ≤ masked value ∧ masked value < 2 ^ 14 := by
  have hle : (BitVec.ofInt 32 value &&& 0x3fff).toNat ≤ 0x3fff := by
    rw [BitVec.toNat_and]
    exact Nat.and_le_right
  rw [masked, BitVec.toInt_eq_toNat_of_lt (by omega)]
  omega

theorem widened_bounds (value : Int) :
    0 ≤ SavedPosition.widened value ∧ SavedPosition.widened value < 2 ^ 14 := by
  have hcoarse : ((BitVec.ofInt 32 value &&& 0xfe0) <<< 2).toNat < 2 ^ 14 := by
    have hle : (BitVec.ofInt 32 value &&& 0xfe0).toNat ≤ 0xfe0 := by
      rw [BitVec.toNat_and]
      exact Nat.and_le_right
    rw [BitVec.toNat_shiftLeft, Nat.shiftLeft_eq]
    omega
  have hfine : (BitVec.ofInt 32 value &&& 0x1f).toNat < 2 ^ 14 := by
    rw [BitVec.toNat_and]
    exact Nat.lt_of_le_of_lt Nat.and_le_right (by decide)
  have hlt : (((BitVec.ofInt 32 value &&& 0xfe0) <<< 2) |||
      (BitVec.ofInt 32 value &&& 0x1f)).toNat < 2 ^ 14 := by
    rw [BitVec.toNat_or]
    exact Nat.or_lt_two_pow hcoarse hfine
  rw [SavedPosition.widened, BitVec.toInt_eq_toNat_of_lt (by omega)]
  omega

theorem fits_of_bounds {i : Nat} {p : SavedPosition} (h : 0 ≤ p.x ∧ p.x < 2 ^ 14) :
    m.Fits i p := by
  rw [Fits, padColumn_eq]
  omega

/-! ## In every run -/

/-- All that a motion may look up is there. -/
structure Accessible (m : PlayedMotion) : Prop where
  pattern : m.arpeggioPattern < 7
  fits : ∀ i p, m.positions[i]? = some p → m.Fits i p

namespace Accessible

theorem addPosition (h : m.Accessible) (x y z : Int) : (m.addPosition x y z).Accessible := by
  rw [PlayedMotion.addPosition]
  split
  · exact h
  · next hopen =>
    refine ⟨h.pattern, fun i p hp ↦ ?_⟩
    dsimp only at hp
    rw [List.getElem?_append] at hp
    split at hp
    · obtain ⟨hlow, hhigh, hchord⟩ := h.fits i p hp
      exact ⟨hlow, hhigh, fun hmode _ ↦ hchord hmode (.inl (by simpa using hopen))⟩
    · obtain rfl := List.mem_singleton.mp (List.mem_of_getElem? hp)
      exact fits_of_bounds (masked_bounds x)

theorem terminate (h : m.Accessible) : m.terminate.Accessible := by
  have hfits : ∀ i p p', m.positions[i]? = some p → p'.x = p.x →
      Fits { m with terminated := true } i p' := by
    intro i p p' hp hx
    obtain ⟨hlow, hhigh, hchord⟩ := h.fits i p hp
    have hcolumn : padColumn p' = padColumn p := by rw [padColumn_eq, padColumn_eq, hx]
    refine ⟨hcolumn ▸ hlow, hcolumn ▸ hhigh, fun hmode hopen ↦ hcolumn ▸ hchord hmode (.inr ?_)⟩
    rcases hopen with hopen | hlast
    · cases hopen
    · exact hlast
  refine ⟨h.pattern, fun i p hp ↦ ?_⟩
  rw [PlayedMotion.terminate] at hp ⊢
  dsimp only at hp ⊢
  split at hp
  · next hlater =>
    rw [List.getElem?_modify] at hp
    obtain ⟨q, hq, heq⟩ := Option.map_eq_some_iff.mp hp
    have hx : p.x = q.x := by
      rw [← heq]
      split <;> rfl
    have hfit := hfits i q p hq hx
    rw [if_pos hlater]
    rw [Fits] at hfit ⊢
    rw [List.length_modify]
    exact hfit
  · next hlater =>
    rw [if_neg hlater]
    exact hfits i p p hp rfl

theorem step (h : m.Accessible) {a : MotionStep} {log : List PadAccess}
    (hstep : m.step a = some (log, m')) : m'.Accessible ∧ ∀ x ∈ log, x.Within := by
  have hnone : ∀ x ∈ ([] : List PadAccess), x.Within := fun x hx ↦ by cases hx
  cases a with
  | start sessionPosition =>
    rw [PlayedMotion.step, startMotion] at hstep
    split at hstep
    · obtain ⟨rfl, rfl⟩ := Prod.mk.inj (Option.some.inj hstep)
      exact ⟨⟨h.pattern, h.fits⟩, List.forall_mem_singleton.mpr h.pattern⟩
    · obtain ⟨rfl, rfl⟩ := Prod.mk.inj (Option.some.inj hstep)
      exact ⟨h, hnone⟩
  | process =>
    obtain ⟨hindex, heq⟩ := Option.ite_none_right_eq_some.mp hstep
    have heq : m.processMotion = (log, m') := Option.some.inj heq
    by_cases hend : m.terminated = true ∧ m.positions.length ≤ m.index
    · rw [processMotion, if_pos hend] at heq
      obtain ⟨rfl, rfl⟩ := Prod.mk.inj heq
      exact ⟨⟨h.pattern, h.fits⟩, hnone⟩
    · obtain ⟨hstate, hlog⟩ := processMotion_eq hend
      rw [heq] at hstate hlog
      dsimp only at hstate hlog
      rw [hstate]
      refine ⟨⟨h.pattern, h.fits⟩, fun x hx ↦ ?_⟩
      rcases (hlog x).mp hx with ⟨-, k, hk, rfl⟩ | ⟨j, p, hp, hx⟩
      · exact ⟨by omega, by omega⟩
      · have hfits : Fits { m with index := m.index + (j : Nat) } (m.index.toNat + j) p :=
          h.fits _ p (getElem?_due hp)
        exact within_positionAccesses (by dsimp only; omega) hfits x hx
  | reset =>
    obtain ⟨rfl, rfl⟩ := Prod.mk.inj (Option.some.inj hstep)
    exact ⟨⟨h.pattern, h.fits⟩, hnone⟩
  | delete =>
    obtain ⟨-, heq⟩ := Option.ite_none_left_eq_some.mp hstep
    obtain ⟨rfl, rfl⟩ := Prod.mk.inj (Option.some.inj heq)
    exact ⟨⟨h.pattern, h.fits⟩, hnone⟩
  | slide x y z =>
    obtain ⟨-, heq⟩ := Option.ite_none_right_eq_some.mp hstep
    obtain ⟨rfl, rfl⟩ := Prod.mk.inj (Option.some.inj heq)
    exact ⟨h.addPosition x y z, hnone⟩
  | release x y z =>
    obtain ⟨-, heq⟩ := Option.ite_none_right_eq_some.mp hstep
    obtain ⟨rfl, rfl⟩ := Prod.mk.inj (Option.some.inj heq)
    exact ⟨(h.addPosition x y z).terminate, hnone⟩
  | terminate =>
    obtain ⟨-, heq⟩ := Option.ite_none_right_eq_some.mp hstep
    obtain ⟨rfl, rfl⟩ := Prod.mk.inj (Option.some.inj heq)
    exact ⟨h.terminate, hnone⟩
  | quantize =>
    obtain ⟨-, heq⟩ := Option.ite_none_right_eq_some.mp hstep
    obtain ⟨rfl, rfl⟩ := Prod.mk.inj (Option.some.inj heq)
    exact ⟨⟨h.pattern, h.fits⟩, hnone⟩

theorem safe (h : m.Accessible) : m.Safe := fun _ _ hrun _ _ _ hstep ↦
  ((hrun.invariant Accessible (fun _ _ _ _ ht _ hnext ↦ (ht.step hnext).1) h).step hstep).2

end Accessible

/-! ## Everything is looked up -/

theorem Safe.step (h : m.Safe) {a : MotionStep} {log : List PadAccess}
    (hstep : m.step a = some (log, m')) : m'.Safe ∧ ∀ x ∈ log, x.Within :=
  ⟨fun steps _ hrun ↦ h (a :: steps) _ (.cons hstep trivial hrun),
    fun _ hx ↦ h [] m (.nil m) a log m' hstep _ hx⟩

/-- The motion when it has been started. -/
def started (m : PlayedMotion) : PlayedMotion := { m with index := 0, crntTick := -1 }

theorem Safe.start (h : m.Safe) (hindex : m.index = -1) (hstart : 0 ≤ m.startTick) :
    m.started.Safe ∧ m.arpeggioPattern < 7 := by
  have hstep : m.step (.start m.startTick.toNat) = some ([.pattern m.arpeggioPattern], m.started) :=
    congrArg some (if_pos ⟨hindex, by omega⟩)
  obtain ⟨hsafe, hlog⟩ := h.step hstep
  exact ⟨hsafe, hlog _ List.mem_cons_self⟩

/-- The motion has played for `k` ticks, and what it has looked up for positions was there. -/
structure Played (start : PlayedMotion) (k : Nat) (m : PlayedMotion) : Prop where
  safe : m.Safe
  rest : m = { start with index := m.index, crntTick := k - 1, lastScale := m.lastScale }
  index : 0 ≤ m.index
  fits : ∀ i : Nat, i < m.index → ∀ p, start.positions[i]? = some p → start.Fits i p

/-- Another tick, unless all positions have been played. -/
theorem Played.next {start : PlayedMotion} {k : Nat} (h : start.Played k m)
    (hdeleted : start.toBeDeleted = false) (hmore : m.index < start.positions.length) :
    ∃ m', start.Played (k + 1) m' ∧ m'.index = m.index + m.due.length := by
  have hpositions : m.positions = start.positions := by rw [h.rest]
  have htick : m.crntTick + 1 = (k + 1 : Nat) - 1 := by rw [h.rest]; dsimp only; omega
  obtain ⟨hstate, hmem⟩ := processMotion_eq (m := m) fun hend ↦ by
    rw [hpositions] at hend
    omega
  have hstep : m.step .process = some m.processMotion := if_pos h.index
  obtain ⟨hsafe, hlog⟩ := h.safe.step hstep
  have hindex : m.processMotion.2.index = m.index + m.due.length := by rw [hstate]
  refine ⟨m.processMotion.2, ⟨hsafe, ?_, ?_, fun i hi p hp ↦ ?_⟩, hindex⟩
  · rw [hstate, htick, h.rest]
  · have := h.index
    omega
  · rw [hindex] at hi
    by_cases hold : (i : Int) < m.index
    · exact h.fits i hold p hp
    · obtain ⟨j, rfl⟩ := Nat.exists_eq_add_of_le (show m.index.toNat ≤ i by omega)
      have hj : j < m.due.length := by omega
      have hdue : m.due[j]? = some p := by
        have hq := getElem?_due (List.getElem?_eq_getElem hj)
        rw [hpositions, hp] at hq
        rw [List.getElem?_eq_getElem hj, hq]
      have hfits : Fits { m with index := m.index + (j : Nat) } (m.index.toNat + j) p := by
        refine fits_of_positionAccesses ?_ ?_ fun a ha ↦ ?_
        · have := h.index
          dsimp only
          omega
        · rw [h.rest]
          exact hdeleted
        · exact hlog a ((hmem a).mpr (.inr ⟨j, p, hdue, ha⟩))
      rw [h.rest] at hfits
      exact hfits

/-- After any number of ticks the motion is still played, or it has been to its end. -/
theorem Played.run {start : PlayedMotion} (h : start.Played 0 m)
    (hdeleted : start.toBeDeleted = false) (k : Nat) :
    (∀ i p, start.positions[i]? = some p → start.Fits i p) ∨ ∃ m', start.Played k m' := by
  induction k with
  | zero => exact .inr ⟨m, h⟩
  | succ k ih =>
    rcases ih with hall | ⟨m', h'⟩
    · exact .inl hall
    · by_cases hmore : m'.index < start.positions.length
      · obtain ⟨m'', h'', -⟩ := h'.next hdeleted hmore
        exact .inr ⟨m'', h''⟩
      · refine .inl fun i p hp ↦ h'.fits i ?_ p hp
        obtain ⟨hi, -⟩ := List.getElem?_eq_some_iff.mp hp
        omega

theorem exists_last_tick (positions : List SavedPosition) :
    ∃ k : Nat, ∀ p ∈ positions, p.t ≤ k := by
  induction positions with
  | nil => exact ⟨0, fun p hp ↦ by cases hp⟩
  | cons p positions ih =>
    obtain ⟨k, hk⟩ := ih
    refine ⟨max k p.t.toNat, List.forall_mem_cons.mpr ⟨by omega, fun q hq ↦ ?_⟩⟩
    have := hk q hq
    omega

/-- Once the clock has come to the last position, all of them have been looked up. -/
theorem Safe.fits (h : m.Safe) (hindex : m.index = -1) (hstart : 0 ≤ m.startTick)
    (hdeleted : m.toBeDeleted = false) : ∀ i p, m.positions[i]? = some p → m.Fits i p := by
  have hplayed : m.started.Played 0 m.started :=
    ⟨(h.start hindex hstart).1, rfl, Int.le_refl 0, fun i hi ↦ absurd hi (Int.not_lt.mpr (by
      exact Int.natCast_nonneg i))⟩
  obtain ⟨k, hk⟩ := exists_last_tick m.positions
  rcases hplayed.run hdeleted k with hall | ⟨m', h'⟩
  · exact hall
  · have hpositions : m'.positions = m.positions := by rw [h'.rest]; rfl
    have htick : m'.crntTick + 1 = k := by rw [h'.rest]; dsimp only; omega
    by_cases hmore : m'.index < m.positions.length
    · have hdue : m'.due = m.positions.drop m'.index.toNat := by
        rw [due, hpositions, htick, List.takeWhile_eq_self_iff]
        exact fun p hp ↦ decide_eq_true (hk p (List.mem_of_mem_drop hp))
      obtain ⟨m'', h'', hlast⟩ := h'.next hdeleted hmore
      rw [hdue, List.length_drop] at hlast
      intro i p hp
      obtain ⟨hi, -⟩ := List.getElem?_eq_some_iff.mp hp
      have := h'.index
      exact h''.fits i (by omega) p hp
    · intro i p hp
      obtain ⟨hi, -⟩ := List.getElem?_eq_some_iff.mp hp
      exact h'.fits i (by omega) p hp

/-! ## Motions that never start -/

/-- The motion lies before its session, and nobody is recording it. -/
structure Idle (m : PlayedMotion) : Prop where
  index : m.index = -1
  start : m.startTick < 0
  recorded : m.recording = false

theorem Idle.step (h : m.Idle) {a : MotionStep} {log : List PadAccess}
    (hstep : m.step a = some (log, m')) : m'.Idle ∧ log = [] := by
  obtain ⟨hindex, hstart, hrecorded⟩ := h
  cases a with
  | start sessionPosition =>
    rw [PlayedMotion.step, startMotion, if_neg (by omega)] at hstep
    obtain ⟨rfl, rfl⟩ := Prod.mk.inj (Option.some.inj hstep)
    exact ⟨⟨hindex, hstart, hrecorded⟩, rfl⟩
  | process =>
    obtain ⟨hplaying, -⟩ := Option.ite_none_right_eq_some.mp hstep
    omega
  | reset =>
    obtain ⟨rfl, rfl⟩ := Prod.mk.inj (Option.some.inj hstep)
    exact ⟨⟨rfl, hstart, hrecorded⟩, rfl⟩
  | delete =>
    obtain ⟨hplaying, -⟩ := Option.ite_none_left_eq_some.mp hstep
    exact absurd hindex hplaying
  | slide | release | terminate | quantize =>
    obtain ⟨hrecording, -⟩ := Option.ite_none_right_eq_some.mp hstep
    rw [hrecorded] at hrecording
    cases hrecording

theorem Idle.safe (h : m.Idle) : m.Safe := by
  intro steps m' hrun a log m'' hstep x hx
  have hidle := hrun.invariant Idle (fun _ _ _ _ ht _ hnext ↦ (ht.step hnext).1) h
  rw [(hidle.step hstep).2] at hx
  cases hx

end PlayedMotion

namespace MotionOrigin

open PlayedMotion

/-- The columns of the positions are those of the document. -/
theorem inside_iff {level : Int} (hlevel : 8 ≤ level) (config : SavedConfiguration)
    (padXml : KXMLDoc) :
    Inside (config.loadConfigurationFromXml padXml).chordMode ((padXml.child "d").getD []) ↔
      ∀ i p, (loaded level config padXml).motion.positions[i]? = some p →
        (loaded level config padXml).motion.Fits i p := by
  have hfits : ∀ i d, (loaded level config padXml).motion.Fits i (.fromXml level [d]) ↔
      0 ≤ KXMLDoc.getNumber [d] "x" (-1) ∧ KXMLDoc.getNumber [d] "x" (-1) < 21 * 2048 ∧
        ((config.loadConfigurationFromXml padXml).chordMode = 1 ∨
            (config.loadConfigurationFromXml padXml).chordMode = 2 →
          i + 1 < ((padXml.child "d").getD []).length →
            KXMLDoc.getNumber [d] "x" (-1) < 17 * 2048) := by
    intro i d
    have hx : (SavedPosition.fromXml level [d]).x = KXMLDoc.getNumber [d] "x" (-1) := by
      rw [SavedPosition.fromXml, if_neg (by omega)]
    have hlength : (loaded level config padXml).motion.positions.length =
        ((padXml.child "d").getD []).length := List.length_map _
    have hclosed : ((loaded level config padXml).motion.terminated = false ∨
        i + 1 < ((padXml.child "d").getD []).length) ↔
          i + 1 < ((padXml.child "d").getD []).length := or_iff_right nofun
    have hmode : (loaded level config padXml).motion.chordMode =
        (config.loadConfigurationFromXml padXml).chordMode := rfl
    rw [Fits, padColumn_eq, hx, hlength, hclosed, hmode]
    omega
  constructor
  · intro h i p hp
    obtain ⟨d, hd, rfl⟩ := Option.map_eq_some_iff.mp ((List.getElem?_map ..).symm.trans hp)
    exact (hfits i d).mpr (h i d hd)
  · intro h i d hd
    refine (hfits i d).mp (h i _ ?_)
    exact (List.getElem?_map ..).trans (congrArg _ hd)

/-- A motion with coordinates of 14 bits has all it needs if its pattern is there. -/
theorem accessible_of_bounds {m : PlayedMotion} (hpattern : m.arpeggioPattern < 7)
    (hx : ∀ p ∈ m.positions, 0 ≤ p.x ∧ p.x < 2 ^ 14) : m.Accessible :=
  ⟨hpattern, fun _ p hp ↦ fits_of_bounds (hx p (List.mem_of_getElem? hp))⟩

theorem oldPosition_bounds {firstTick : Int} {d : KXMLDoc} {p : SavedPosition}
    (h : SavedMotion.oldPosition firstTick d = some p) : 0 ≤ p.x ∧ p.x < 2 ^ 14 := by
  obtain ⟨-, heq⟩ := Option.ite_none_right_eq_some.mp h
  obtain rfl := Option.some.inj heq
  exact widened_bounds _

theorem Plain.safe {o : MotionOrigin} (h : o.Plain) : o.motion.Safe := by
  cases o with
  | pressed config sessionPosition x y z =>
    have hempty : Accessible
        { config with
          startTick := sessionPosition
          positions := []
          lastScale := -1
          index := -1
          crntTick := -1
          recording := true
          terminated := false
          toBeDeleted := false } := accessible_of_bounds h fun p hp ↦ by cases hp
    exact (hempty.addPosition x y z).safe
  | old config padXml =>
    have hpattern : (old config padXml).motion.arpeggioPattern < 7 := h
    refine (accessible_of_bounds hpattern fun p hp ↦ ?_).safe
    obtain ⟨d, -, hd⟩ := List.mem_filterMap.mp hp
    exact oldPosition_bounds hd
  | loaded level config padXml =>
    rcases h with hbefore | ⟨hpattern, hinside⟩
    · exact Idle.safe ⟨rfl, hbefore, rfl⟩
    · have hpattern : (loaded level config padXml).motion.arpeggioPattern < 7 := hpattern
      by_cases hlevel : 8 ≤ level
      · exact Accessible.safe ⟨hpattern, (inside_iff hlevel config padXml).mp (hinside hlevel)⟩
      · refine (accessible_of_bounds hpattern fun p hp ↦ ?_).safe
        obtain ⟨d, -, rfl⟩ := List.mem_map.mp hp
        rw [SavedPosition.fromXml, if_pos (by omega)]
        exact widened_bounds _

/-- All that is ever looked up for a motion is there exactly if its pattern is, and if it does not
lie beside the pad in a project that knows coordinates of 14 bits. -/
theorem motion_safe_iff (o : MotionOrigin) : o.motion.Safe ↔ o.Plain := by
  refine ⟨fun h ↦ ?_, Plain.safe⟩
  cases o with
  | pressed config sessionPosition x y z =>
    exact (h.start rfl (Int.natCast_nonneg sessionPosition)).2
  | old config padXml => exact (h.start rfl (Int.le_refl 0)).2
  | loaded level config padXml =>
    by_cases hbefore : padXml.getNumber "start" (-1) < 0
    · exact .inl hbefore
    · have hstart : 0 ≤ (loaded level config padXml).motion.startTick := Int.not_lt.mp hbefore
      refine .inr ⟨(h.start rfl hstart).2, fun hlevel ↦ ?_⟩
      exact (inside_iff hlevel config padXml).mpr (h.fits rfl hstart rfl)

/-- A motion of one position that has no coordinates. -/
def withoutCoordinates : MotionOrigin :=
  .loaded 8 SavedPad.new.config [.mk "m" [("start", 0)] [.mk "d" [("t", 0)] []]]

/-- It reads the entry before the first one. -/
theorem not_safe_withoutCoordinates : ¬ withoutCoordinates.motion.Safe := by
  intro h
  have hstart := (h.start rfl (Int.le_refl 0)).1
  have hstep : withoutCoordinates.motion.started.step .process =
      some withoutCoordinates.motion.started.processMotion := rfl
  have hread := (hstart.step hstep).2 (.scaleData (-1)) (by decide)
  exact absurd hread.1 (by decide)

end MotionOrigin

end Vuknob
