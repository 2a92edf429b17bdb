import Mathlib.Data.List.Induction
import Vuknob.Base.CInt
import Vuknob.Library.Ring
import Vuknob.Library.Runs

/-!
# The delay line

`delayLineMono`, `src_jni/dynlib/libfilter.c:157–202`, with the offsets of its callers
`src_jni/dynlib/delay.c` and `src_jni/dynlib/digitar.c`. An access outside of the memory, and a
sum that is no `int`, are undefined in the source and yield `none`.
-/

namespace Vuknob

open Library

/-- `struct delayLineMono`, `src_jni/dynlib/libfilter.h:96–99`. -/
structure DelayLineMono (F : Type) where
  delayLine : List F
  delayLineLength : Int
  delayLineHead : Int
  delayLineTail : Int

namespace DelayLineMono

variable {F : Type}

/-- `create_delayLineMono`, where there is memory. -/
def create [Zero F] (delayLength : Int) : DelayLineMono F where
  delayLine := List.replicate delayLength.toNat 0
  delayLineLength := delayLength
  delayLineHead := delayLength - 1
  delayLineTail := 0

/-- What is read at an index. -/
def load (memory : List F) (index : Int) : Option F :=
  if 0 ≤ index then memory[index.toNat]? else none

/-- The memory after a value has been written at an index. -/
def store (memory : List F) (index : Int) (value : F) : Option (List F) :=
  if 0 ≤ index ∧ index < memory.length then some (memory.set index.toNat value) else none

/-- `delayLineMonoPut`. -/
def put (value : F) (d : DelayLineMono F) : Option (DelayLineMono F) := do
  let delayLine ← store d.delayLine d.delayLineHead value
  let next ← int (d.delayLineHead + 1)
  return { d with delayLine, delayLineHead := next.tmod d.delayLineLength }

/-- `delayLineMonoGetOffset`. -/
def getOffset (offset : Int) (d : DelayLineMono F) : Option (F × DelayLineMono F) := do
  let sum ← int (d.delayLineTail + d.delayLineLength)
  let sum ← int (sum - offset)
  let sum ← int (sum - 1)
  let value ← load d.delayLine (sum.tmod d.delayLineLength)
  let next ← int (d.delayLineTail + 1)
  return (value, { d with delayLineTail := next.tmod d.delayLineLength })

/-- A value is put, and one is got. The pair is the value with the offset. -/
def putGet (d : DelayLineMono F) (p : F × Int) : Option (F × DelayLineMono F) := do
  (← d.put p.1).getOffset p.2

/-- `delayLine_head` is one behind `delayLine_tail`, round the line. -/
def InStep (d : DelayLineMono F) : Prop :=
  d.delayLineHead % d.delayLineLength = (d.delayLineTail - 1) % d.delayLineLength

end DelayLineMono

/-- `DELAY_LINE_LENGTH`, `src_jni/dynlib/delay.c:46`. -/
def Delay.lineLength : Int := 44100 * 5

/-- The offset of `execute`, `src_jni/dynlib/delay.c:170–172`. -/
def Delay.offset (delay : Int) : Int := if delay ≥ lineLength then lineLength else delay

/-- `MAX_PERIOD_LEN`, `src_jni/dynlib/digitar.c:40`. -/
def Digitar.maxPeriodLen : Int := 2048

/-- `n->period`, `src_jni/dynlib/digitar.c:330–332`. -/
def Digitar.period (period : Int) : Int := if period ≥ maxPeriodLen then maxPeriodLen - 1 else period

namespace DelayLineMono

variable {F : Type} [Zero F]

/-- The value that was put so many puts before the last one, or 0 when there was none. -/
def putAgo (pairs : List (F × Int)) (offset : Int) : F :=
  ago (pairs.map Prod.fst).reverse 0 offset.toNat

/-- From a new line of this length each pair is carried out, keeps head and tail in step, and gets
the value that was put `offset` puts ago. -/
def Delays (length : Int) (pairs : List (F × Int)) : Prop :=
  ∀ front p back, pairs = front ++ p :: back →
    ∃ d value d', Run putGet (fun _ _ _ ↦ True) (create length) front d ∧ d.InStep ∧
      d.putGet p = some (value, d') ∧ d'.InStep ∧ value = putAgo (front ++ [p]) p.2

/-- The offset is below the length. Where it is the length itself, the value that has just been put
is got, for a line of one slot or where the tail is not at the beginning. -/
def Reached (length : Int) (front : List (F × Int)) (p : F × Int) : Prop :=
  front.length % length + length < 2 ^ 31 ∧
    (p.2 < length ∨ (length = 1 ∨ ¬ length ∣ front.length) ∧ p.1 = putAgo (front ++ [p]) length)

/-! ## A line in use -/

/-- The line after some pairs. -/
structure After (length : Nat) (pairs : List (F × Int)) (d : DelayLineMono F) : Prop where
  memory : d.delayLine.length = length
  length_eq : d.delayLineLength = length
  tail_eq : d.delayLineTail = (pairs.length % length : Nat)
  head_eq : d.delayLineHead = ((length - 1 + pairs.length) % length : Nat)
  remembers : Remembers d.delayLine (length - 1) (pairs.map Prod.fst).reverse 0

variable {length : Nat} {pairs : List (F × Int)} {d : DelayLineMono F}

theorem after_create (hlength : 0 < length) : After length [] (create length : DelayLineMono F) where
  memory := by rw [create, List.length_replicate, Int.toNat_natCast]
  length_eq := rfl
  tail_eq := by rw [List.length_nil, Nat.zero_mod]; rfl
  head_eq := by
    rw [List.length_nil, Nat.add_zero, Nat.mod_eq_of_lt (Nat.sub_lt hlength Nat.one_pos)]
    exact (Int.ofNat_sub hlength).symm
  remembers := remembers_replicate _ _ _

theorem After.inStep (h : After length pairs d) (hlength : 0 < length) : d.InStep := by
  have hcast : ((length - 1 + pairs.length : Nat) : Int) = pairs.length - 1 + length := by omega
  rw [InStep, h.length_eq, h.tail_eq, h.head_eq, Int.natCast_emod, Int.natCast_emod, hcast]
  calc (((pairs.length : Int) - 1 + length) % length) % length
      = (pairs.length - 1 + length) % length := Int.emod_emod_of_dvd _ (Int.dvd_refl _)
    _ = (pairs.length - 1) % length := Int.add_emod_right ..
    _ = ((pairs.length : Int) % length - 1) % length := (Int.emod_sub_emod _ _ 1).symm

/-- The line after one more pair. -/
def next (d : DelayLineMono F) (p : F × Int) : DelayLineMono F where
  delayLine := d.delayLine.set d.delayLineHead.toNat p.1
  delayLineLength := d.delayLineLength
  delayLineHead := (d.delayLineHead + 1).tmod d.delayLineLength
  delayLineTail := (d.delayLineTail + 1).tmod d.delayLineLength

/-- An index that goes one on, round the line. -/
private theorem tmod_succ (n length : Nat) :
    (((n % length : Nat) : Int) + 1).tmod length = ((n + 1) % length : Nat) := by
  rw [Int.tmod_eq_emod_of_nonneg (by omega)]
  norm_cast
  exact Nat.mod_add_mod n length 1

theorem After.next (h : After length pairs d) (p : F × Int) :
    After length (pairs ++ [p]) (d.next p) where
  memory := by rw [DelayLineMono.next, List.length_set, h.memory]
  length_eq := h.length_eq
  tail_eq := by
    rw [DelayLineMono.next, h.tail_eq, h.length_eq, List.length_append]
    exact tmod_succ _ _
  head_eq := by
    rw [DelayLineMono.next, h.head_eq, h.length_eq, List.length_append]
    exact tmod_succ _ _
  remembers := by
    have hwrite := h.remembers.write p.1
    rw [List.length_reverse, List.length_map, h.memory] at hwrite
    rw [DelayLineMono.next, h.head_eq, Int.toNat_natCast, List.map_append, List.map_singleton,
      List.reverse_append, List.reverse_singleton, List.singleton_append]
    exact hwrite

omit [Zero F] in
/-- A value is got if the sum of the tail and the length is an `int` and the index is inside of the
memory. -/
theorem getOffset_eq {offset : Int} (htail : 0 ≤ d.delayLineTail ∧
      d.delayLineTail < d.delayLineLength) (_ : d.delayLineLength < 2 ^ 31)
    (hoffset : 0 ≤ offset ∧ offset ≤ d.delayLineLength) :
    d.getOffset offset = if d.delayLineTail + d.delayLineLength < 2 ^ 31 then
      (load d.delayLine
        ((d.delayLineTail + d.delayLineLength - offset - 1).tmod d.delayLineLength)).map
        (·, { d with delayLineTail := (d.delayLineTail + 1).tmod d.delayLineLength })
      else none := by
  rw [getOffset]
  split
  · next hfits =>
    have hnext : int (d.delayLineTail + 1) = some (d.delayLineTail + 1) := int_of_fits (by omega)
    rw [int_of_fits (by omega), Option.bind_eq_bind, Option.bind_some, int_of_fits (by omega),
      Option.bind_some, int_of_fits (by omega), Option.bind_some, hnext]
    cases load d.delayLine _ with
    | none => rfl
    | some value => rfl
  · next hfits =>
    have hnone : int (d.delayLineTail + d.delayLineLength) = none := if_neg (by omega)
    rw [hnone]
    rfl

theorem After.putGet_eq (h : After length pairs d) (hlength : 0 < length ∧ length < 2 ^ 31)
    {p : F × Int} (hp : 0 ≤ p.2 ∧ p.2 ≤ length) :
    d.putGet p = if pairs.length % length + length < 2 ^ 31 then
      (load (d.next p).delayLine
        ((((pairs.length % length : Nat) : Int) + length - p.2 - 1).tmod length)).map (·, d.next p)
      else none := by
  have htail := Nat.mod_lt pairs.length hlength.1
  have hhead := Nat.mod_lt (length - 1 + pairs.length) hlength.1
  have hstore : store d.delayLine d.delayLineHead p.1 = some (d.next p).delayLine := by
    rw [store, h.head_eq, h.memory, if_pos (by omega), DelayLineMono.next, h.head_eq]
  have hput : d.put p.1 = some { d.next p with delayLineTail := d.delayLineTail } := by
    rw [put, hstore, Option.bind_eq_bind, Option.bind_some, int_of_fits (by rw [h.head_eq]; omega)]
    rfl
  rw [putGet, hput, Option.bind_eq_bind, Option.bind_some, getOffset_eq]
  · rw [DelayLineMono.next, h.tail_eq, h.length_eq]
    norm_cast
  all_goals
    rw [DelayLineMono.next, h.length_eq]
    first | rw [h.tail_eq]; omega | omega

/-- An offset below the length is that of the value that was put so many puts ago. -/
theorem After.load_of_lt {p : F × Int} (h : After length (pairs ++ [p]) d) {offset : Nat}
    (hoffset : offset < length) :
    load d.delayLine ((((pairs.length % length : Nat) : Int) + length - offset - 1).tmod length) =
      some (putAgo (pairs ++ [p]) offset) := by
  have hremembers := h.remembers offset (by rw [h.memory]; exact hoffset)
  have hcast : ((pairs.length % length : Nat) : Int) + length - offset - 1 =
      ((pairs.length % length + (length - 1 - offset) : Nat) : Int) := by omega
  have hslot : length - 1 + (pairs.length + 1) + length - 1 - offset =
      pairs.length + (length - 1 - offset) + length := by omega
  rw [List.length_reverse, List.length_map, h.memory, List.length_append, List.length_singleton,
    hslot, Nat.add_mod_right] at hremembers
  rw [hcast, Int.tmod_eq_emod_of_nonneg (Int.natCast_nonneg _), ← Int.natCast_emod,
    Nat.mod_add_mod, load, if_pos (Int.natCast_nonneg _), Int.toNat_natCast]
  exact hremembers

/-- With the length as the offset it is the value that has just been put, if the index is inside of
the memory at all. -/
theorem After.load_of_eq {p : F × Int} (h : After length (pairs ++ [p]) d) (hlength : 0 < length) :
    load d.delayLine ((((pairs.length % length : Nat) : Int) + length - length - 1).tmod length) =
      if length = 1 ∨ ¬ length ∣ pairs.length then some p.1 else none := by
  have htail := Nat.mod_lt pairs.length hlength
  have hlast : putAgo (pairs ++ [p]) (0 : Nat) = p.1 := by
    rw [putAgo, List.map_append, List.reverse_append]
    rfl
  split
  · next hinside =>
    rw [← hlast, ← h.load_of_lt hlength]
    congr 1
    rcases hinside with rfl | hdvd
    · rw [Nat.mod_one]
      rfl
    · have hpos : 0 < pairs.length % length :=
        Nat.pos_of_ne_zero fun hzero ↦ hdvd (Nat.dvd_of_mod_eq_zero hzero)
      have hcast : ((pairs.length % length : Nat) : Int) + length - (0 : Nat) - 1 =
          ((pairs.length % length : Nat) : Int) - 1 + length := by omega
      rw [hcast, Int.add_sub_cancel, Int.tmod_eq_emod_of_nonneg (by omega),
        Int.tmod_eq_emod_of_nonneg (by omega), Int.add_emod_right]
  · next houtside =>
    obtain ⟨hne, hdvd⟩ := not_or.mp houtside
    have hzero : pairs.length % length = 0 := Nat.mod_eq_zero_of_dvd (not_not.mp hdvd)
    have hminus : (((0 : Nat) : Int) + length - length - 1).tmod length = -1 := by
      have hcast : ((0 : Nat) : Int) + length - length - 1 = -1 := by omega
      rw [hcast, Int.neg_tmod, Int.tmod_eq_of_lt (by decide) (by omega)]
    rw [hzero, hminus]
    exact if_neg (by decide)

/-- When a pair gets the value that was put `offset` puts ago. -/
theorem After.reached_iff (h : After length pairs d) (hlength : 0 < length ∧ length < 2 ^ 31)
    {p : F × Int} (hp : 0 ≤ p.2 ∧ p.2 ≤ length) : Reached length pairs p ↔
      ∃ value d', d.putGet p = some (value, d') ∧ value = putAgo (pairs ++ [p]) p.2 := by
  obtain ⟨value, offset⟩ := p
  obtain ⟨offset, rfl⟩ := Int.eq_ofNat_of_zero_le hp.1
  have hnext := h.next (value, (offset : Int))
  have hoffset : offset ≤ length := Int.ofNat_le.mp hp.2
  rw [h.putGet_eq hlength hp, Reached]
  split
  · next hfits =>
    by_cases hlt : offset < length
    · rw [hnext.load_of_lt hlt]
      constructor
      · exact fun _ ↦ ⟨_, _, rfl, rfl⟩
      · exact fun _ ↦ ⟨by exact_mod_cast hfits, .inl (Int.ofNat_lt.mpr hlt)⟩
    · obtain rfl : offset = length := Nat.le_antisymm hoffset (Nat.le_of_not_lt hlt)
      rw [hnext.load_of_eq hlength.1]
      constructor
      · rintro ⟨-, hlt' | ⟨hinside, hvalue⟩⟩
        · exact absurd hlt' (Int.lt_irrefl _)
        · rw [if_pos (by exact_mod_cast hinside)]
          exact ⟨_, _, rfl, hvalue⟩
      · rintro ⟨got, d', hgot, hvalue⟩
        split at hgot
        · next hinside =>
          obtain ⟨rfl, -⟩ := Prod.mk.inj (Option.some.inj hgot)
          exact ⟨by exact_mod_cast hfits, .inr ⟨by exact_mod_cast hinside, hvalue⟩⟩
        · cases hgot
  · next hfits =>
    constructor
    · exact fun hreached ↦ absurd (by exact_mod_cast hreached.1) hfits
    · rintro ⟨got, d', hgot, -⟩
      cases hgot

/-- A pair that is carried out moves the line on, whatever its offset. -/
theorem After.of_putGet (h : After length pairs d) (hlength : 0 < length ∧ length < 2 ^ 31)
    {p : F × Int} (hp : 0 ≤ p.2 ∧ p.2 ≤ length) {value : F} {d' : DelayLineMono F}
    (hstep : d.putGet p = some (value, d')) : After length (pairs ++ [p]) d' := by
  rw [h.putGet_eq hlength hp] at hstep
  split at hstep
  · obtain ⟨_, -, heq⟩ := Option.map_eq_some_iff.mp hstep
    obtain ⟨-, rfl⟩ := Prod.mk.inj heq
    exact h.next p
  · cases hstep

theorem After.of_run (h : After length pairs d) (hlength : 0 < length ∧ length < 2 ^ 31)
    {more : List (F × Int)} (hmore : ∀ p ∈ more, 0 ≤ p.2 ∧ p.2 ≤ length) {d' : DelayLineMono F}
    (hrun : Run putGet (fun _ _ _ ↦ True) d more d') : After length (pairs ++ more) d' := by
  induction hrun generalizing pairs with
  | nil d => rwa [List.append_nil]
  | cons hstep _ _ ih =>
    obtain ⟨hp, hmore⟩ := List.forall_mem_cons.mp hmore
    have hrest := ih (h.of_putGet hlength hp hstep) hmore
    rwa [List.append_assoc, List.singleton_append] at hrest

/-- Where the offsets of all pairs are reached, all pairs are carried out. -/
theorem exists_run (hlength : 0 < length ∧ length < 2 ^ 31)
    (hpairs : ∀ p ∈ pairs, 0 ≤ p.2 ∧ p.2 ≤ length)
    (hreached : ∀ front p back, pairs = front ++ p :: back → Reached length front p) :
    ∃ d, Run putGet (fun _ _ _ ↦ True) (create length) pairs d ∧ After length pairs d := by
  induction pairs using List.reverseRecOn with
  | nil => exact ⟨_, .nil _, after_create hlength.1⟩
  | append_singleton pairs p ih =>
    rw [List.forall_mem_append, List.forall_mem_singleton] at hpairs
    obtain ⟨d, hrun, hafter⟩ := ih hpairs.1 fun front q back heq ↦
      hreached front q (back ++ [p]) (by rw [heq, List.append_assoc]; rfl)
    obtain ⟨value, d', hstep, -⟩ :=
      (hafter.reached_iff hlength hpairs.2).mp (hreached pairs p [] rfl)
    exact ⟨d', hrun.append (.cons hstep trivial (.nil _)),
      hafter.of_putGet hlength hpairs.2 hstep⟩

/-- Where the offsets of all pairs are reached, the line delays by them. -/
theorem delays_of_reached (hlength : 0 < length ∧ length < 2 ^ 31)
    (hpairs : ∀ p ∈ pairs, 0 ≤ p.2 ∧ p.2 ≤ length)
    (hreached : ∀ front p back, pairs = front ++ p :: back → Reached length front p) :
    Delays length pairs := by
  rintro front p back rfl
  obtain ⟨hfront, hback⟩ := List.forall_mem_append.mp hpairs
  have hp := (List.forall_mem_cons.mp hback).1
  obtain ⟨d, hrun, hafter⟩ := exists_run hlength hfront fun front' q back' heq ↦
    hreached front' q (back' ++ p :: back) (by rw [heq, List.append_assoc]; rfl)
  obtain ⟨value, d', hstep, hvalue⟩ :=
    (hafter.reached_iff hlength hp).mp (hreached front p back rfl)
  exact ⟨d, value, d', hrun, hafter.inStep hlength.1, hstep,
    (hafter.of_putGet hlength hp hstep).inStep hlength.1, hvalue⟩

/-- The line returns what was put `offset` puts ago as long as every offset is reached. -/
theorem delays_iff (hlength : 0 < length ∧ length < 2 ^ 31)
    (hpairs : ∀ p ∈ pairs, 0 ≤ p.2 ∧ p.2 ≤ length) :
    Delays length pairs ↔
      ∀ front p back, pairs = front ++ p :: back → Reached length front p := by
  refine ⟨?_, delays_of_reached hlength hpairs⟩
  rintro hdelays front p back rfl
  obtain ⟨d, value, d', hrun, -, hstep, -, hvalue⟩ := hdelays front p back rfl
  obtain ⟨hfront, hback⟩ := List.forall_mem_append.mp hpairs
  have hafter := (after_create hlength.1).of_run hlength hfront hrun
  exact (hafter.reached_iff hlength (List.forall_mem_cons.mp hback).1).mpr
    ⟨value, d', hstep, hvalue⟩

/-- Every offset below the length is reached, unless the line is so long that sums overflow. -/
theorem reached_of_lt (hlength : 0 < length ∧ length ≤ 2 ^ 30) {p : F × Int} (hp : p.2 < length)
    (front : List (F × Int)) : Reached length front p := by
  have htail := Nat.mod_lt front.length hlength.1
  exact ⟨by exact_mod_cast (by omega : front.length % length + length < 2 ^ 31), .inl hp⟩

theorem delays_of_lt (hlength : 0 < length ∧ length ≤ 2 ^ 30)
    (hpairs : ∀ p ∈ pairs, 0 ≤ p.2 ∧ p.2 < length) : Delays length pairs := by
  refine delays_of_reached (by omega) ?_ fun front p back heq ↦ ?_
  · exact fun p hp ↦ ⟨(hpairs p hp).1, Int.le_of_lt (hpairs p hp).2⟩
  · refine reached_of_lt hlength (hpairs p ?_).2 front
    rw [heq]
    exact List.mem_append_right _ (List.mem_cons_self ..)

theorem delays_iff_threePairs : Delays 4 [((5 : Int), (0 : Int)), (6, 1), (7, 3)] := by
  have hlt : ∀ q ∈ [((5 : Int), (0 : Int)), (6, 1), (7, 3)], q.2 < 4 := by decide
  have hlength : 0 < 4 ∧ 4 < 2 ^ 31 := by decide
  refine (delays_iff hlength (by decide)).mpr fun front p back heq ↦ ?_
  exact reached_of_lt (by decide) (hlt p (heq ▸ List.mem_append_right _ (List.mem_cons_self ..))) _

/-! ## The callers -/

/-- The strings of the guitar get what was put a period ago. -/
theorem digitar_delays {puts : List (F × Int)} (h : ∀ s ∈ puts, 0 ≤ s.2) :
    Delays Digitar.maxPeriodLen (puts.map (Prod.map id Digitar.period)) := by
  have hlength : 0 < 2048 ∧ 2048 ≤ 2 ^ 30 := by decide
  refine delays_of_lt hlength fun p hp ↦ ?_
  obtain ⟨s, hs, rfl⟩ := List.mem_map.mp hp
  have hnonneg := h s hs
  show 0 ≤ Digitar.period s.2 ∧ Digitar.period s.2 < 2048
  rw [Digitar.period, Digitar.maxPeriodLen]
  split <;> omega

/-- The delay machine gets what was put so long ago if the clamp does not come in. -/
theorem delay_delays {puts : List (F × Int)} (h : ∀ s ∈ puts, 0 ≤ s.2 ∧ s.2 < Delay.lineLength) :
    Delays Delay.lineLength (puts.map (Prod.map id Delay.offset)) := by
  have hlength : 0 < 220500 ∧ 220500 ≤ 2 ^ 30 := by decide
  refine delays_of_lt hlength fun p hp ↦ ?_
  obtain ⟨s, hs, rfl⟩ := List.mem_map.mp hp
  have hoffset : Delay.offset s.2 = s.2 := if_neg (Int.not_le.mpr (h s hs).2)
  show 0 ≤ Delay.offset s.2 ∧ Delay.offset s.2 < 220500
  rw [hoffset]
  exact h s hs

/-- With the clamp, the first value is got from in front of the memory. -/
theorem not_delays_clamped :
    ¬ Delays Delay.lineLength [((1 : Int), Delay.offset Delay.lineLength)] := by
  intro hdelays
  obtain ⟨d, value, d', hrun, -, hstep, -, hvalue⟩ := hdelays [] _ [] rfl
  have hcreated : After 220500 [] (create (220500 : Nat) : DelayLineMono Int) :=
    after_create (by decide)
  have hafter := hcreated.of_run (by decide) (List.forall_mem_nil _) hrun
  obtain ⟨-, hlt | ⟨hinside, -⟩⟩ :=
    (hafter.reached_iff (by decide) (by decide)).mpr ⟨value, d', hstep, hvalue⟩
  · exact absurd hlt (by decide)
  · exact absurd hinside (by decide)

end DelayLineMono

end Vuknob
