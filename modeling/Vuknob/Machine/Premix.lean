import Vuknob.Base.CInt
import Vuknob.Library.Grid
import Vuknob.Samples.StaticSignal

/-!
# Premixing

`Machine::premix`, `src_jni/machine.cc:1253–1316`: the signals that are attached to an input are
added up in one signal, channel by channel. A read and a write outside of a buffer are undefined.
-/

namespace Vuknob

open Library (loop loop_rule grid)

/-- The sum of two values of a resolution. A sum of integers that does not fit wraps around, also
one of 32 bits, and `addFloat` is the sum of two `float`s. -/
def Resolution.add (addFloat : Int → Int → Int) (r : Resolution) (x y : Int) : Int :=
  match r with
  | .fl32bit => addFloat x y
  | r => (x + y).bmod (256 ^ r.size)

/-- What `premix` reads of a signal. -/
structure SignalData where
  channels : Int
  samples : Int
  resolution : Resolution
  buffer : List Int
  deriving DecidableEq

namespace SignalData

/-- The index `i * cmax + c`. -/
def index (i : Nat) (cmax c : Int) : Option Int := do
  int ((← int (i * cmax)) + c)

section

variable (addFloat : Int → Int → Int)

/-- A round of the inner loop of `__PREMIX_MACRO`. -/
def mixSample (r : Resolution) (cmaxS cmaxN cS cN : Int) (v : List Int) (i : Nat) (q : List Int) :
    Option (List Int) := do
  let target ← index i cmaxS cS
  let source ← index i cmaxN cN
  Library.store q target (r.add addFloat (← Library.fetch q target) (← Library.fetch v source))

/-- The loop over the channels of the signal and of an input at once. -/
def mixChannels (s n : SignalData) : Nat → Int → Int → List Int → Option (List Int)
  | fuel, cN, cS, q =>
    if cN < n.channels ∨ cS < s.channels then
      match fuel with
      | 0 => none
      | fuel + 1 => do
        let cN := if cN < n.channels then cN else n.channels - 1
        let cS := if cS < s.channels then cS else s.channels - 1
        let q ← loop (mixSample addFloat s.resolution s.channels n.channels cS cN n.buffer)
          s.samples.toNat q
        mixChannels s n fuel (cN + 1) (cS + 1) q
    else some q

/-- `__PREMIX_MACRO`, over the list of the inputs. -/
def premixMacro (fuel : Nat) (s : SignalData) : List SignalData → List Int → Option (List Int)
  | [], q => some q
  | n :: ns, q => do
    let q ← mixChannels addFloat s n fuel 0 0 q
    premixMacro fuel s ns q

/-- `Machine::premix`. -/
def premix (fuel : Nat) (s : SignalData) (ns : List SignalData) : Option SignalData :=
  match s.resolution with
  | .maxR | .ptr => some s
  | _ => (premixMacro addFloat fuel s ns s.buffer).map fun buffer ↦ { s with buffer }

end

/-! ## One input -/

/-- A signal whose buffer has the values of all channels at each time. -/
structure WellFormed (s : SignalData) : Prop where
  channels : 0 ≤ s.channels
  samples : 0 ≤ s.samples
  length : (s.buffer.length : Int) = s.samples * s.channels
  inMemory : s.buffer.length < 2 ^ 31

/-- The channel that contributes to a channel: one channel contributes to all of them. -/
def source (n : SignalData) (c : Nat) : Nat := if n.channels = 1 then 0 else c

/-- The value that contributes to a channel at a time. -/
def value (n : SignalData) (i c : Nat) : Int :=
  (n.buffer[i * n.channels.toNat + n.source c]?).getD 0

variable {addFloat : Int → Int → Int} {s n : SignalData} {channels samples : Nat}
  {f : Nat → Nat → Int}

theorem index_eq {i c : Nat} (hi : i < samples) (hc : c < channels)
    (hfits : samples * channels < 2 ^ 31) :
    index i channels c = some ((i * channels + c : Nat) : Int) := by
  have := Library.entry_lt hi hc
  rw [index, ← Int.natCast_mul, int_of_fits (by omega), Option.bind_eq_bind, Option.bind_some,
    ← Int.natCast_add, int_of_fits (by omega)]

theorem mixSample_grid {r : Resolution} {columns d : Nat} {g : Nat → Nat → Int} {c : Nat}
    (hc : c < channels) (hd : d < columns) (hfits : samples * channels < 2 ^ 31)
    (hfits' : samples * columns < 2 ^ 31) {i : Nat} (hi : i < samples) :
    mixSample addFloat r channels columns c d (grid samples columns g) i (grid samples channels f) =
      some (grid samples channels fun i' c' ↦
        if i' = i ∧ c' = c then r.add addFloat (f i c) (g i d) else f i' c') := by
  rw [mixSample, index_eq hi hc hfits, index_eq hi hd hfits', Option.bind_eq_bind,
    Option.bind_some, Option.bind_some, Library.fetch_grid hi hc, Option.bind_some,
    Library.fetch_grid hi hd, Option.bind_some, Library.store_grid hi hc]

/-- The inner loop adds the values of a channel to a channel. -/
theorem loop_mixSample {r : Resolution} {columns d : Nat} {g : Nat → Nat → Int} {c : Nat}
    (hc : c < channels) (hd : d < columns) (hfits : samples * channels < 2 ^ 31)
    (hfits' : samples * columns < 2 ^ 31) :
    loop (mixSample addFloat r channels columns c d (grid samples columns g)) samples
        (grid samples channels f) =
      some (grid samples channels fun i' c' ↦
        if c' = c then r.add addFloat (f i' c) (g i' d) else f i' c') := by
  let body := mixSample addFloat r channels columns c d (grid samples columns g)
  obtain ⟨q, hq, rfl⟩ : ∃ q, loop body samples (grid samples channels f) = some q ∧
      q = grid samples channels fun i' c' ↦
        if i' < samples ∧ c' = c then r.add addFloat (f i' c) (g i' d) else f i' c' :=
    loop_rule (fun i q ↦ q = grid samples channels fun i' c' ↦
      if i' < i ∧ c' = c then r.add addFloat (f i' c) (g i' d) else f i' c')
    (Library.grid_congr fun i' _ c' _ ↦ (if_neg (by omega)).symm) fun i hi q hq ↦ by
      subst hq
      refine ⟨_, mixSample_grid hc hd hfits hfits' hi, Library.grid_congr fun i' _ c' _ ↦ ?_⟩
      by_cases hentry : i' = i ∧ c' = c
      · obtain ⟨rfl, rfl⟩ := hentry
        rw [if_pos ⟨rfl, rfl⟩, if_neg (by omega), if_pos ⟨Nat.lt_succ_self _, rfl⟩]
      · rw [if_neg hentry]
        by_cases hdone : i' < i ∧ c' = c
        · rw [if_pos hdone, if_pos ⟨by omega, hdone.2⟩]
        · rw [if_neg hdone, if_neg (by omega)]
  rw [hq]
  refine congrArg some (Library.grid_congr fun i' hi' c' _ ↦ ?_)
  by_cases hchannel : c' = c
  · rw [if_pos ⟨hi', hchannel⟩, if_pos hchannel]
  · rw [if_neg (fun h ↦ hchannel h.2), if_neg hchannel]

/-- The buffer of a signal as a table of its values. -/
theorem WellFormed.exists_grid (h : s.WellFormed) (hsamples : s.samples = samples)
    (hchannels : s.channels = channels) :
    ∃ g, s.buffer = grid samples channels g ∧ samples * channels < 2 ^ 31 := by
  have hlength := h.length
  rw [hsamples, hchannels, ← Int.natCast_mul, Int.ofNat_inj] at hlength
  obtain ⟨g, hg⟩ := Library.exists_grid hlength
  exact ⟨g, hg, hlength ▸ h.inMemory⟩

theorem value_grid {columns : Nat} {g : Nat → Nat → Int}
    (hbuffer : n.buffer = grid samples columns g)
    (hcolumns : n.channels = columns) {i c : Nat} (hi : i < samples) (hc : n.source c < columns) :
    n.value i c = g i (n.source c) := by
  rw [value, hbuffer, show n.channels.toNat = columns by omega, Library.getElem?_grid hi hc,
    Option.getD_some]

/-- `c_n` in front of the round for a channel. -/
def counter (n : SignalData) (c : Nat) : Nat := if n.channels = 1 then min c 1 else c

theorem counter_cases (n : SignalData) (c : Nat) :
    (n.channels = 1 ∧ n.counter c = min c 1 ∧ n.source c = 0) ∨
      (n.channels ≠ 1 ∧ n.counter c = c ∧ n.source c = c) := by
  by_cases hone : n.channels = 1
  · exact .inl ⟨hone, if_pos hone, if_pos hone⟩
  · exact .inr ⟨hone, if_neg hone, if_neg hone⟩

/-- The loop over the channels adds the values for each channel that is left once. -/
theorem mixChannels_grid (hn : n.WellFormed) (hsamples : n.samples = s.samples)
    (hchannels : n.channels = s.channels ∨ n.channels = 1) (hsamplesS : s.samples = samples)
    (hchannelsS : s.channels = channels) (hfits : samples * channels < 2 ^ 31)
    (hpos : 0 < channels) {fuel c : Nat} (hc : c + fuel = channels) (f : Nat → Nat → Int) :
    mixChannels addFloat s n fuel (n.counter c) c (grid samples channels f) =
      some (grid samples channels fun i c' ↦
        if c ≤ c' then s.resolution.add addFloat (f i c') (n.value i c') else f i c') := by
  obtain ⟨columns, hcolumns⟩ := Int.eq_ofNat_of_zero_le hn.channels
  obtain ⟨g, hg, hfits'⟩ := hn.exists_grid (hsamples.trans hsamplesS) hcolumns
  induction fuel generalizing c f with
  | zero =>
    have := counter_cases n c
    rw [mixChannels, if_neg (by omega)]
    exact congrArg some (Library.grid_congr fun i _ c' _ ↦ (if_neg (by omega)).symm)
  | succ fuel ih =>
    have hcases := counter_cases n c
    have hnext := counter_cases n (c + 1)
    have hlt : n.source c < columns := by omega
    have hclamp : (if (n.counter c : Int) < n.channels then (n.counter c : Int)
        else n.channels - 1) = n.source c := by
      split <;> omega
    have hup : (n.source c : Int) + 1 = n.counter (c + 1) := by omega
    rw [mixChannels, if_pos (by omega)]
    show (loop _ _ _).bind _ = _
    rw [hclamp, if_pos (show (c : Int) < s.channels by omega), hchannelsS, hcolumns, hg, hsamplesS,
      Int.toNat_natCast, loop_mixSample (by omega) hlt hfits hfits', Option.bind_some, hup,
      ← Int.natCast_succ, ih (by omega)]
    refine congrArg some (Library.grid_congr fun i hi c' hc' ↦ ?_)
    have hvalue := value_grid hg hcolumns hi hlt
    rcases Nat.lt_trichotomy c c' with hlt | rfl | hgt
    · rw [if_pos (by omega), if_neg (by omega), if_pos hlt.le]
    · rw [if_neg (by omega), if_pos rfl, if_pos (Nat.le_refl _), hvalue]
    · rw [if_neg (by omega), if_neg (by omega), if_neg (by omega)]

/-! ## All inputs -/

/-- The inputs that can be attached to a premixed input of this signal: they have the length, the
resolution and the channels of the signal, or one channel. -/
def Fits (s n : SignalData) : Prop :=
  n.WellFormed ∧ n.samples = s.samples ∧ n.resolution = s.resolution ∧
    (n.channels = s.channels ∨ n.channels = 1)

/-- What is added up for a channel at a time. -/
def mixed (addFloat : Int → Int → Int) (s : SignalData) (ns : List SignalData) (i c : Nat)
    (start : Int) : Int :=
  (ns.map (value · i c)).foldl (s.resolution.add addFloat) start

theorem premixMacro_grid {ns : List SignalData} (hns : ∀ n ∈ ns, s.Fits n)
    (hsamples : s.samples = samples) (hchannels : s.channels = channels)
    (hfits : samples * channels < 2 ^ 31) (hpos : 0 < channels) (f : Nat → Nat → Int) :
    premixMacro addFloat channels s ns (grid samples channels f) =
      some (grid samples channels fun i c ↦ mixed addFloat s ns i c (f i c)) := by
  induction ns generalizing f with
  | nil => rfl
  | cons n ns ih =>
    obtain ⟨⟨hn, hlength, -, hadmitted⟩, hns⟩ := List.forall_mem_cons.mp hns
    have hstart : (n.counter 0 : Int) = 0 := by
      have := counter_cases n 0
      omega
    have hmix : mixChannels addFloat s n channels 0 0 (grid samples channels f) = _ :=
      hstart ▸ mixChannels_grid hn hlength hadmitted hsamples hchannels hfits hpos
        (Nat.zero_add channels) f
    rw [premixMacro, hmix, Option.bind_eq_bind, Option.bind_some, ih hns]
    refine congrArg some (Library.grid_congr fun i _ c _ ↦ ?_)
    rw [if_pos (Nat.zero_le c)]
    rfl

/-- The sum of integers wraps around once at the end as well. -/
theorem foldl_add {r : Resolution} (hr : r ≠ .fl32bit) (xs : List Int) (x : Int) :
    xs.foldl (r.add addFloat) (x.bmod (256 ^ r.size)) = (x + xs.sum).bmod (256 ^ r.size) := by
  induction xs generalizing x with
  | nil => rw [List.foldl_nil, List.sum_nil, Int.add_zero]
  | cons y xs ih =>
    have hadd : r.add addFloat (x.bmod (256 ^ r.size)) y = (x + y).bmod (256 ^ r.size) := by
      rw [← Int.bmod_add_bmod]
      cases r <;> first | exact absurd rfl hr | rfl
    rw [List.foldl_cons, hadd, ih, List.sum_cons, Int.add_assoc]

/-! ## The sum of the inputs -/

/-- The signal becomes the sum of the inputs, channel by channel, modulo the range of an integer. -/
def Sums (addFloat : Int → Int → Int) (s : SignalData) (ns : List SignalData) : Prop :=
  ∃ fuel out, premix addFloat fuel s ns = some out ∧
    ∀ i c : Nat, i < s.samples → c < s.channels →
      out.buffer[i * s.channels.toNat + c]? = some (mixed addFloat s ns i c 0) ∧
      (s.resolution ≠ .fl32bit → mixed addFloat s ns i c 0 =
        (ns.map (value · i c)).sum.bmod (256 ^ s.resolution.size))

theorem premix_eq (hr : s.resolution ≠ .ptr ∧ s.resolution ≠ .maxR) (fuel : Nat)
    (ns : List SignalData) :
    premix addFloat fuel s ns =
      (premixMacro addFloat fuel s ns s.buffer).map fun buffer ↦ { s with buffer } := by
  rw [premix]
  split
  · next h => exact absurd h hr.2
  · next h => exact absurd h hr.1
  · rfl

/-- A cleared signal with channels becomes the sum of its inputs. -/
theorem sums_of_channels (hs : s.WellFormed) (hclear : ∀ x ∈ s.buffer, x = 0)
    (hr : s.resolution ≠ .ptr ∧ s.resolution ≠ .maxR) {ns : List SignalData}
    (hns : ∀ n ∈ ns, s.Fits n) (hpos : 0 < s.channels) : Sums addFloat s ns := by
  obtain ⟨channels, hchannels⟩ := Int.eq_ofNat_of_zero_le hs.channels
  obtain ⟨samples, hsamples⟩ := Int.eq_ofNat_of_zero_le hs.samples
  obtain ⟨g, hg, hfits⟩ := hs.exists_grid hsamples hchannels
  have hzero {i c : Nat} (hi : i < samples) (hc : c < channels) : g i c = 0 :=
    hclear _ (List.mem_of_getElem? (hg ▸ Library.getElem?_grid hi hc))
  refine ⟨channels, _, by rw [premix_eq hr, hg, premixMacro_grid hns hsamples hchannels hfits
    (by omega), Option.map_some], fun i c hi hc ↦ ⟨?_, fun hfloat ↦ ?_⟩⟩
  · have hentry := Library.getElem?_grid (f := fun i c ↦ mixed addFloat s ns i c (g i c))
      (show i < samples by omega) (show c < channels by omega)
    rw [hzero (by omega) (by omega)] at hentry
    rw [show s.channels.toNat = channels by omega]
    exact hentry
  · have hsum : (ns.map (value · i c)).foldl (s.resolution.add addFloat)
        ((0 : Int).bmod (256 ^ s.resolution.size)) = _ := foldl_add hfloat _ 0
    rw [Int.zero_bmod, Int.zero_add] at hsum
    exact hsum

/-- What is defined for all inputs is defined for each of them. -/
theorem exists_of_premixMacro {fuel : Nat} {ns : List SignalData} {q q' : List Int}
    (h : premixMacro addFloat fuel s ns q = some q') (hn : n ∈ ns) :
    ∃ p p', mixChannels addFloat s n fuel 0 0 p = some p' := by
  induction ns generalizing q with
  | nil => cases hn
  | cons n' ns ih =>
    obtain ⟨p, hp, h⟩ := Option.bind_eq_some_iff.mp h
    rcases List.mem_cons.mp hn with rfl | hn
    · exact ⟨q, p, hp⟩
    · exact ih h hn

/-- An input with one channel makes a signal without channels write in front of its buffer. -/
theorem mixChannels_of_no_channels (hchannels : s.channels = 0) (hn : n.channels = 1)
    (hsamples : 0 < s.samples) (fuel : Nat) (q : List Int) :
    mixChannels addFloat s n fuel 0 0 q = none := by
  have hgoes : (0 : Int) < n.channels ∨ (0 : Int) < s.channels := by omega
  cases fuel with
  | zero => rw [mixChannels, if_pos hgoes]
  | succ fuel =>
    rw [mixChannels, if_pos hgoes]
    show (loop _ _ _).bind _ = _
    rw [if_neg (show ¬ (0 : Int) < s.channels by omega), hchannels]
    refine Option.bind_eq_none_iff.mpr fun t ht ↦ ?_
    obtain ⟨u, u', -, hround⟩ := Library.exists_of_loop ht (i := 0) (by omega)
    rw [mixSample, show index 0 0 (0 - 1) = some (-1) by decide, Option.bind_eq_bind,
      Option.bind_some] at hround
    obtain ⟨source, -, hround⟩ := Option.bind_eq_some_iff.mp hround
    cases hround

/-- Without channels and without values there is nothing to add up. -/
theorem premixMacro_of_no_channels {ns : List SignalData} (hchannels : s.channels = 0)
    (hns : ∀ n ∈ ns, n.channels = 0 ∨ n.channels = 1 ∧ s.samples = 0) (q : List Int) :
    premixMacro addFloat 1 s ns q = some q := by
  induction ns with
  | nil => rfl
  | cons n ns ih =>
    obtain ⟨hn, hns⟩ := List.forall_mem_cons.mp hns
    have hmix : mixChannels addFloat s n 1 0 0 q = some q := by
      rcases hn with hzero | ⟨hone, hsamples⟩
      · rw [mixChannels, if_neg (by omega)]
      · rw [mixChannels, if_pos (by omega), if_pos (by omega), if_neg (by omega), hsamples]
        show mixChannels addFloat s n 0 1 (s.channels - 1 + 1) q = _
        rw [mixChannels, if_neg (by omega)]
    rw [premixMacro, hmix, Option.bind_eq_bind, Option.bind_some, ih hns]

/-- A cleared signal becomes the sum of the inputs that can be attached, exactly if it has a
channel, or nothing is written for an input with one channel. -/
theorem sums_iff (hs : s.WellFormed) (hclear : ∀ x ∈ s.buffer, x = 0)
    (hr : s.resolution ≠ .ptr ∧ s.resolution ≠ .maxR) {ns : List SignalData}
    (hns : ∀ n ∈ ns, s.Fits n) :
    Sums addFloat s ns ↔ ¬ (s.channels = 0 ∧ 0 < s.samples ∧ ∃ n ∈ ns, n.channels = 1) := by
  constructor
  · rintro ⟨fuel, out, hout, -⟩ ⟨hchannels, hsamples, n, hn, hone⟩
    rw [premix_eq hr] at hout
    obtain ⟨q, hq, -⟩ := Option.map_eq_some_iff.mp hout
    obtain ⟨p, p', hp⟩ := exists_of_premixMacro hq hn
    rw [mixChannels_of_no_channels hchannels hone hsamples] at hp
    cases hp
  · intro h
    by_cases hpos : 0 < s.channels
    · exact sums_of_channels hs hclear hr hns hpos
    · have hchannels : s.channels = 0 := by have := hs.channels; omega
      have hempty : ∀ n ∈ ns, n.channels = 0 ∨ n.channels = 1 ∧ s.samples = 0 := by
        intro n hn
        obtain ⟨-, -, -, hadmitted⟩ := hns n hn
        have hsamples := hs.samples
        by_cases hone : n.channels = 1
        · refine .inr ⟨hone, ?_⟩
          by_contra hne
          exact h ⟨hchannels, by omega, n, hn, hone⟩
        · exact .inl (by omega)
      refine ⟨1, s, ?_, fun i c _ hc ↦ by omega⟩
      rw [premix_eq hr, premixMacro_of_no_channels hchannels hempty, Option.map_some]

/-- A mono and a stereo signal in a stereo signal of 16 bits, with a sum that wraps around. -/
theorem sums_stereo :
    let s : SignalData := ⟨2, 2, .bits16, [0, 0, 0, 0]⟩
    let ns : List SignalData := [⟨1, 2, .bits16, [1, 30000]⟩, ⟨2, 2, .bits16, [5, 6, 30000, -8]⟩]
    Sums (fun _ _ ↦ 0) s ns ↔ ¬ (s.channels = 0 ∧ 0 < s.samples ∧ ∃ n ∈ ns, n.channels = 1) :=
  sums_iff ⟨by decide, by decide, by decide, by decide⟩ (by decide) (by decide) fun n hn ↦ by
    rcases List.mem_cons.mp hn with rfl | hn
    · exact ⟨⟨by decide, by decide, by decide, by decide⟩, rfl, rfl, .inr rfl⟩
    · cases List.mem_singleton.mp hn
      exact ⟨⟨by decide, by decide, by decide, by decide⟩, rfl, rfl, .inl rfl⟩

/-- A mono signal in a premixed signal without channels. -/
theorem not_sums_no_channels :
    ¬ Sums (fun _ _ ↦ 0) ⟨0, 1, .fx8p24bit, []⟩ [⟨1, 1, .fx8p24bit, [7]⟩] := by
  rintro ⟨fuel, out, hout, -⟩
  obtain ⟨q, hq, -⟩ := Option.map_eq_some_iff.mp hout
  obtain ⟨p, p', hp⟩ := exists_of_premixMacro hq List.mem_cons_self
  rw [mixChannels_of_no_channels rfl rfl (by decide)] at hp
  cases hp

end SignalData

end Vuknob
