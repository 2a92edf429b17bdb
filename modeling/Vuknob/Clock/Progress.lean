import Vuknob.Clock.Sequencer

/-!
# Progress of the loops over the ticks

The loops end only if every tick has a length, which no setter makes sure of: `set_bpm` and
`set_lpb` check their own argument, `set_shuffle_factor` checks nothing,
`src_jni/machine.cc:2062–2132`, and the frequency of a dimension is whatever `set_defaults`, or
a `Signal` whose construction fails afterwards, has left there, `src_jni/signal.cc:825–859`.
-/

namespace Vuknob

open Library

namespace Transport

variable {t t' : Transport} {d : Dimension} {fuel : Nat} {x x' : TickState}

/-! ### The length of a tick -/

/-- `samples_per_tick` as a number without bounds. -/
def tickSamples (t : Transport) (d : Dimension) : Int :=
  (t.defaults.frequency d * 60).tdiv (t.bpm * t.lpb * machineTicksPerLine)

/-- The dividend of `samples_per_tick_shuffle`, `src_jni/machine.cc:1789–1791`. -/
def shuffleProduct (t : Transport) (d : Dimension) : Int :=
  t.shuffleFactor * 3 * (t.tickSamples d / 8)

/-- `samples_per_tick_shuffle` as a number without bounds. -/
def tickShuffle (t : Transport) (d : Dimension) : Int :=
  (t.shuffleProduct d).tdiv shuffleFactorDivisor

/-- The settings give every tick of a dimension that has samples a length: its frequency makes
at least one sample a tick, and the shuffle factor neither makes a tick of an odd line shorter
than one of an even line nor takes all of it away. Nothing overflows on the way. -/
structure Paced (t : Transport) : Prop where
  factor : -2 ^ 31 ≤ t.shuffleFactor * 3 ∧ t.shuffleFactor * 3 < 2 ^ 31
  frequency : ∀ d ∈ Dimension.all,
    -2 ^ 31 ≤ t.defaults.frequency d * 60 ∧ t.defaults.frequency d * 60 < 2 ^ 31
  product : ∀ d ∈ Dimension.all, -2 ^ 31 ≤ t.shuffleProduct d ∧ t.shuffleProduct d < 2 ^ 31
  samples : ∀ d ∈ Dimension.all, -2 ^ 31 < t.defaults.samples d
  tick : ∀ d ∈ Dimension.all, 0 < t.defaults.samples d →
    t.bpm * t.lpb * machineTicksPerLine ≤ t.defaults.frequency d * 60
  shuffle : ∀ d ∈ Dimension.all, 0 < t.defaults.samples d →
    -shuffleFactorDivisor < t.shuffleProduct d ∧
      t.shuffleProduct d < shuffleFactorDivisor * t.tickSamples d
  room : ∀ d ∈ Dimension.all, 0 < t.defaults.samples d →
    t.defaults.samples d + (t.tickSamples d + t.tickShuffle d) ≤ 2 ^ 31

/-- The clock is where it can be after a buffer with these settings, or at a start: the next
tick is in the buffer, or no further behind it than a tick is long. The lines that the buffer
can reach can be counted. -/
structure Normal (t : Transport) : Prop where
  nextTickAt : ∀ d ∈ Dimension.all, 0 ≤ t.nextTickAt d
  sounding : ∀ d ∈ Dimension.all, 0 < t.defaults.samples d →
    t.nextTickAt d < t.defaults.samples d ∨
      t.nextTickAt d < t.defaults.samples d + (t.tickSamples d + t.tickShuffle d)
  silent : ∀ d ∈ Dimension.all, t.defaults.samples d ≤ 0 →
    t.nextTickAt d = 0 ∨ t.nextTickAt d - t.defaults.samples d < 2 ^ 31
  tick : 0 ≤ t.currentTick ∧ t.currentTick < 16
  position : -2 ^ 31 ≤ t.nextSequencePosition
  line : 16 * t.nextSequencePosition + t.currentTick +
    (t.defaults.samples .midi - t.nextTickAt .midi) < 2 ^ 35
  loop : t.doLoop = true →
    16 * t.loopStart + (t.defaults.samples .midi - t.nextTickAt .midi) < 2 ^ 35

/-- A buffer is filled in finitely many rounds, by the clock and by every sequencer; ticks have
a length, and the next one is no further away than that. -/
def Progresses (t : Transport) : Prop :=
  ∃ fuel t', t.step (.fillSink fuel) = some (.returned, t') ∧
    (∀ d ∈ Dimension.all, 0 < t.defaults.samples d →
      0 < t'.samplesPerTick d - t'.samplesPerTickShuffle d ∧ 0 ≤ t'.nextTickAt d ∧
        t'.nextTickAt d < t'.samplesPerTick d + t'.samplesPerTickShuffle d) ∧
    ∀ (ι : Type) [DecidableEq ι] (m : MidiSpace ι) (b : ι) (meb : Building)
      (events : Nat → TickEvents) (s : Transport), Building.InOrder m b meb →
      t.calculateSamplesPerTick = some s → (s.fillBuffers events meb fuel).isSome = true

/-- The tempo is one that the setters accept. -/
structure Tempo (t : Transport) : Prop where
  bpm : 20 ≤ t.bpm ∧ t.bpm ≤ 200
  lpb : 2 ≤ t.lpb ∧ t.lpb ≤ 24

private theorem Tempo.beats (ht : t.Tempo) : 0 < t.bpm * t.lpb ∧ t.bpm * t.lpb ≤ 4800 := by
  obtain ⟨hbpm, hlpb⟩ := ht
  exact ⟨Int.mul_pos (by omega) (by omega),
    Int.mul_le_mul (c := 200) (d := 24) hbpm.2 hlpb.2 (by omega) (by decide)⟩

private theorem Tempo.divisor (ht : t.Tempo) :
    0 < t.bpm * t.lpb * machineTicksPerLine ∧ t.bpm * t.lpb * machineTicksPerLine ≤ 76800 := by
  have hbeats := ht.beats
  rw [machineTicksPerLine]
  omega

/-- When the length of a tick can be calculated, and what it is. -/
theorem ticksToSamples_eq_some_iff (ht : t.Tempo) {spt : Int} :
    ticksToSamples (t.defaults.frequency d) t.bpm t.lpb = some spt ↔
      (-2 ^ 31 ≤ t.defaults.frequency d * 60 ∧ t.defaults.frequency d * 60 < 2 ^ 31) ∧
        spt = t.tickSamples d := by
  obtain ⟨hpos, hdivisor⟩ := ht.divisor
  have hbeats := ht.beats
  constructor
  · intro h
    simp only [ticksToSamples, Option.bind_eq_bind, Option.bind_eq_some_iff, int_eq_some_iff] at h
    obtain ⟨dividend, ⟨hfits, rfl⟩, beats, ⟨-, rfl⟩, divisor, ⟨-, rfl⟩, h⟩ := h
    rw [if_neg (by omega), int_eq_some_iff] at h
    exact ⟨hfits, h.2⟩
  · rintro ⟨hfits, rfl⟩
    simp only [ticksToSamples, int_of_fits hfits, @int_of_fits (t.bpm * t.lpb) (by omega),
      @int_of_fits (t.bpm * t.lpb * machineTicksPerLine) (by omega), Option.bind_eq_bind,
      Option.bind_some]
    rw [if_neg (by omega), int_tdiv hfits hpos, tickSamples]

theorem shuffleSamples_eq_some_iff {sptf : Int} :
    shuffleSamples t.shuffleFactor (t.tickSamples d) = some sptf ↔
      (-2 ^ 31 ≤ t.shuffleFactor * 3 ∧ t.shuffleFactor * 3 < 2 ^ 31) ∧
        (-2 ^ 31 ≤ t.shuffleProduct d ∧ t.shuffleProduct d < 2 ^ 31) ∧ sptf = t.tickShuffle d := by
  constructor
  · intro h
    simp only [shuffleSamples, Option.bind_eq_bind, Option.bind_eq_some_iff, int_eq_some_iff] at h
    obtain ⟨factor, ⟨hfactor, rfl⟩, product, ⟨hproduct, rfl⟩, -, h⟩ := h
    exact ⟨hfactor, hproduct, h⟩
  · rintro ⟨hfactor, hproduct, rfl⟩
    rw [shuffleProduct] at hproduct
    simp only [shuffleSamples, int_of_fits hfactor, int_of_fits hproduct, Option.bind_eq_bind,
      Option.bind_some]
    rw [int_tdiv hproduct (by decide), tickShuffle, shuffleProduct]

/-! ### Rounds -/

/-- The ticks of a dimension have a length, and there is room for one behind the buffer. -/
private structure Ticking (t : Transport) (d : Dimension) : Prop where
  even : 0 < t.samplesPerTick d - t.samplesPerTickShuffle d
  shuffle : 0 ≤ t.samplesPerTickShuffle d
  room : t.defaults.samples d + (t.samplesPerTick d + t.samplesPerTickShuffle d) ≤ 2 ^ 31

/-- The clock in a line and a tick of it, with so many samples to go. -/
private structure Countdown (t : Transport) (c p left : Int) : Prop where
  tick : 0 ≤ c ∧ c < 16
  position : -2 ^ 31 ≤ p
  line : 16 * p + c + left < 2 ^ 35
  loop : t.doLoop = true → 16 * t.loopStart + left < 2 ^ 35

private theorem Countdown.mono {c p left left' : Int} (h : Countdown t c p left)
    (hle : left' ≤ left) : Countdown t c p left' := by
  obtain ⟨htick, hposition, hline, hloop⟩ := h
  refine ⟨htick, hposition, by omega, ?_⟩
  intro hdo
  have := hloop hdo
  omega

/-- As long as there are samples to go, the next tick can be counted. -/
private theorem Countdown.synchronize {left : Int} (hstart : 0 ≤ t.loopStart)
    (hx : Countdown t x.currentTick x.nextSequencePosition left) (hleft : 0 < left) :
    ∃ y, t.synchronize x = some y ∧ y.nta = x.nta ∧
      Countdown t y.currentTick y.nextSequencePosition (left - 1) := by
  obtain ⟨htick, hposition, hline, hloop⟩ := hx
  have hint : int (x.currentTick + 1) = some (x.currentTick + 1) := int_of_fits (by omega)
  have hmod : (x.currentTick + 1).tmod machineTicksPerLine = (x.currentTick + 1) % 16 :=
    Int.tmod_eq_emod_of_nonneg (by omega)
  simp only [Transport.synchronize, hint, hmod, Option.bind_eq_bind, Option.bind_some]
  by_cases hwrap : (x.currentTick + 1) % 16 = 0
  · have hnext : int (x.nextSequencePosition + 1) = some (x.nextSequencePosition + 1) :=
      int_of_fits (by omega)
    rw [if_pos hwrap, nextLine, hnext]
    refine ⟨_, rfl, rfl, ?_⟩
    rw [hwrap]
    dsimp only
    split
    · next hback =>
      have := hloop hback.1
      exact ⟨by omega, by omega, by omega, fun _ ↦ by omega⟩
    · refine ⟨by omega, by omega, by omega, fun hdo ↦ ?_⟩
      have := hloop hdo
      omega
  · rw [if_neg hwrap]
    refine ⟨_, rfl, rfl, ?_⟩
    refine ⟨by dsimp only; omega, hposition, by dsimp only; omega, fun hdo ↦ ?_⟩
    have := hloop hdo
    omega

/-- What the loop of a dimension keeps. -/
private structure Advancing (t : Transport) (d : Dimension) (x : TickState) : Prop where
  nta : 0 ≤ x.nta
  next : 0 < t.defaults.samples d → x.nta < t.defaults.samples d ∨
    x.nta < t.defaults.samples d + (t.samplesPerTick d + t.samplesPerTickShuffle d)
  clock : d = .midi →
    Countdown t x.currentTick x.nextSequencePosition (t.defaults.samples d - x.nta)

private theorem Ticking.shuffledTick (h : t.Ticking d) (even : Bool) :
    0 < shuffledTick (t.samplesPerTick d) (t.samplesPerTickShuffle d) even ∧
      Transport.shuffledTick (t.samplesPerTick d) (t.samplesPerTickShuffle d) even ≤
        t.samplesPerTick d + t.samplesPerTickShuffle d := by
  obtain ⟨heven, hshuffle, -⟩ := h
  rw [Transport.shuffledTick]
  split <;> omega

/-- A round of the loop is defined and brings the next tick nearer to the end. -/
private theorem Advancing.tickBody (hstart : 0 ≤ t.loopStart) (hticking : t.Ticking d)
    (hx : Advancing t d x) (hlt : x.nta < t.defaults.samples d) :
    ∃ x', t.tickBody d x = some x' ∧ Advancing t d x' ∧ x.nta < x'.nta := by
  obtain ⟨hnta, -, hclock⟩ := hx
  have hsync : ∃ y, (if d = .midi then t.synchronize x else some x) = some y ∧ y.nta = x.nta ∧
      (d = .midi →
        Countdown t y.currentTick y.nextSequencePosition (t.defaults.samples d - x.nta - 1)) := by
    by_cases hd : d = .midi
    · obtain ⟨y, hy, hynta, hcountable⟩ := (hclock hd).synchronize hstart (by omega)
      exact ⟨y, by rw [if_pos hd, hy], hynta, fun _ ↦ hcountable⟩
    · exact ⟨x, if_neg hd, rfl, fun h ↦ absurd h hd⟩
  obtain ⟨y, hy, hynta, hcountable⟩ := hsync
  obtain ⟨hpos, hle⟩ := hticking.shuffledTick y.evenLine
  have hroom := hticking.room
  have hlength : t.tickLength d y.evenLine =
      some (shuffledTick (t.samplesPerTick d) (t.samplesPerTickShuffle d) y.evenLine) := by
    rw [Transport.shuffledTick] at hpos hle ⊢
    rw [tickLength]
    split
    · next heven =>
      rw [if_pos heven] at hpos hle
      exact int_of_fits (by omega)
    · next heven =>
      rw [if_neg heven] at hpos hle
      exact int_of_fits (by omega)
  refine ⟨{ y with nta := y.nta +
    Transport.shuffledTick (t.samplesPerTick d) (t.samplesPerTickShuffle d) y.evenLine }, ?_,
    ⟨?_, ?_, ?_⟩, ?_⟩
  · simp only [Transport.tickBody, hy, hlength, Option.bind_eq_bind, Option.bind_some]
    rw [int_of_fits (by omega), Option.bind_some]
  · dsimp only
    omega
  · intro _
    right
    dsimp only
    omega
  · intro hd
    refine (hcountable hd).mono ?_
    dsimp only
    omega
  · dsimp only
    omega

/-- With as much fuel as there are samples to go, the loop returns. -/
private theorem Advancing.tickLoop (hstart : 0 ≤ t.loopStart)
    (hticking : 0 < t.defaults.samples d → t.Ticking d) (hx : Advancing t d x)
    (hfuel : t.defaults.samples d - x.nta ≤ fuel) :
    ∃ x', t.tickLoop d fuel x = some x' ∧ Advancing t d x' := by
  induction fuel generalizing x with
  | zero => exact ⟨x, by rw [Transport.tickLoop, if_neg (by omega)], hx⟩
  | succ fuel ih =>
    by_cases hlt : x.nta < t.defaults.samples d
    · have hnta := hx.nta
      obtain ⟨y, hy, hady, hless⟩ := hx.tickBody hstart (hticking (by omega)) hlt
      obtain ⟨x', hx', hadx'⟩ := ih hady (by omega)
      refine ⟨x', ?_, hadx'⟩
      rw [Transport.tickLoop, if_pos hlt, hy]
      exact hx'
    · exact ⟨x, by rw [Transport.tickLoop, if_neg hlt], hx⟩

/-! ### A buffer -/

/-- What the settings have to be for the ticks to have a length. -/
private theorem tickLength_pos_iff (ht : t.Tempo) :
    (0 < t.tickSamples d - t.tickShuffle d ∧ 0 ≤ t.tickShuffle d) ↔
      t.bpm * t.lpb * machineTicksPerLine ≤ t.defaults.frequency d * 60 ∧
        -shuffleFactorDivisor < t.shuffleProduct d ∧
        t.shuffleProduct d < shuffleFactorDivisor * t.tickSamples d := by
  have hdivisor : 0 < shuffleFactorDivisor := by decide
  have htick : t.tickSamples d < 1 ↔
      t.defaults.frequency d * 60 < t.bpm * t.lpb * machineTicksPerLine := by
    have h := tdiv_lt_iff (a := t.defaults.frequency d * 60) ht.divisor.1 Int.one_pos
    rwa [Int.mul_one] at h
  have hnonneg : 0 ≤ t.tickShuffle d ↔ -shuffleFactorDivisor < t.shuffleProduct d :=
    tdiv_nonneg_iff hdivisor
  by_cases hpos : 0 < t.tickSamples d
  · have hlt : t.tickShuffle d < t.tickSamples d ↔
        t.shuffleProduct d < shuffleFactorDivisor * t.tickSamples d := tdiv_lt_iff hdivisor hpos
    omega
  · omega

private theorem rates_of_calculateSamplesPerTick (ht : t.Tempo)
    (h : t.calculateSamplesPerTick = some t') (hd : d ∈ Dimension.all) :
    t'.samplesPerTick d = t.tickSamples d ∧ t'.samplesPerTickShuffle d = t.tickShuffle d ∧
      (-2 ^ 31 ≤ t.shuffleFactor * 3 ∧ t.shuffleFactor * 3 < 2 ^ 31) ∧
      (-2 ^ 31 ≤ t.defaults.frequency d * 60 ∧ t.defaults.frequency d * 60 < 2 ^ 31) ∧
      -2 ^ 31 ≤ t.shuffleProduct d ∧ t.shuffleProduct d < 2 ^ 31 := by
  obtain ⟨hspt, hsptf⟩ := (calculateSamplesPerTick_eq h).2 d hd
  obtain ⟨hfrequency, hspt⟩ := (ticksToSamples_eq_some_iff ht).mp hspt
  rw [hspt] at hsptf
  obtain ⟨hfactor, hproduct, hsptf⟩ := shuffleSamples_eq_some_iff.mp hsptf
  exact ⟨hspt, hsptf, hfactor, hfrequency, hproduct⟩

private theorem Paced.exists_rates (ht : t.Tempo) (hp : t.Paced) :
    ∃ t', t.calculateSamplesPerTick = some t' := by
  apply exists_calculateSamplesPerTick
  intro d hd
  exact ⟨_, _, (ticksToSamples_eq_some_iff ht).mpr ⟨hp.frequency d hd, rfl⟩,
    shuffleSamples_eq_some_iff.mpr ⟨hp.factor, hp.product d hd, rfl⟩⟩

private theorem Paced.ticking (ht : t.Tempo) (hp : t.Paced)
    (hs : t.calculateSamplesPerTick = some t') (hd : d ∈ Dimension.all)
    (hpos : 0 < t.defaults.samples d) : t'.Ticking d := by
  obtain ⟨⟨_, _, hsame⟩, -⟩ := calculateSamplesPerTick_eq hs
  obtain ⟨hspt, hsptf, -⟩ := rates_of_calculateSamplesPerTick ht hs hd
  obtain ⟨heven, hshuffle⟩ :=
    (tickLength_pos_iff ht).mpr ⟨hp.tick d hd hpos, hp.shuffle d hd hpos⟩
  refine ⟨by rwa [hspt, hsptf], by rwa [hsptf], ?_⟩
  rw [hspt, hsptf, hsame]
  exact hp.room d hd hpos

private theorem Normal.advancing (ht : t.Tempo) (hn : t.Normal)
    (hs : t.calculateSamplesPerTick = some t') (hd : d ∈ Dimension.all) :
    Advancing t' d (t'.tickStart d) := by
  obtain ⟨⟨_, _, hsame⟩, -⟩ := calculateSamplesPerTick_eq hs
  obtain ⟨hspt, hsptf, -⟩ := rates_of_calculateSamplesPerTick ht hs hd
  refine ⟨?_, ?_, ?_⟩
  · rw [hsame]
    exact hn.nextTickAt d hd
  · rw [hspt, hsptf, hsame]
    exact hn.sounding d hd
  · rintro rfl
    rw [hsame]
    exact ⟨hn.tick, hn.position, hn.line, hn.loop⟩

/-- Every dimension goes through its loop, and ends within a tick behind the buffer. -/
private theorem Paced.exists_tickLoop (ht : t.Tempo) (hloop : t.LoopSettings) (hp : t.Paced)
    (hn : t.Normal) (hs : t.calculateSamplesPerTick = some t') (hd : d ∈ Dimension.all)
    (hfuel : t.defaults.samples d ≤ fuel) :
    ∃ x, t'.tickLoop d fuel (t'.tickStart d) = some x ∧
      x.nta - t.defaults.samples d < 2 ^ 31 ∧
      (0 < t.defaults.samples d →
        x.nta - t.defaults.samples d < t.tickSamples d + t.tickShuffle d) := by
  have had := hn.advancing ht hs hd
  have hticking := hp.ticking ht hs hd
  have hnta := hn.nextTickAt d hd
  obtain ⟨hspt, hsptf, -⟩ := rates_of_calculateSamplesPerTick ht hs hd
  obtain ⟨⟨_, _, hsame⟩, -⟩ := calculateSamplesPerTick_eq hs
  have hdefaults : t'.defaults = t.defaults := by rw [hsame]
  have hstart : 0 ≤ t'.loopStart := by
    rw [hsame]
    exact hloop.start.1
  have hnta' : (t'.tickStart d).nta = t.nextTickAt d := by
    rw [hsame]
    rfl
  by_cases hpos : 0 < t.defaults.samples d
  · have hleft : t'.defaults.samples d - (t'.tickStart d).nta ≤ fuel := by
      rw [hnta', hdefaults]
      omega
    obtain ⟨x, hx, hadx⟩ := had.tickLoop hstart (fun _ ↦ hticking hpos) hleft
    have hend := samples_le_of_tickLoop hx
    have hnext := hadx.next (by rwa [hdefaults])
    have hroom := (hticking hpos).room
    rw [hspt, hsptf, hdefaults] at hnext hroom
    rw [hdefaults] at hend
    exact ⟨x, hx, by omega, fun _ ↦ by omega⟩
  · refine ⟨_, tickLoop_of_le ?_, ?_, fun h ↦ absurd h hpos⟩
    · rw [hnta', hdefaults]
      omega
    · rw [hnta']
      have hsamples := hp.samples d hd
      rcases hn.silent d hd (by omega) with h0 | hlt <;> omega

private theorem Paced.nextTickAt_lt (ht : t.Tempo) (hp : t.Paced) (hn : t.Normal)
    (hd : d ∈ Dimension.all) : t.nextTickAt d < 2 ^ 31 := by
  by_cases hpos : 0 < t.defaults.samples d
  · obtain ⟨heven, hshuffle⟩ :=
      (tickLength_pos_iff ht).mpr ⟨hp.tick d hd hpos, hp.shuffle d hd hpos⟩
    have hroom := hp.room d hd hpos
    rcases hn.sounding d hd hpos with hlt | hlt <;> omega
  · rcases hn.silent d hd (by omega) with h0 | hlt <;> omega

/-- The number of rounds that is enough in every dimension. -/
private def enoughFuel (t : Transport) : Nat :=
  (t.defaults.samples .zeroD).toNat + (t.defaults.samples .oneD).toNat +
    (t.defaults.samples .twoD).toNat + (t.defaults.samples .midi).toNat

private theorem le_enoughFuel (hd : d ∈ Dimension.all) : t.defaults.samples d ≤ t.enoughFuel := by
  simp only [Dimension.all, List.mem_cons, List.not_mem_nil, or_false] at hd
  rw [enoughFuel]
  rcases hd with rfl | rfl | rfl | rfl <;> omega

/-- With paced settings a buffer progresses from wherever the clock can be. -/
theorem Paced.progresses (ht : t.Tempo) (hloop : t.LoopSettings) (hp : t.Paced) (hn : t.Normal) :
    t.Progresses := by
  obtain ⟨s, hs⟩ := hp.exists_rates ht
  obtain ⟨⟨_, _, hsame⟩, -⟩ := calculateSamplesPerTick_eq hs
  have hdefaults : s.defaults = t.defaults := by rw [hsame]
  have hloops (d : Dimension) (hd : d ∈ Dimension.all) :=
    hp.exists_tickLoop ht hloop hn hs hd (le_enoughFuel hd)
  have hnext : ∃ t', s.calculateNextTickAtAndSequencePosition t.enoughFuel = some t' := by
    apply exists_calculateNextTickAtAndSequencePosition
    intro d hd
    obtain ⟨x, hx, hfits, -⟩ := hloops d hd
    exact ⟨x, hx, by rwa [hdefaults]⟩
  obtain ⟨t', ht'⟩ := hnext
  refine ⟨t.enoughFuel, t', ?_, ?_, ?_⟩
  · simp only [step, hs, ht', Option.bind_eq_bind, Option.bind_some]
  · intro d hd hpos
    obtain ⟨⟨_, _, _, hclock⟩, hends, -⟩ := calculateNextTickAtAndSequencePosition_eq ht'
    obtain ⟨hspt, hsptf, -⟩ := rates_of_calculateSamplesPerTick ht hs hd
    have hspt' : t'.samplesPerTick d = t.tickSamples d := by rw [hclock, ← hspt]
    have hsptf' : t'.samplesPerTickShuffle d = t.tickShuffle d := by rw [hclock, ← hsptf]
    obtain ⟨heven, -⟩ := (tickLength_pos_iff ht).mpr ⟨hp.tick d hd hpos, hp.shuffle d hd hpos⟩
    obtain ⟨x, hx, hnta, -⟩ := hends d hd
    obtain ⟨x', hx', -, hlt⟩ := hloops d hd
    obtain rfl := Option.some.inj (hx.symm.trans hx')
    have hend := samples_le_of_tickLoop hx
    rw [hdefaults] at hnta hend
    rw [hspt', hsptf', hnta]
    exact ⟨heven, by omega, hlt hpos⟩
  · intro ι _ m b meb events s' hmeb hs'
    obtain rfl := Option.some.inj (hs.symm.trans hs')
    obtain ⟨x, hx, hfits, -⟩ := hloops .midi (by decide)
    have hloop' : s.LoopSettings := by
      rw [hsame]
      exact ⟨hloop.start, hloop.stop⟩
    have hnta : -2 ^ 31 ≤ s.nextTickAt .midi ∧ s.nextTickAt .midi < 2 ^ 31 := by
      have hnonneg := hn.nextTickAt .midi (by decide)
      have hlt := hp.nextTickAt_lt ht hn (d := .midi) (by decide)
      rw [hsame]
      exact ⟨by dsimp only; omega, hlt⟩
    obtain ⟨processed, meb', hfill, -⟩ := fillBuffers_spec hloop' hnta hmeb hx events
    rw [hfill]
    rfl

/-! ### Where it fails -/

/-- The clock is elsewhere. -/
def moved (t : Transport) (nextTickAt : Dimension → Int) (currentTick position : Int) : Transport :=
  { t with
    nextTickAt := nextTickAt
    currentTick := currentTick
    nextSequencePosition := position }

/-- The first tick of a line comes with the last sample of every buffer. -/
def atEdge (t : Transport) (position : Int) : Transport :=
  t.moved (fun d ↦ if 0 < t.defaults.samples d then t.defaults.samples d - 1 else 0) 0 position

private theorem normal_atEdge (hloop : t.LoopSettings) {position : Int}
    (hposition : 0 ≤ position ∧ position ≤ 1) : (t.atEdge position).Normal where
  nextTickAt d _ := by
    dsimp only [atEdge, moved]
    split <;> omega
  sounding d _ hpos := by
    have hpos : 0 < t.defaults.samples d := hpos
    left
    dsimp only [atEdge, moved]
    rw [if_pos hpos]
    omega
  silent d _ hneg := by
    have hneg : t.defaults.samples d ≤ 0 := hneg
    left
    exact if_neg (by omega)
  tick := by
    dsimp only [atEdge, moved]
    omega
  position := by
    dsimp only [atEdge, moved]
    omega
  line := by
    dsimp only [atEdge, moved]
    split <;> omega
  loop _ := by
    have := hloop.start.2
    dsimp only [atEdge, moved]
    split <;> omega

private theorem nta_of_tickBody (h : t.tickBody d x = some x') (htick : x.currentTick = 0) :
    x'.nta = x.nta + shuffledTick (t.samplesPerTick d) (t.samplesPerTickShuffle d) x.evenLine := by
  obtain ⟨y, hy, -, rfl⟩ := tickBody_cases h
  split at hy
  · rcases synchronize_cases hy with ⟨-, rfl⟩ | ⟨hzero, -⟩
    · rfl
    · rw [htick] at hzero
      exact absurd hzero (by decide)
  · rw [Option.some.inj hy]

private theorem nta_lt_of_tickBody (h : t.tickBody d x = some x') : x'.nta < 2 ^ 31 := by
  rw [tickBody, Option.bind_eq_some_iff] at h
  obtain ⟨y, -, h⟩ := h
  simp only [Option.bind_eq_bind, Option.bind_eq_some_iff, int_eq_some_iff, Option.some.injEq] at h
  obtain ⟨length, -, nta, ⟨hfits, rfl⟩, rfl⟩ := h
  exact hfits.2

/-- A loop that is one tick away from the end. -/
private theorem nta_of_tickLoop (h : t.tickLoop d fuel x = some x') (htick : x.currentTick = 0)
    (hlt : x.nta < t.defaults.samples d)
    (hend : t.defaults.samples d ≤
      x.nta + shuffledTick (t.samplesPerTick d) (t.samplesPerTickShuffle d) x.evenLine) :
    x'.nta = x.nta + shuffledTick (t.samplesPerTick d) (t.samplesPerTickShuffle d) x.evenLine ∧
      x'.nta < 2 ^ 31 := by
  cases fuel with
  | zero =>
    rw [tickLoop, if_pos hlt] at h
    cases h
  | succ fuel =>
    rw [tickLoop, if_pos hlt] at h
    obtain ⟨y, hy, h⟩ := Option.bind_eq_some_iff.mp h
    have hnta := nta_of_tickBody hy htick
    rw [tickLoop_of_le (by rw [hnta]; exact hend)] at h
    obtain rfl := Option.some.inj h
    exact ⟨hnta, nta_lt_of_tickBody hy⟩

/-- What a buffer tells that begins one sample before its end. -/
private theorem Progresses.atEdge {position : Int} (ht : t.Tempo)
    (h : (t.atEdge position).Progresses) (hd : d ∈ Dimension.all) :
    ((-2 ^ 31 ≤ t.shuffleFactor * 3 ∧ t.shuffleFactor * 3 < 2 ^ 31) ∧
      (-2 ^ 31 ≤ t.defaults.frequency d * 60 ∧ t.defaults.frequency d * 60 < 2 ^ 31) ∧
      -2 ^ 31 ≤ t.shuffleProduct d ∧ t.shuffleProduct d < 2 ^ 31) ∧
    -2 ^ 31 < t.defaults.samples d ∧
    (0 < t.defaults.samples d → 0 < t.tickSamples d - t.tickShuffle d ∧
      ∀ length, length = shuffledTick (t.tickSamples d) (t.tickShuffle d) (evenLine position) →
        0 < length → length ≤ t.tickSamples d + t.tickShuffle d ∧
          t.defaults.samples d + length ≤ 2 ^ 31) := by
  obtain ⟨fuel, t', hstep, hbounds, -⟩ := h
  obtain ⟨s, hs, ht'⟩ := fillSink_cases hstep
  obtain ⟨hspt, hsptf, hfits⟩ :=
    rates_of_calculateSamplesPerTick (t := t.atEdge position) ⟨ht.bpm, ht.lpb⟩ hs hd
  obtain ⟨⟨_, _, hsame⟩, -⟩ := calculateSamplesPerTick_eq hs
  obtain ⟨⟨_, _, _, hclock⟩, hends, -⟩ := calculateNextTickAtAndSequencePosition_eq ht'
  obtain ⟨x, hx, hnta, hlt⟩ := hends d hd
  have hdefaults : s.defaults = t.defaults := by rw [hsame]; rfl
  have hspt : s.samplesPerTick d = t.tickSamples d := hspt
  have hsptf : s.samplesPerTickShuffle d = t.tickShuffle d := hsptf
  have hspt' : t'.samplesPerTick d = t.tickSamples d := by rw [hclock, ← hspt]
  have hsptf' : t'.samplesPerTickShuffle d = t.tickShuffle d := by rw [hclock, ← hsptf]
  have hstart : (s.tickStart d).nta =
      if 0 < t.defaults.samples d then t.defaults.samples d - 1 else 0 := by rw [hsame]; rfl
  have htick : (s.tickStart d).currentTick = 0 := by rw [hsame]; rfl
  have heven : (s.tickStart d).evenLine = evenLine position := by rw [hsame]; rfl
  refine ⟨hfits, ?_, ?_⟩
  · by_cases hpos : 0 < t.defaults.samples d
    · omega
    · rw [if_neg hpos] at hstart
      rw [tickLoop_of_le (by rw [hstart, hdefaults]; omega)] at hx
      obtain rfl := Option.some.inj hx
      rw [hdefaults] at hnta
      omega
  · intro hpos
    obtain ⟨hlong, -, hnext⟩ := hbounds d hd hpos
    rw [hspt', hsptf'] at hlong hnext
    rw [if_pos hpos] at hstart
    refine ⟨hlong, ?_⟩
    rintro length rfl hlength
    have hend := nta_of_tickLoop hx htick (by rw [hstart, hdefaults]; omega)
      (by rw [hstart, hdefaults, heven, hspt, hsptf]; omega)
    rw [hstart, heven, hspt, hsptf] at hend
    rw [hdefaults] at hnta
    omega

/-- A next tick that is further away than a tick is long stays so. -/
theorem Progresses.sounding (ht : t.Tempo) (h : t.Progresses) (hd : d ∈ Dimension.all)
    (hpos : 0 < t.defaults.samples d) :
    t.nextTickAt d < t.defaults.samples d ∨
      t.nextTickAt d < t.defaults.samples d + (t.tickSamples d + t.tickShuffle d) := by
  by_contra hfar
  obtain ⟨fuel, t', hstep, hbounds, -⟩ := h
  obtain ⟨s, hs, ht'⟩ := fillSink_cases hstep
  obtain ⟨hspt, hsptf, -⟩ := rates_of_calculateSamplesPerTick ht hs hd
  obtain ⟨⟨_, _, hsame⟩, -⟩ := calculateSamplesPerTick_eq hs
  obtain ⟨⟨_, _, _, hclock⟩, hends, -⟩ := calculateNextTickAtAndSequencePosition_eq ht'
  obtain ⟨x, hx, hnta, -⟩ := hends d hd
  have hdefaults : s.defaults = t.defaults := by rw [hsame]
  have hstart : (s.tickStart d).nta = t.nextTickAt d := by rw [hsame]; rfl
  rw [tickLoop_of_le (by rw [hstart, hdefaults]; omega)] at hx
  obtain rfl := Option.some.inj hx
  have hnext := (hbounds d hd hpos).2.2
  have hspt' : t'.samplesPerTick d = t.tickSamples d := by rw [hclock, ← hspt]
  have hsptf' : t'.samplesPerTickShuffle d = t.tickShuffle d := by rw [hclock, ← hsptf]
  rw [hnta, hstart, hdefaults, hspt', hsptf'] at hnext
  omega

/-- Settings with which a buffer progresses from an even and an odd line are paced. -/
theorem paced_of_progresses (ht : t.Tempo) (heven : (t.atEdge 0).Progresses)
    (hodd : (t.atEdge 1).Progresses) : t.Paced := by
  have hshuffle (d : Dimension) (hd : d ∈ Dimension.all) (hpos : 0 < t.defaults.samples d) :
      0 < t.tickSamples d - t.tickShuffle d ∧ 0 ≤ t.tickShuffle d := by
    obtain ⟨hlong, hlength⟩ := (heven.atEdge ht hd).2.2 hpos
    have hle := (hlength (t.tickSamples d - t.tickShuffle d) rfl hlong).1
    omega
  have hedge (d : Dimension) (hd : d ∈ Dimension.all) := heven.atEdge ht hd
  refine
    { factor := (hedge .midi (by decide)).1.1
      frequency := fun d hd ↦ (hedge d hd).1.2.1
      product := fun d hd ↦ (hedge d hd).1.2.2
      samples := fun d hd ↦ (hedge d hd).2.1
      tick := fun d hd hpos ↦ ((tickLength_pos_iff ht).mp (hshuffle d hd hpos)).1
      shuffle := fun d hd hpos ↦ ((tickLength_pos_iff ht).mp (hshuffle d hd hpos)).2
      room := ?_ }
  intro d hd hpos
  have hlength := ((hodd.atEdge ht hd).2.2 hpos).2
  have hpositive := hshuffle d hd hpos
  exact (hlength (t.tickSamples d + t.tickShuffle d) rfl (by omega)).2

/-- In every state that is reached from the start of the program the settings are paced exactly
if a buffer progresses from wherever the clock can be; from where the next tick is further away
than that, it does not. -/
theorem progress_iff {calls : List TransportCall} {t : Transport}
    (hrun : Run Transport.step (fun _ _ _ ↦ True) initial calls t) :
    (t.Paced ↔ ∀ (nextTickAt : Dimension → Int) (currentTick position : Int),
      (t.moved nextTickAt currentTick position).Normal →
        (t.moved nextTickAt currentTick position).Progresses) ∧
    (t.Progresses → ∀ d ∈ Dimension.all, 0 < t.defaults.samples d →
      t.nextTickAt d < t.defaults.samples d ∨
        t.nextTickAt d < t.defaults.samples d + (t.tickSamples d + t.tickShuffle d)) := by
  have hranges : t.Ranges :=
    hrun.invariant Ranges (fun _ _ _ _ hs _ h ↦ hs.step h) ranges_initial
  have ht : t.Tempo := ⟨hranges.bpm, hranges.lpb⟩
  refine ⟨⟨?_, ?_⟩, fun h d hd hpos ↦ h.sounding ht hd hpos⟩
  · intro hp nextTickAt currentTick position hn
    refine Paced.progresses ⟨ht.bpm, ht.lpb⟩ ⟨hranges.loop.start, hranges.loop.stop⟩ ?_ hn
    exact ⟨hp.factor, hp.frequency, hp.product, hp.samples, hp.tick, hp.shuffle, hp.room⟩
  · intro h
    exact paced_of_progresses ht (h _ _ _ (normal_atEdge hranges.loop (by decide)))
      (h _ _ _ (normal_atEdge hranges.loop (by decide)))

/-- The start of the program with a signal in both dimensions and some shuffle. -/
def swinging : Transport where
  __ := initial
  shuffleFactor := 50
  defaults := (initial.defaults.internalSetDefaults .zeroD 1024 44100).internalSetDefaults
    .midi 1024 44100

theorem progress_iff_swinging :
    ∃ calls, Run Transport.step (fun _ _ _ ↦ True) initial calls swinging ∧ swinging.Paced ∧
      (swinging.moved (fun _ ↦ 0) 0 0).Progresses := by
  have hrun : Run Transport.step (fun _ _ _ ↦ True) initial
      [.createSignal .zeroD, .createSignal .midi, .setShuffleFactor 50] swinging :=
    .cons rfl trivial (.cons rfl trivial (.cons rfl trivial (.nil _)))
  have hpaced : swinging.Paced :=
    { factor := by decide +kernel
      frequency := by decide +kernel
      product := by decide +kernel
      samples := by decide +kernel
      tick := by decide +kernel
      shuffle := by decide +kernel
      room := by decide +kernel }
  have hnormal : (swinging.moved (fun _ ↦ 0) 0 0).Normal :=
    { nextTickAt := by decide +kernel
      sounding := by decide +kernel
      silent := by decide +kernel
      tick := by decide +kernel
      position := by decide +kernel
      line := by decide +kernel
      loop := by decide +kernel }
  exact ⟨_, hrun, hpaced, (progress_iff hrun).1.mp hpaced _ 0 0 hnormal⟩

/-- The start of the program after a `Signal` for sound, and one for pictures whose construction
fails. -/
def afterFailure : Transport where
  __ := initial
  defaults := (initial.defaults.internalSetDefaults .zeroD 1024 44100).internalSetDefaults
    .twoD 12 24

private theorem tempo_afterFailure : afterFailure.Tempo := ⟨by decide, by decide⟩

/-- The signal that could not be created leaves 24 Hz behind, less than a sample for each tick,
and the loop of its dimension never ends. -/
theorem progress_lost :
    ∃ t r, initial.step (.createSignal .zeroD) = some (r, t) ∧
      t.step (.createSignal .twoD) = some (.unsupportedDimension, afterFailure) ∧
      afterFailure.Normal ∧ (∀ fuel, afterFailure.step (.fillSink fuel) = none) ∧
      ¬ afterFailure.Progresses := by
  have hstuck (fuel : Nat) : afterFailure.step (.fillSink fuel) = none := by
    by_contra hne
    obtain ⟨⟨r, t'⟩, hstep⟩ := Option.ne_none_iff_exists'.mp hne
    obtain ⟨s, hs, ht'⟩ := fillSink_cases hstep
    obtain ⟨hspt, hsptf, -⟩ :=
      rates_of_calculateSamplesPerTick tempo_afterFailure hs (d := .twoD) (by decide)
    have hzero : afterFailure.tickSamples .twoD = 0 ∧ afterFailure.tickShuffle .twoD = 0 := by
      decide +kernel
    rw [hzero.1] at hspt
    rw [hzero.2] at hsptf
    obtain ⟨-, hends, -⟩ := calculateNextTickAtAndSequencePosition_eq ht'
    obtain ⟨x, hx, -⟩ := hends .twoD (by decide)
    obtain ⟨⟨_, _, hsame⟩, -⟩ := calculateSamplesPerTick_eq hs
    have hend := samples_le_of_tickLoop hx
    have hnta : x.nta = 0 := by
      refine tickLoop_invariant (P := fun x ↦ x.nta = 0) ?_ hx (by rw [hsame]; rfl)
      intro y y' hy hbody
      obtain ⟨z, -, -, rfl⟩ := tickBody_cases hbody
      rw [hspt, hsptf, hy, shuffledTick]
      split <;> rfl
    have hdefaults : s.defaults = afterFailure.defaults := by rw [hsame]
    rw [hnta, hdefaults] at hend
    exact absurd hend (by decide)
  refine ⟨_, _, rfl, rfl, ?_, hstuck, ?_⟩
  · exact
      { nextTickAt := by decide +kernel
        sounding := by decide +kernel
        silent := by decide +kernel
        tick := by decide +kernel
        position := by decide +kernel
        line := by decide +kernel
        loop := by decide +kernel }
  · rintro ⟨fuel, t', hstep, -⟩
    rw [hstuck fuel] at hstep
    cases hstep

end Transport

end Vuknob
