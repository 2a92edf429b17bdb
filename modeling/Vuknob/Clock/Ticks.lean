import Vuknob.Clock.Transport

/-!
# The loops over the ticks of a buffer

What `calculate_samples_per_tick` and `calculate_next_tick_at_and_sequence_position` leave
alone, and rules for the loop over the ticks.
-/

namespace Vuknob

namespace Transport

variable {t t' : Transport} {d : Dimension} {fuel : Nat} {x x' : TickState}

/-- The two transports differ in the position of the clock only. -/
def SameSettings (t t' : Transport) : Prop :=
  ∃ nextTickAt currentTick nextSequencePosition samplesPerTick samplesPerTickShuffle,
    t' = { t with
      nextTickAt := nextTickAt
      currentTick := currentTick
      nextSequencePosition := nextSequencePosition
      samplesPerTick := samplesPerTick
      samplesPerTickShuffle := samplesPerTickShuffle }

theorem calculateSamplesPerTickOf_eq (h : calculateSamplesPerTickOf t d = some t') :
    ∃ spt sptf, ticksToSamples (t.defaults.frequency d) t.bpm t.lpb = some spt ∧
      shuffleSamples t.shuffleFactor spt = some sptf ∧
      t' = { t with
        samplesPerTick := Function.update t.samplesPerTick d spt
        samplesPerTickShuffle := Function.update t.samplesPerTickShuffle d sptf } := by
  simp only [calculateSamplesPerTickOf, Option.bind_eq_bind, Option.bind_eq_some_iff,
    Option.some.injEq] at h
  obtain ⟨spt, hspt, sptf, hsptf, rfl⟩ := h
  exact ⟨spt, sptf, hspt, hsptf, rfl⟩

theorem advanceDimension_eq (h : advanceDimension fuel t d = some t') :
    ∃ x, t.tickLoop d fuel (t.tickStart d) = some x ∧
      (-2 ^ 31 ≤ x.nta - t.defaults.samples d ∧ x.nta - t.defaults.samples d < 2 ^ 31) ∧
      t' = { t with
        nextTickAt := Function.update t.nextTickAt d (x.nta - t.defaults.samples d)
        currentTick := x.currentTick
        nextSequencePosition := x.nextSequencePosition } := by
  simp only [advanceDimension, Option.bind_eq_bind, Option.bind_eq_some_iff, int_eq_some_iff,
    Option.some.injEq] at h
  obtain ⟨x, hx, nta, ⟨hfits, rfl⟩, rfl⟩ := h
  exact ⟨x, hx, hfits, rfl⟩

/-! ### The loop -/

/-- What every round of the loop keeps holds when it returns. -/
theorem tickLoop_invariant {P : TickState → Prop}
    (hbody : ∀ x x', P x → t.tickBody d x = some x' → P x')
    (h : t.tickLoop d fuel x = some x') (hx : P x) : P x' := by
  induction fuel generalizing x with
  | zero =>
    rw [tickLoop] at h
    split at h
    · cases h
    · exact Option.some.inj h ▸ hx
  | succ fuel ih =>
    rw [tickLoop] at h
    split at h
    · obtain ⟨y, hy, hrest⟩ := Option.bind_eq_some_iff.mp h
      exact ih hrest (hbody x y hx hy)
    · exact Option.some.inj h ▸ hx

/-- The loop ends behind the buffer. -/
theorem samples_le_of_tickLoop (h : t.tickLoop d fuel x = some x') :
    t.defaults.samples d ≤ x'.nta := by
  induction fuel generalizing x with
  | zero =>
    rw [tickLoop] at h
    split at h
    · cases h
    · next hend =>
      obtain rfl := Option.some.inj h
      exact Int.not_lt.mp hend
  | succ fuel ih =>
    rw [tickLoop] at h
    split at h
    · obtain ⟨y, -, hrest⟩ := Option.bind_eq_some_iff.mp h
      exact ih hrest
    · next hend =>
      obtain rfl := Option.some.inj h
      exact Int.not_lt.mp hend

/-- A tick behind the buffer is not for this loop. -/
theorem tickLoop_of_le (h : t.defaults.samples d ≤ x.nta) : t.tickLoop d fuel x = some x := by
  cases fuel with
  | zero => rw [tickLoop, if_neg (Int.not_lt.mpr h)]
  | succ fuel => rw [tickLoop, if_neg (Int.not_lt.mpr h)]

/-- The next line of a looping transport is in the region if the line before is. -/
theorem nextLine_mem {p p' : Int} (h : t.nextLine p = some p') (hloop : t.doLoop = true)
    (hne : t.loopStart < t.loopStop) (hp : t.loopStart ≤ p ∧ p < t.loopStop) :
    t.loopStart ≤ p' ∧ p' < t.loopStop := by
  simp only [nextLine, Option.bind_eq_bind, Option.bind_eq_some_iff, int_eq_some_iff,
    Option.some.injEq] at h
  obtain ⟨q, ⟨-, rfl⟩, rfl⟩ := h
  split
  · omega
  · next hq =>
    simp only [hloop, true_and] at hq
    omega

/-- The length of a tick in a line of this parity. -/
def shuffledTick (spt sptf : Int) (evenLine : Bool) : Int :=
  if evenLine then spt - sptf else spt + sptf

/-- The `_MIDI` part of the body goes to the next tick of the line, or to the next line. -/
theorem synchronize_cases (h : t.synchronize x = some x') :
    ((x.currentTick + 1).tmod 16 ≠ 0 ∧
        x' = { x with
          currentTick := (x.currentTick + 1).tmod 16
          stepped := x.stepped ++ [(x.nextSequencePosition, x.currentTick)] }) ∨
      ((x.currentTick + 1).tmod 16 = 0 ∧
        ∃ p, t.nextLine x.nextSequencePosition = some p ∧
          x' = ⟨x.nta, 0, p, evenLine p,
            x.stepped ++ [(x.nextSequencePosition, x.currentTick)]⟩) := by
  simp only [synchronize, Option.bind_eq_bind, Option.bind_eq_some_iff, int_eq_some_iff] at h
  obtain ⟨tick, ⟨-, rfl⟩, h⟩ := h
  by_cases htick : (x.currentTick + 1).tmod machineTicksPerLine = 0
  · rw [if_pos htick] at h
    obtain ⟨p, hp, h⟩ := Option.bind_eq_some_iff.mp h
    obtain rfl := Option.some.inj h
    exact .inr ⟨htick, p, hp, by rw [htick]⟩
  · rw [if_neg htick] at h
    obtain rfl := Option.some.inj h
    exact .inl ⟨htick, rfl⟩

/-- A round of the loop: the clock is brought up to date where it is to be, and the tick is
as long as the line says. -/
theorem tickBody_cases (h : t.tickBody d x = some x') :
    ∃ y, (if d = .midi then t.synchronize x else some x) = some y ∧ y.nta = x.nta ∧
      x' = { y with
        nta := x.nta + shuffledTick (t.samplesPerTick d) (t.samplesPerTickShuffle d) y.evenLine } := by
  rw [tickBody, Option.bind_eq_some_iff] at h
  obtain ⟨y, hy, h⟩ := h
  have hnta : y.nta = x.nta := by
    split at hy
    · rcases synchronize_cases hy with ⟨-, rfl⟩ | ⟨-, p, -, rfl⟩
      · rfl
      · rfl
    · rw [Option.some.inj hy]
  simp only [tickLength, Option.bind_eq_bind, Option.bind_eq_some_iff, int_eq_some_iff,
    Option.some.injEq] at h
  obtain ⟨length, hlength, nta, ⟨-, rfl⟩, rfl⟩ := h
  refine ⟨y, hy, hnta, ?_⟩
  rw [hnta, shuffledTick]
  split at hlength
  · next he =>
    rw [if_pos he, (int_eq_some_iff.mp hlength).2]
  · next he =>
    rw [if_neg he, (int_eq_some_iff.mp hlength).2]

/-- A round of the loop stays in the line or goes to the next one. -/
theorem tickBody_position (h : t.tickBody d x = some x') :
    x'.nextSequencePosition = x.nextSequencePosition ∨
      t.nextLine x.nextSequencePosition = some x'.nextSequencePosition := by
  obtain ⟨y, hy, -, rfl⟩ := tickBody_cases h
  split at hy
  · rcases synchronize_cases hy with ⟨-, rfl⟩ | ⟨-, p, hp, rfl⟩
    · exact .inl rfl
    · exact .inr hp
  · obtain rfl := Option.some.inj hy
    exact .inl rfl

/-- The loop reads the settings and not the clock. -/
theorem tickLoop_with (n : Dimension → Int) (c p : Int) :
    tickLoop { t with nextTickAt := n, currentTick := c, nextSequencePosition := p } d fuel x =
      t.tickLoop d fuel x := by
  induction fuel generalizing x with
  | zero => rfl
  | succ fuel ih =>
    rw [tickLoop, tickLoop]
    split
    · exact congrArg _ (funext fun y ↦ ih)
    · rfl

/-- In the dimensions other than `_MIDI` the clock stands still. -/
theorem tickLoop_clock (hd : d ≠ .midi) (h : t.tickLoop d fuel x = some x') :
    x'.currentTick = x.currentTick ∧ x'.nextSequencePosition = x.nextSequencePosition ∧
      x'.evenLine = x.evenLine := by
  refine tickLoop_invariant (P := fun y ↦ y.currentTick = x.currentTick ∧
    y.nextSequencePosition = x.nextSequencePosition ∧ y.evenLine = x.evenLine) ?_ h
    ⟨rfl, rfl, rfl⟩
  intro y y' hy hbody
  simp only [tickBody, hd, if_false, Option.bind_some, Option.bind_eq_bind,
    Option.bind_eq_some_iff, Option.some.injEq] at hbody
  obtain ⟨length, -, nta, -, rfl⟩ := hbody
  exact hy

private theorem advanceDimension_of_ne (hd : d ≠ .midi) (h : advanceDimension fuel t d = some t') :
    ∃ x, t.tickLoop d fuel (t.tickStart d) = some x ∧
      x.nta - t.defaults.samples d < 2 ^ 31 ∧
      t' = { t with
        nextTickAt := Function.update t.nextTickAt d (x.nta - t.defaults.samples d) } := by
  obtain ⟨x, hx, hfits, rfl⟩ := advanceDimension_eq h
  obtain ⟨htick, hline, -⟩ := tickLoop_clock hd hx
  exact ⟨x, hx, hfits.2, by rw [htick, hline]; rfl⟩

/-- Every dimension goes through its loop from the clock as it was; the `_MIDI` dimension
leaves its clock behind. -/
theorem calculateNextTickAtAndSequencePosition_eq
    (h : t.calculateNextTickAtAndSequencePosition fuel = some t') :
    (∃ n c p, t' = { t with nextTickAt := n, currentTick := c, nextSequencePosition := p }) ∧
      (∀ d ∈ Dimension.all, ∃ x, t.tickLoop d fuel (t.tickStart d) = some x ∧
        t'.nextTickAt d = x.nta - t.defaults.samples d ∧ t'.nextTickAt d < 2 ^ 31) ∧
      ∃ x, t.tickLoop .midi fuel (t.tickStart .midi) = some x ∧
        t'.currentTick = x.currentTick ∧ t'.nextSequencePosition = x.nextSequencePosition := by
  simp only [calculateNextTickAtAndSequencePosition, Dimension.all, List.foldlM_cons,
    List.foldlM_nil, Option.bind_eq_bind, Option.bind_eq_some_iff, Option.pure_def,
    Option.some.injEq] at h
  obtain ⟨t0, h0, t1, h1, t2, h2, t3, h3, rfl⟩ := h
  obtain ⟨x0, hx0, hfits0, rfl⟩ := advanceDimension_of_ne (by decide) h0
  obtain ⟨x1, hx1, hfits1, rfl⟩ := advanceDimension_of_ne (by decide) h1
  obtain ⟨x2, hx2, hfits2, rfl⟩ := advanceDimension_of_ne (by decide) h2
  obtain ⟨x3, hx3, hfits3, rfl⟩ := advanceDimension_eq h3
  have hx1 : t.tickLoop .oneD fuel (t.tickStart .oneD) = some x1 := by
    simpa [tickLoop_with _ t.currentTick t.nextSequencePosition, tickStart] using hx1
  have hx2 : t.tickLoop .twoD fuel (t.tickStart .twoD) = some x2 := by
    simpa [tickLoop_with _ t.currentTick t.nextSequencePosition, tickStart] using hx2
  have hx3 : t.tickLoop .midi fuel (t.tickStart .midi) = some x3 := by
    simpa [tickLoop_with _ t.currentTick t.nextSequencePosition, tickStart] using hx3
  refine ⟨⟨_, _, _, rfl⟩, ?_, x3, hx3, rfl, rfl⟩
  intro d hd
  simp only [Dimension.all, List.mem_cons, List.not_mem_nil, or_false] at hd
  rcases hd with rfl | rfl | rfl | rfl
  · exact ⟨x0, hx0, by simp, by simpa using hfits0⟩
  · exact ⟨x1, hx1, by simp, by simpa using hfits1⟩
  · exact ⟨x2, hx2, by simp, by simpa using hfits2⟩
  · exact ⟨x3, hx3, by simp, by simpa using hfits3.2⟩

/-- The lengths of the ticks are those of the settings. -/
theorem calculateSamplesPerTick_eq (h : t.calculateSamplesPerTick = some t') :
    (∃ spt sptf, t' = { t with samplesPerTick := spt, samplesPerTickShuffle := sptf }) ∧
      ∀ d ∈ Dimension.all,
        ticksToSamples (t.defaults.frequency d) t.bpm t.lpb = some (t'.samplesPerTick d) ∧
        shuffleSamples t.shuffleFactor (t'.samplesPerTick d) =
          some (t'.samplesPerTickShuffle d) := by
  simp only [calculateSamplesPerTick, Dimension.all, List.foldlM_cons, List.foldlM_nil,
    Option.bind_eq_bind, Option.bind_eq_some_iff, Option.pure_def, Option.some.injEq] at h
  obtain ⟨t0, h0, t1, h1, t2, h2, t3, h3, rfl⟩ := h
  obtain ⟨a0, b0, ha0, hb0, rfl⟩ := calculateSamplesPerTickOf_eq h0
  obtain ⟨a1, b1, ha1, hb1, rfl⟩ := calculateSamplesPerTickOf_eq h1
  obtain ⟨a2, b2, ha2, hb2, rfl⟩ := calculateSamplesPerTickOf_eq h2
  obtain ⟨a3, b3, ha3, hb3, rfl⟩ := calculateSamplesPerTickOf_eq h3
  refine ⟨⟨_, _, rfl⟩, ?_⟩
  intro d hd
  simp only [Dimension.all, List.mem_cons, List.not_mem_nil, or_false] at hd
  rcases hd with rfl | rfl | rfl | rfl
  · exact ⟨by simpa using ha0, by simpa using hb0⟩
  · exact ⟨by simpa using ha1, by simpa using hb1⟩
  · exact ⟨by simpa using ha2, by simpa using hb2⟩
  · exact ⟨by simpa using ha3, by simpa using hb3⟩

/-- The lengths of the ticks can be calculated if those of every dimension can. -/
theorem exists_calculateSamplesPerTick
    (h : ∀ d ∈ Dimension.all, ∃ spt sptf,
      ticksToSamples (t.defaults.frequency d) t.bpm t.lpb = some spt ∧
        shuffleSamples t.shuffleFactor spt = some sptf) :
    ∃ t', t.calculateSamplesPerTick = some t' := by
  rw [calculateSamplesPerTick]
  generalize Dimension.all = ds at h
  induction ds generalizing t with
  | nil => exact ⟨t, rfl⟩
  | cons d ds ih =>
    obtain ⟨spt, sptf, hspt, hsptf⟩ := h d List.mem_cons_self
    have hd : calculateSamplesPerTickOf t d = some { t with
        samplesPerTick := Function.update t.samplesPerTick d spt
        samplesPerTickShuffle := Function.update t.samplesPerTickShuffle d sptf } := by
      simp only [calculateSamplesPerTickOf, hspt, hsptf, Option.bind_eq_bind, Option.bind_some]
    rw [List.foldlM_cons, hd]
    exact ih fun d' hd' ↦ h d' (List.mem_cons_of_mem d hd')

private theorem advanceDimension_of_tickLoop (hx : t.tickLoop d fuel (t.tickStart d) = some x)
    (hfits : x.nta - t.defaults.samples d < 2 ^ 31) :
    advanceDimension fuel t d = some { t with
      nextTickAt := Function.update t.nextTickAt d (x.nta - t.defaults.samples d)
      currentTick := x.currentTick
      nextSequencePosition := x.nextSequencePosition } := by
  have hend := samples_le_of_tickLoop hx
  simp only [advanceDimension, hx, @int_of_fits (x.nta - t.defaults.samples d) (by omega),
    Option.bind_eq_bind, Option.bind_some]

/-- The buffer can be filled if every dimension can go through its loop. -/
theorem exists_calculateNextTickAtAndSequencePosition
    (h : ∀ d ∈ Dimension.all, ∃ x, t.tickLoop d fuel (t.tickStart d) = some x ∧
      x.nta - t.defaults.samples d < 2 ^ 31) :
    ∃ t', t.calculateNextTickAtAndSequencePosition fuel = some t' := by
  rw [calculateNextTickAtAndSequencePosition]
  -- The clock is the same at every dimension, whatever the ones before have done.
  suffices hsuff : ∀ (ds : List Dimension) (n : Dimension → Int) (c p : Int),
      (∀ d ∈ ds, ∃ x, t.tickLoop d fuel (tickStart { t with
        nextTickAt := n, currentTick := c, nextSequencePosition := p } d) = some x ∧
        x.nta - t.defaults.samples d < 2 ^ 31) → ds.Pairwise (fun d d' ↦ d ≠ d' ∧ d ≠ .midi) →
      ∃ t', ds.foldlM (advanceDimension fuel) { t with
        nextTickAt := n, currentTick := c, nextSequencePosition := p } = some t' from
    hsuff Dimension.all t.nextTickAt t.currentTick t.nextSequencePosition h (by decide)
  intro ds
  induction ds with
  | nil => exact fun n c p _ _ ↦ ⟨_, rfl⟩
  | cons d ds ih =>
    intro n c p hloops hpair
    obtain ⟨x, hx, hfits⟩ := hloops d List.mem_cons_self
    rw [← tickLoop_with n c p] at hx
    rw [List.foldlM_cons, advanceDimension_of_tickLoop hx hfits]
    rw [List.pairwise_cons] at hpair
    refine ih _ _ _ ?_ hpair.2
    intro d' hd'
    obtain ⟨hne, hmidi⟩ := hpair.1 d' hd'
    obtain ⟨htick, hline, -⟩ := tickLoop_clock hmidi hx
    have hsame : Function.update n d (x.nta - t.defaults.samples d) d' = n d' :=
      Function.update_of_ne (Ne.symm hne) _ _
    obtain ⟨x', hx'⟩ := hloops d' (List.mem_cons_of_mem d hd')
    refine ⟨x', ?_⟩
    simpa only [tickStart, htick, hline, hsame] using hx'

/-- A buffer is the lengths of the ticks, and then the loops. -/
theorem fillSink_cases {r : TransportResult} (h : t.step (.fillSink fuel) = some (r, t')) :
    ∃ s, t.calculateSamplesPerTick = some s ∧
      s.calculateNextTickAtAndSequencePosition fuel = some t' := by
  simp only [step, Option.bind_eq_bind, Option.bind_eq_some_iff, Option.some.injEq,
    Prod.mk.injEq] at h
  obtain ⟨s, hs, u, hu, -, rfl⟩ := h
  exact ⟨s, hs, hu⟩

/-- A buffer changes no setting. -/
theorem sameSettings_of_fillSink {r : TransportResult}
    (h : t.step (.fillSink fuel) = some (r, t')) : SameSettings t t' := by
  obtain ⟨s, hs, ht'⟩ := fillSink_cases h
  obtain ⟨⟨spt, sptf, rfl⟩, -⟩ := calculateSamplesPerTick_eq hs
  obtain ⟨⟨_, _, _, rfl⟩, -⟩ := calculateNextTickAtAndSequencePosition_eq ht'
  exact ⟨_, _, _, _, _, rfl⟩

/-- The tick after one of a line is one of a line. -/
theorem tickLoop_tick (h : t.tickLoop d fuel x = some x')
    (hx : 0 ≤ x.currentTick ∧ x.currentTick < 16) : 0 ≤ x'.currentTick ∧ x'.currentTick < 16 := by
  refine tickLoop_invariant (P := fun x ↦ 0 ≤ x.currentTick ∧ x.currentTick < 16) ?_ h hx
  intro y y' hy hbody
  obtain ⟨z, hz, -, rfl⟩ := tickBody_cases hbody
  have hmod : (y.currentTick + 1).tmod 16 = (y.currentTick + 1) % 16 :=
    Int.tmod_eq_emod_of_nonneg (by omega)
  split at hz
  · rcases synchronize_cases hz with ⟨-, rfl⟩ | ⟨-, p, -, rfl⟩
    · simp only [hmod]
      omega
    · simp
  · obtain rfl := Option.some.inj hz
    exact hy

end Transport

end Vuknob
