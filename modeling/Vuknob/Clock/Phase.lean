import Vuknob.Clock.Ticks
import Vuknob.Library.Runs

/-!
# The phase of the ticks in two dimensions

The parity of the line decides how long a shuffled tick is, but only the loop of the `_MIDI`
dimension follows the lines within a buffer, `src_jni/machine.cc:1818–1838`. The other
dimensions measure the whole buffer by the line in which it starts, although the source takes
them to be equal.
-/

namespace Vuknob

open Library

namespace Transport

variable {t t' : Transport}

/-- The next `n` lines have the parity of the line before them. -/
def SameParityLines (t : Transport) : Nat → Int → Prop
  | 0, _ => True
  | n + 1, p => ∃ p', t.nextLine p = some p' ∧ evenLine p' = evenLine p ∧ t.SameParityLines n p'

/-- The ticks are not shuffled, or the buffer ends before a line of the other parity begins. -/
def SteadyBuffer (t : Transport) : Prop :=
  ∀ spt sptf, ticksToSamples (t.defaults.frequency .midi) t.bpm t.lpb = some spt →
    shuffleSamples t.shuffleFactor spt = some sptf →
    sptf = 0 ∨ ∃ n : Nat, t.SameParityLines n t.nextSequencePosition ∧
      t.defaults.samples .midi ≤ t.nextTickAt .midi +
        (16 * n + 15 - t.currentTick) * shuffledTick spt sptf (evenLine t.nextSequencePosition)

/-- Buffers are steady and have the same size and frequency in both dimensions. -/
def MindsPhase (t : Transport) (call : TransportCall) (_ : TransportResult) : Prop :=
  match call with
  | .fillSink _ =>
    t.defaults.samples .zeroD = t.defaults.samples .midi ∧
      t.defaults.frequency .zeroD = t.defaults.frequency .midi ∧ t.SteadyBuffer
  | _ => True

/-- The next tick is equally far in both dimensions, and is a tick of its line. -/
structure InPhase (t : Transport) : Prop where
  phase : t.nextTickAt .zeroD = t.nextTickAt .midi
  tick : 0 ≤ t.currentTick ∧ t.currentTick < 16

/-! ### Two loops side by side -/

/-- A relation between the states of two loops over equally long buffers that every round of
both keeps holds when they return. -/
theorem tickLoop_lockstep {d d' : Dimension} (R : TickState → TickState → Prop)
    (hsamples : t.defaults.samples d = t.defaults.samples d')
    (hnta : ∀ x y, R x y → x.nta = y.nta)
    (hbody : ∀ x y x' y', R x y → x.nta < t.defaults.samples d → t.tickBody d x = some x' →
      t.tickBody d' y = some y' → R x' y')
    {fuel : Nat} {x y x' y' : TickState} (hx : t.tickLoop d fuel x = some x')
    (hy : t.tickLoop d' fuel y = some y') (hR : R x y) : R x' y' := by
  induction fuel generalizing x y with
  | zero =>
    rw [tickLoop] at hx hy
    split at hx
    · cases hx
    · split at hy
      · cases hy
      · exact Option.some.inj hx ▸ Option.some.inj hy ▸ hR
  | succ fuel ih =>
    have heq := hnta x y hR
    rw [tickLoop] at hx hy
    rw [← heq, ← hsamples] at hy
    split at hx
    · next hlt =>
      rw [if_pos hlt] at hy
      obtain ⟨u, hu, hx⟩ := Option.bind_eq_some_iff.mp hx
      obtain ⟨v, hv, hy⟩ := Option.bind_eq_some_iff.mp hy
      exact ih hx hy (hbody x y u v hR hlt hu hv)
    · next hge =>
      rw [if_neg hge] at hy
      exact Option.some.inj hx ▸ Option.some.inj hy ▸ hR

/-- The `_MIDI` loop is in a line of the parity of the other loop, and the buffer ends before
a line of the other parity begins. -/
private structure Aligned (t : Transport) (x y : TickState) : Prop where
  nta : x.nta = y.nta
  even : x.evenLine = y.evenLine
  line : x.evenLine = evenLine x.nextSequencePosition
  tick : 0 ≤ x.currentTick ∧ x.currentTick < 16
  room : ∃ n : Nat, t.SameParityLines n x.nextSequencePosition ∧
    t.defaults.samples .midi ≤ x.nta + (16 * n + 15 - x.currentTick) *
      shuffledTick (t.samplesPerTick .midi) (t.samplesPerTickShuffle .midi) x.evenLine

private theorem tickBody_zeroD {y y' : TickState} (h : t.tickBody .zeroD y = some y') :
    y' = { y with
      nta := y.nta +
        shuffledTick (t.samplesPerTick .zeroD) (t.samplesPerTickShuffle .zeroD) y.evenLine } := by
  obtain ⟨z, hz, -, rfl⟩ := tickBody_cases h
  rw [if_neg (by decide)] at hz
  rw [Option.some.inj hz]

private theorem room_step {samples nta k length : Int} (h : samples ≤ nta + k * length) :
    samples ≤ nta + length + (k - 1) * length := by
  rw [Int.sub_mul, Int.one_mul]
  omega

private theorem Aligned.body {x y x' y' : TickState}
    (hspt : t.samplesPerTick .zeroD = t.samplesPerTick .midi)
    (hsptf : t.samplesPerTickShuffle .zeroD = t.samplesPerTickShuffle .midi)
    (h : Aligned t x y) (hlt : x.nta < t.defaults.samples .midi)
    (hx : t.tickBody .midi x = some x') (hy : t.tickBody .zeroD y = some y') :
    Aligned t x' y' := by
  obtain rfl := tickBody_zeroD hy
  obtain ⟨z, hz, -, rfl⟩ := tickBody_cases hx
  rw [if_pos rfl] at hz
  obtain ⟨hnta, heven, hline, htick, n, hlines, hroom⟩ := h
  have hmod : (x.currentTick + 1).tmod 16 = (x.currentTick + 1) % 16 :=
    Int.tmod_eq_emod_of_nonneg (by omega)
  rcases synchronize_cases hz with ⟨hne, rfl⟩ | ⟨h0, p, hp, rfl⟩
  · have hnext : (x.currentTick + 1).tmod 16 = x.currentTick + 1 := by omega
    refine ⟨?_, heven, hline, ?_, n, hlines, ?_⟩
    · simp only [hnta, heven, hspt, hsptf]
    · simp only [hnext]
      omega
    · simp only [hnext]
      have hroom' := room_step hroom
      rwa [show 16 * (n : Int) + 15 - x.currentTick - 1 = 16 * n + 15 - (x.currentTick + 1) by omega]
        at hroom'
  · cases n with
    | zero =>
      have hlast : x.currentTick = 15 := by omega
      rw [hlast] at hroom
      simp at hroom
      omega
    | succ n =>
      obtain ⟨q, hq, hparity, hrest⟩ := hlines
      obtain rfl := Option.some.inj (hp.symm.trans hq)
      have hlast : x.currentTick = 15 := by omega
      have hsame : evenLine p = x.evenLine := hparity.trans hline.symm
      refine ⟨?_, hsame.trans heven, rfl, ⟨Int.le_refl 0, by simp⟩, n, hrest, ?_⟩
      · simp only [hnta, hsame, heven, hspt, hsptf]
      · simp only [hsame]
        have hroom' := room_step hroom
        rwa [show 16 * ((n + 1 : Nat) : Int) + 15 - x.currentTick - 1 = 16 * n + 15 - 0 by omega]
          at hroom'

private theorem InPhase.calculateNextTick {fuel : Nat} (hp : t.InPhase)
    (hsamples : t.defaults.samples .zeroD = t.defaults.samples .midi)
    (hspt : t.samplesPerTick .zeroD = t.samplesPerTick .midi)
    (hsptf : t.samplesPerTickShuffle .zeroD = t.samplesPerTickShuffle .midi)
    (hsteady : t.samplesPerTickShuffle .midi = 0 ∨
      ∃ n : Nat, t.SameParityLines n t.nextSequencePosition ∧
        t.defaults.samples .midi ≤ t.nextTickAt .midi + (16 * n + 15 - t.currentTick) *
          shuffledTick (t.samplesPerTick .midi) (t.samplesPerTickShuffle .midi)
            (evenLine t.nextSequencePosition))
    (h : t.calculateNextTickAtAndSequencePosition fuel = some t') : t'.InPhase := by
  obtain ⟨-, hloops, x, hx, htick, -⟩ := calculateNextTickAtAndSequencePosition_eq h
  obtain ⟨y, hy, hnta, -⟩ := hloops .zeroD (by decide)
  obtain ⟨x', hx', hnta', -⟩ := hloops .midi (by decide)
  obtain rfl := Option.some.inj (hx'.symm.trans hx)
  have hlock : x'.nta = y.nta := by
    rcases hsteady with hzero | ⟨n, hlines, hroom⟩
    · refine tickLoop_lockstep (fun x y ↦ x.nta = y.nta) hsamples.symm (fun _ _ h ↦ h) ?_ hx hy
        hp.phase.symm
      intro u v u' v' huv _ hu hv
      obtain rfl := tickBody_zeroD hv
      obtain ⟨z, -, -, rfl⟩ := tickBody_cases hu
      simp [huv, shuffledTick, hsptf, hspt, hzero]
    · refine (tickLoop_lockstep (Aligned t) hsamples.symm (fun _ _ h ↦ h.nta) ?_ hx hy ?_).nta
      · intro u v u' v' huv hlt hu hv
        exact huv.body hspt hsptf hlt hu hv
      · exact ⟨hp.phase.symm, rfl, rfl, hp.tick, n, hlines, hroom⟩
  refine ⟨?_, ?_⟩
  · rw [hnta, hnta', hlock, hsamples]
  · rw [htick]
    exact tickLoop_tick hx hp.tick

/-! ### Runs -/

private theorem SameParityLines.with_rates {n : Nat} {p : Int} (spt sptf : Dimension → Int)
    (h : t.SameParityLines n p) :
    SameParityLines { t with samplesPerTick := spt, samplesPerTickShuffle := sptf } n p := by
  induction n generalizing p with
  | zero => trivial
  | succ n ih =>
    obtain ⟨q, hq, hparity, hrest⟩ := h
    exact ⟨q, hq, hparity, ih hrest⟩

/-- A steady buffer leaves both dimensions in phase. -/
private theorem InPhase.fillSink {fuel : Nat} {r : TransportResult} (hp : t.InPhase)
    (hsamples : t.defaults.samples .zeroD = t.defaults.samples .midi)
    (hfrequency : t.defaults.frequency .zeroD = t.defaults.frequency .midi)
    (hsteady : t.SteadyBuffer) (h : t.step (.fillSink fuel) = some (r, t')) : t'.InPhase := by
  obtain ⟨s, hs, ht'⟩ := fillSink_cases h
  obtain ⟨⟨spt, sptf, rfl⟩, hrates⟩ := calculateSamplesPerTick_eq hs
  obtain ⟨hspt, hsptf⟩ := hrates .zeroD (by decide)
  obtain ⟨hspt', hsptf'⟩ := hrates .midi (by decide)
  have hsame : spt .zeroD = spt .midi := by
    rw [hfrequency] at hspt
    exact Option.some.inj (hspt.symm.trans hspt')
  have hsame' : sptf .zeroD = sptf .midi := by
    simp only [hsame] at hsptf
    exact Option.some.inj (hsptf.symm.trans hsptf')
  have hp' : InPhase { t with samplesPerTick := spt, samplesPerTickShuffle := sptf } :=
    ⟨hp.phase, hp.tick⟩
  refine hp'.calculateNextTick hsamples hsame hsame' ?_ ht'
  rcases hsteady _ _ hspt' hsptf' with hzero | ⟨n, hlines, hroom⟩
  · exact .inl hzero
  · exact .inr ⟨n, hlines.with_rates spt sptf, hroom⟩

private theorem InPhase.step {call : TransportCall} {r : TransportResult} (hp : t.InPhase)
    (hminds : t.MindsPhase call r) (h : t.step call = some (r, t')) : t'.InPhase := by
  have hcopy (u : Transport) (hnta : u.nextTickAt = t.nextTickAt)
      (htick : u.currentTick = t.currentTick) : u.InPhase :=
    ⟨by rw [hnta]; exact hp.phase, by rw [htick]; exact hp.tick⟩
  cases call with
  | fillSink fuel => exact hp.fillSink hminds.1 hminds.2.1 hminds.2.2 h
  | jumpTo position =>
    obtain ⟨-, rfl⟩ := Prod.mk.inj (Option.some.inj h)
    exact ⟨hp.phase, by simp [jumpTo]⟩
  | rewind | play =>
    obtain ⟨-, rfl⟩ := Prod.mk.inj (Option.some.inj h)
    exact ⟨rfl, by simp [rewind, play, resetGlobalPlaybackParameters]⟩
  | setLoopLength n =>
    simp only [Transport.step] at h
    split at h
    · obtain ⟨-, rfl⟩ := Prod.mk.inj (Option.some.inj h)
      exact hp
    · obtain ⟨_, -, he⟩ := Option.map_eq_some_iff.mp h
      obtain ⟨-, rfl⟩ := Prod.mk.inj he
      exact hcopy _ rfl rfl
  | setDefaults d samples frequency =>
    simp only [Transport.step, Option.ite_none_left_eq_some, Option.some.injEq, Prod.mk.injEq] at h
    obtain ⟨-, -, rfl⟩ := h
    exact hcopy _ rfl rfl
  | createSignal d =>
    simp only [Transport.step, Option.map_eq_some_iff, Prod.mk.injEq] at h
    obtain ⟨_, -, -, rfl⟩ := h
    exact hcopy _ rfl rfl
  | setLoopStart n | setBpm n | setLpb n =>
    simp only [Transport.step] at h
    split at h
    all_goals
      obtain ⟨-, rfl⟩ := Prod.mk.inj (Option.some.inj h)
      exact hcopy _ rfl rfl
  | setLoopState _ | setShuffleFactor _ | stop =>
    obtain ⟨-, rfl⟩ := Prod.mk.inj (Option.some.inj h)
    exact hcopy _ rfl rfl

/-- In a run of steady buffers both dimensions stay in phase. -/
theorem phase_kept {t t' : Transport} (hp : t.InPhase) {calls : List TransportCall}
    (hrun : Run Transport.step MindsPhase t calls t') :
    t'.nextTickAt .zeroD = t'.nextTickAt .midi := by
  have hp' : t'.InPhase := by
    refine hrun.invariant InPhase ?_ hp
    intro s call r s' hs hminds h
    exact hs.step hminds h
  exact hp'.phase

/-- The start of the program with a signal in both dimensions and full shuffle. -/
def shuffled : Transport where
  __ := initial
  shuffleFactor := 100
  defaults := ((initial.defaults.internalSetDefaults .zeroD 1024 44100).internalSetDefaults
    .midi 1024 44100)

/-- At 120 beats a minute the first buffer ends in the fifth tick of its line. -/
theorem phase_kept_shuffled :
    ∃ t, Run Transport.step MindsPhase shuffled [.fillSink 10] t ∧
      t.nextTickAt .zeroD = t.nextTickAt .midi ∧ t.nextTickAt .midi = 51 := by
  have hsome : ((shuffled.step (.fillSink 10)).map fun (r, t) ↦ (r, t.nextTickAt .midi)) =
      some (.returned, 51) := by decide +kernel
  obtain ⟨⟨r, t⟩, hstep, he⟩ := Option.map_eq_some_iff.mp hsome
  have hminds : shuffled.MindsPhase (.fillSink 10) r := by
    refine ⟨rfl, rfl, ?_⟩
    intro spt sptf hspt hsptf
    have hspt' : ticksToSamples (shuffled.defaults.frequency .midi) shuffled.bpm shuffled.lpb =
        some 344 := by decide +kernel
    obtain rfl := Option.some.inj (hspt.symm.trans hspt')
    have hsptf' : shuffleSamples shuffled.shuffleFactor 344 = some 129 := by decide +kernel
    obtain rfl := Option.some.inj (hsptf.symm.trans hsptf')
    exact .inr ⟨0, trivial, by decide +kernel⟩
  have hrun : Run Transport.step MindsPhase shuffled [.fillSink 10] t :=
    .cons hstep hminds (.nil t)
  exact ⟨t, hrun, phase_kept ⟨rfl, by decide⟩ hrun, (Prod.mk.inj he).2⟩

/-- At 200 beats of 24 lines a minute the first buffer reaches into an odd line, and the
dimensions are out of phase afterwards. -/
theorem phase_lost :
    ¬ ∀ t : Transport, t.InPhase → t.defaults.samples .zeroD = t.defaults.samples .midi →
      t.defaults.frequency .zeroD = t.defaults.frequency .midi →
      20 ≤ t.bpm ∧ t.bpm ≤ 200 → 2 ≤ t.lpb ∧ t.lpb ≤ 24 →
      0 ≤ t.shuffleFactor ∧ t.shuffleFactor ≤ 100 →
      ∀ fuel r t', t.step (.fillSink fuel) = some (r, t') →
        t'.nextTickAt .zeroD = t'.nextTickAt .midi := by
  intro hclaim
  have hsome : ((step { shuffled with bpm := 200, lpb := 24 } (.fillSink 100)).map fun (_, t) ↦
      (t.nextTickAt .zeroD, t.nextTickAt .midi)) = some (10, 42) := by decide +kernel
  obtain ⟨⟨r, t⟩, hstep, he⟩ := Option.map_eq_some_iff.mp hsome
  have heq := hclaim { shuffled with bpm := 200, lpb := 24 } ⟨rfl, by decide⟩ rfl rfl (by decide)
    (by decide) (by decide) 100 r t hstep
  obtain ⟨h0, h3⟩ := Prod.mk.inj he
  rw [h0, h3] at heq
  exact absurd heq (by decide)

end Transport

end Vuknob
