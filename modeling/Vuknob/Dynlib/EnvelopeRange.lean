import Mathlib.Tactic.Linarith
import Mathlib.Tactic.Ring
import Vuknob.Dynlib.LibEnvelope

/-!
# The range of an envelope generator

The amplitude of a voice is to stay between zero and one, to be that of the sustain phase when this
is entered, and to be zero after a release. The level steps are rounded, and so are the steps of
the amplitude, so that this depends on the settings: it holds in every run if what is to be divided
can be divided, and otherwise there is a run in which it does not.
-/

namespace Vuknob

namespace EnvelopeT

variable {env e e' : EnvelopeT} {calls : List Call}

theorem itoFTYPE_one : itoFTYPE 1 = 16777216 := rfl

theorem itoFTYPE_zero : itoFTYPE 0 = 0 := rfl

/-! ## Settings -/

/-- Settings whose level steps are positive, with a sustain level between zero and one. -/
structure Settled (env : EnvelopeT) : Prop where
  attack : 0 < env.attackLevelStep ∧ env.attackLevelStep < 2 ^ 31
  hold : 0 < env.holdLevelStep ∧ env.holdLevelStep < 2 ^ 31
  decay : 0 < env.decayLevelStep ∧ env.decayLevelStep < 2 ^ 31
  release : 0 < env.releaseLevelStep ∧ env.releaseLevelStep < 2 ^ 31
  sustain : 0 ≤ env.sustainAmplitude ∧ env.sustainAmplitude ≤ itoFTYPE 1

/-- The settings of two generators are the same. -/
structure SameSettings (env env' : EnvelopeT) : Prop where
  attack : env'.attackLevelStep = env.attackLevelStep
  hold : env'.holdLevelStep = env.holdLevelStep
  decay : env'.decayLevelStep = env.decayLevelStep
  release : env'.releaseLevelStep = env.releaseLevelStep
  sustain : env'.sustainAmplitude = env.sustainAmplitude

@[simp] theorem SameSettings.refl (env : EnvelopeT) : SameSettings env env :=
  ⟨rfl, rfl, rfl, rfl, rfl⟩

theorem SameSettings.trans {e'' : EnvelopeT} (h : SameSettings e e') (h' : SameSettings e' e'') :
    SameSettings e e'' :=
  ⟨h'.attack.trans h.attack, h'.hold.trans h.hold, h'.decay.trans h.decay,
    h'.release.trans h.release, h'.sustain.trans h.sustain⟩

theorem Settled.congr (hs : env.Settled) (h : SameSettings env e) : e.Settled := by
  constructor
  · rw [h.attack]
    exact hs.attack
  · rw [h.hold]
    exact hs.hold
  · rw [h.decay]
    exact hs.decay
  · rw [h.release]
    exact hs.release
  · rw [h.sustain]
    exact hs.sustain

/-- No phase before the sustain phase takes time, so that `envelope_hold` goes there at once. -/
def Skips (env : EnvelopeT) : Prop :=
  env.attackLevelStep = itoFTYPE 1 ∧ env.holdLevelStep = itoFTYPE 1 ∧
    env.decayLevelStep = itoFTYPE 1

instance (env : EnvelopeT) : Decidable env.Skips := inferInstanceAs (Decidable (_ ∧ _ ∧ _))

/-- What one call makes of the settings. -/
theorem sameSettings_of_advance {ampStep levelStep next : Int}
    (h : e.advance ampStep levelStep next = some e') : SameSettings e e' := by
  simp only [advance, Option.bind_eq_bind, Option.bind_eq_some_iff] at h
  obtain ⟨amplitude, -, phaseLevel, -, h⟩ := h
  split at h <;> (cases h; exact ⟨rfl, rfl, rfl, rfl, rfl⟩)

/-! ## One call -/

theorem hold_eq (hs : e.Settled) : e.hold = some { e with
    attackAmpStep := e.attackLevelStep
    decayAmpStep := mulFTYPE (-e.decayLevelStep) (itoFTYPE 1 - e.sustainAmplitude)
    amplitude := if e.Skips then e.sustainAmplitude else 0
    phaseLevel := 0
    phase := if e.Skips then 4 else 1 } := by
  have hdecay := hs.decay
  have hsustain := hs.sustain
  rw [itoFTYPE_one] at hsustain
  have hneg : int (-e.decayLevelStep) = some (-e.decayLevelStep) := int_of_fits (by omega)
  have hroom : int (itoFTYPE 1 - e.sustainAmplitude) = some (itoFTYPE 1 - e.sustainAmplitude) :=
    int_of_fits (by rw [itoFTYPE_one]; omega)
  rw [hold, hneg, hroom]
  simp only [Option.bind_eq_bind, Option.bind_some]
  by_cases hskips : e.Skips
  · rw [if_pos hskips, if_pos hskips]
    rw [Skips] at hskips
    rw [if_pos hskips]
    rfl
  · rw [if_neg hskips, if_neg hskips]
    rw [Skips] at hskips
    rw [if_neg hskips]
    rfl

theorem release_eq (hs : e.Settled) : e.release = some { e with
    phase := 5, phaseLevel := 0
    releaseAmpStep := mulFTYPE (-e.releaseLevelStep) e.amplitude } := by
  have hrelease := hs.release
  have hneg : int (-e.releaseLevelStep) = some (-e.releaseLevelStep) := int_of_fits (by omega)
  rw [release, hneg]
  rfl

/-- A phase goes on. -/
theorem advance_of_lt {ampStep levelStep next : Int}
    (hamp : -2 ^ 31 ≤ e.amplitude + ampStep ∧ e.amplitude + ampStep < 2 ^ 31)
    (hnonneg : 0 ≤ e.phaseLevel + levelStep) (hlt : e.phaseLevel + levelStep < itoFTYPE 1) :
    e.advance ampStep levelStep next = some { e with
      amplitude := e.amplitude + ampStep, phaseLevel := e.phaseLevel + levelStep } := by
  have hone := itoFTYPE_one
  rw [advance, int_of_fits hamp, int_of_fits (by omega)]
  simp only [Option.bind_eq_bind, Option.bind_some]
  rw [if_neg (by omega)]
  rfl

/-- A phase comes to its end. -/
theorem advance_of_le {ampStep levelStep next : Int}
    (hamp : -2 ^ 31 ≤ e.amplitude + ampStep ∧ e.amplitude + ampStep < 2 ^ 31)
    (hle : itoFTYPE 1 ≤ e.phaseLevel + levelStep) (hlt : e.phaseLevel + levelStep < 2 ^ 31) :
    e.advance ampStep levelStep next = some { e with
      amplitude := e.amplitude + ampStep, phaseLevel := 0, phase := next } := by
  have hone := itoFTYPE_one
  rw [advance, int_of_fits hamp, int_of_fits (by omega)]
  simp only [Option.bind_eq_bind, Option.bind_some]
  rw [if_pos hle]
  rfl

/-! ## Settings that divide -/

/-- The steps of the amplitude come to what they are to come to: the attack ends at one, the decay
at the level of the sustain phase, and a release takes at most two steps or starts at zero. -/
structure Divides (env : EnvelopeT) : Prop where
  attack : env.attackLevelStep ∣ itoFTYPE 1
  decay : env.sustainAmplitude = itoFTYPE 1 ∨ env.decayLevelStep ∣ itoFTYPE 1 ∧
    itoFTYPE 1 ∣ env.decayLevelStep * (itoFTYPE 1 - env.sustainAmplitude)
  release : itoFTYPE 1 ≤ 2 * env.releaseLevelStep ∨ env.Skips ∧ env.sustainAmplitude = 0

theorem Divides.congr (hd : env.Divides) (h : SameSettings env e) : e.Divides := by
  constructor
  · rw [h.attack]
    exact hd.attack
  · rw [h.decay, h.sustain]
    exact hd.decay
  · rw [h.release, h.sustain, Skips, h.attack, h.hold, h.decay]
    exact hd.release

/-- The step of the amplitude in the decay phase. -/
def decayStep (env : EnvelopeT) : Int :=
  mulFTYPE (-env.decayLevelStep) (itoFTYPE 1 - env.sustainAmplitude)

/-- Where the generator is in each of the phases, if the settings divide. -/
inductive Inv (env : EnvelopeT) : Prop
  | silent (phase : env.phase = 0) (amplitude : env.amplitude = 0)
  | attack (phase : env.phase = 1) (skips : ¬ env.Skips)
      (ampStep : env.attackAmpStep = env.attackLevelStep)
      (decayAmpStep : env.decayAmpStep = env.decayStep)
      (amplitude : env.amplitude = env.phaseLevel)
      (level : 0 ≤ env.phaseLevel ∧ env.phaseLevel < itoFTYPE 1)
      (divides : env.attackLevelStep ∣ env.phaseLevel)
  | hold (phase : env.phase = 2) (skips : ¬ env.Skips)
      (decayAmpStep : env.decayAmpStep = env.decayStep)
      (amplitude : env.amplitude = itoFTYPE 1)
      (level : 0 ≤ env.phaseLevel ∧ env.phaseLevel < itoFTYPE 1)
      (first : env.phaseLevel = 0 ∨ env.holdLevelStep < itoFTYPE 1)
  | decay (phase : env.phase = 3) (skips : ¬ env.Skips)
      (decayAmpStep : env.decayAmpStep = env.decayStep) (k : Int)
      (amplitude : env.amplitude = itoFTYPE 1 + k * env.decayStep)
      (steps : env.phaseLevel = k * env.decayLevelStep)
      (level : 0 ≤ env.phaseLevel ∧ env.phaseLevel < itoFTYPE 1)
  | sustain (phase : env.phase = 4) (amplitude : env.amplitude = env.sustainAmplitude)
  | release (phase : env.phase = 5) (level : 0 ≤ env.phaseLevel ∧ env.phaseLevel < itoFTYPE 1)
      (first : env.phaseLevel = 0 ∨ env.releaseLevelStep < itoFTYPE 1)
      (amplitude : 0 ≤ env.amplitude ∧ env.amplitude ≤ itoFTYPE 1)
      (ampStep : -env.releaseLevelStep ≤ env.releaseAmpStep ∧ env.releaseAmpStep ≤ 0)
      (ends : 0 ≤ env.amplitude + env.releaseAmpStep ∨
        itoFTYPE 1 ≤ env.phaseLevel + env.releaseLevelStep)
      (next : env.amplitude = 0 ∧ env.releaseAmpStep = 0 ∨
        itoFTYPE 1 ≤ 2 * env.releaseLevelStep)

/-- What the decay takes away in `k` steps, which is not more than all of them take. -/
theorem exists_decayStep (hs : env.Settled) (hd : env.Divides) :
    ∃ q, env.decayStep = -q ∧ 0 ≤ q ∧ q ≤ env.decayLevelStep ∧
      ∀ k, k * env.decayLevelStep < itoFTYPE 1 + env.decayLevelStep →
        k * q ≤ itoFTYPE 1 - env.sustainAmplitude ∧
        (itoFTYPE 1 ≤ k * env.decayLevelStep → k * q = itoFTYPE 1 - env.sustainAmplitude) := by
  have hone := itoFTYPE_one
  have hdecay := hs.decay
  have hsustain := hs.sustain
  obtain ⟨q, hq, hnonneg, hle, hlow, hhigh⟩ :=
    mulFTYPE_neg (r := env.decayLevelStep) (a := itoFTYPE 1 - env.sustainAmplitude) (by omega)
      (by omega)
  refine ⟨q, hq, hnonneg, hle, fun k hk ↦ ?_⟩
  rcases hd.decay with hfull | ⟨⟨n, hn⟩, m, hm⟩
  · -- nothing is taken away
    have hzero : q = 0 := by
      rw [hfull, Int.sub_self, Int.mul_zero] at hlow hhigh
      nlinarith
    rw [hzero, hfull]
    omega
  · have hqm : q = m := by
      rw [hm] at hlow hhigh
      nlinarith
    have hall : n * q = itoFTYPE 1 - env.sustainAmplitude := by
      have : itoFTYPE 1 * (n * q) = itoFTYPE 1 * (itoFTYPE 1 - env.sustainAmplitude) := by
        calc itoFTYPE 1 * (n * q) = n * (itoFTYPE 1 * m) := by rw [hqm]; ring
          _ = env.decayLevelStep * n * (itoFTYPE 1 - env.sustainAmplitude) := by rw [← hm]; ring
          _ = itoFTYPE 1 * (itoFTYPE 1 - env.sustainAmplitude) := by rw [← hn]
      exact mul_left_cancel₀ (by rw [hone]; decide) this
    have hkn : k ≤ n := by nlinarith
    refine ⟨?_, fun hend ↦ ?_⟩
    · rw [← hall]
      exact Int.mul_le_mul_of_nonneg_right hkn hnonneg
    · have : k = n := by nlinarith
      rw [this, hall]

/-- The amplitude is between zero and one wherever the generator is. -/
theorem Inv.inRange (hs : env.Settled) (hd : env.Divides) (h : env.Inv) :
    0 ≤ env.amplitude ∧ env.amplitude ≤ itoFTYPE 1 := by
  have hone := itoFTYPE_one
  have hsustain := hs.sustain
  cases h with
  | silent _ amplitude => omega
  | attack _ _ _ _ amplitude level => omega
  | hold _ _ _ amplitude => omega
  | sustain _ amplitude => omega
  | release _ _ _ amplitude => exact amplitude
  | decay _ _ _ k amplitude steps level =>
    obtain ⟨q, hq, hnonneg, -, htaken⟩ := exists_decayStep hs hd
    have hdecay := hs.decay
    have hk : 0 ≤ k := by nlinarith
    have hle := (htaken k (by omega)).1
    have hpos := Int.mul_nonneg hk hnonneg
    rw [hq, Int.mul_neg] at amplitude
    omega

theorem Inv.holds (hs : env.Settled) :
    ∃ e, env.hold = some e ∧ e.Inv ∧ SameSettings env e := by
  refine ⟨_, hold_eq hs, ?_, rfl, rfl, rfl, rfl, rfl⟩
  by_cases hskips : env.Skips
  · exact .sustain (if_pos hskips) (if_pos hskips)
  · refine .attack (if_neg hskips) hskips rfl rfl (if_neg hskips) ?_ (Int.dvd_zero _)
    exact ⟨Int.le_refl 0, (by decide : (0 : Int) < itoFTYPE 1)⟩

/-- Where no phase takes time and the level of the sustain phase is zero nothing is heard. -/
theorem Inv.silence (h : env.Inv) (hskips : env.Skips) (hzero : env.sustainAmplitude = 0)
    (hlong : ¬ itoFTYPE 1 ≤ 2 * env.releaseLevelStep) : env.amplitude = 0 := by
  cases h with
  | silent _ amplitude => exact amplitude
  | attack _ skips | hold _ skips | decay _ skips => exact absurd hskips skips
  | sustain _ amplitude => exact amplitude.trans hzero
  | release _ _ _ _ _ _ next => exact (next.resolve_right hlong).1

theorem Inv.releases (hs : env.Settled) (hd : env.Divides) (h : env.Inv) :
    ∃ e, env.release = some e ∧ e.Inv ∧ SameSettings env e ∧ e.phase = 5 := by
  have hone := itoFTYPE_one
  have hrelease := hs.release
  have hrange := h.inRange hs hd
  obtain ⟨q, hq, hnonneg, hle, hlow, hhigh⟩ :=
    mulFTYPE_neg (r := env.releaseLevelStep) (by omega) hrange
  have hzero : env.amplitude = 0 → q = 0 := by
    intro hzero
    rw [hzero, Int.mul_zero, hone] at hhigh
    omega
  have hends : q ≤ env.amplitude ∨ itoFTYPE 1 ≤ env.releaseLevelStep := by
    by_cases hshort : itoFTYPE 1 ≤ env.releaseLevelStep
    · exact .inr hshort
    · refine .inl ?_
      nlinarith
  have hnext : env.amplitude = 0 ∧ q = 0 ∨ itoFTYPE 1 ≤ 2 * env.releaseLevelStep := by
    by_cases hlong : itoFTYPE 1 ≤ 2 * env.releaseLevelStep
    · exact .inr hlong
    · obtain ⟨hskips, hsilent⟩ := hd.release.resolve_left hlong
      have := h.silence hskips hsilent hlong
      exact .inl ⟨this, hzero this⟩
  refine ⟨_, release_eq hs, ?_, ⟨rfl, rfl, rfl, rfl, rfl⟩, rfl⟩
  rw [hq]
  refine .release rfl ⟨Int.le_refl 0, (by decide : (0 : Int) < itoFTYPE 1)⟩ (.inl rfl) hrange
    ?_ ?_ ?_
  · show -env.releaseLevelStep ≤ -q ∧ -q ≤ 0
    omega
  · show 0 ≤ env.amplitude + -q ∨ itoFTYPE 1 ≤ 0 + env.releaseLevelStep
    omega
  · show env.amplitude = 0 ∧ -q = 0 ∨ itoFTYPE 1 ≤ 2 * env.releaseLevelStep
    omega

/-! ## One step -/

theorem step_attack (h : e.phase = 1) : e.step = e.advance e.attackAmpStep e.attackLevelStep 2 := by
  rw [step, h]
  rfl

theorem step_hold (h : e.phase = 2) : e.step = e.advance 0 e.holdLevelStep 3 := by
  rw [step, h]
  rfl

theorem step_decay (h : e.phase = 3) : e.step = e.advance e.decayAmpStep e.decayLevelStep 4 := by
  rw [step, h]
  rfl

/-- A step of the release phase, by whether it is the last one. -/
theorem step_release (h : e.phase = 5)
    (hlevel : 0 ≤ e.phaseLevel + e.releaseLevelStep ∧ e.phaseLevel + e.releaseLevelStep < 2 ^ 31)
    (hamp : -2 ^ 31 ≤ e.amplitude + e.releaseAmpStep ∧ e.amplitude + e.releaseAmpStep < 2 ^ 31) :
    e.step = some (if itoFTYPE 1 ≤ e.phaseLevel + e.releaseLevelStep then
      { e with amplitude := 0, phaseLevel := 0, phase := 0 }
    else { e with
      amplitude := e.amplitude + e.releaseAmpStep
      phaseLevel := e.phaseLevel + e.releaseLevelStep }) := by
  have hstep : e.step = (e.advance e.releaseAmpStep e.releaseLevelStep 0).bind fun env ↦
      some (if env.phase = 0 then { env with amplitude := itoFTYPE 0 } else env) := by
    rw [step, h]
    rfl
  rw [hstep]
  by_cases hle : itoFTYPE 1 ≤ e.phaseLevel + e.releaseLevelStep
  · rw [if_pos hle, advance_of_le hamp hle hlevel.2, Option.bind_some, if_pos rfl]
    rfl
  · rw [if_neg hle, advance_of_lt hamp hlevel.1 (by omega), Option.bind_some, if_neg]
    rw [h]
    decide

/-- A step that advances keeps the invariant, if both of its ends do. -/
theorem exists_advance {ampStep levelStep next : Int}
    (hamp : -2 ^ 31 ≤ env.amplitude + ampStep ∧ env.amplitude + ampStep < 2 ^ 31)
    (hlevel : 0 ≤ env.phaseLevel + levelStep ∧ env.phaseLevel + levelStep < 2 ^ 31)
    (hend : itoFTYPE 1 ≤ env.phaseLevel + levelStep →
      Inv { env with amplitude := env.amplitude + ampStep, phaseLevel := 0, phase := next })
    (hgoes : env.phaseLevel + levelStep < itoFTYPE 1 → Inv { env with
      amplitude := env.amplitude + ampStep, phaseLevel := env.phaseLevel + levelStep }) :
    ∃ e, env.advance ampStep levelStep next = some e ∧ e.Inv ∧ SameSettings env e := by
  by_cases hle : itoFTYPE 1 ≤ env.phaseLevel + levelStep
  · exact ⟨_, advance_of_le hamp hle hlevel.2, hend hle, rfl, rfl, rfl, rfl, rfl⟩
  · have hlt := Int.not_le.mp hle
    exact ⟨_, advance_of_lt hamp hlevel.1 hlt, hgoes hlt, rfl, rfl, rfl, rfl, rfl⟩

/-- The attack ends at one. -/
theorem steps_attack (hs : env.Settled) (hd : env.Divides) (phase : env.phase = 1)
    (skips : ¬ env.Skips) (ampStep : env.attackAmpStep = env.attackLevelStep)
    (decayAmpStep : env.decayAmpStep = env.decayStep) (amplitude : env.amplitude = env.phaseLevel)
    (level : 0 ≤ env.phaseLevel ∧ env.phaseLevel < itoFTYPE 1)
    (divides : env.attackLevelStep ∣ env.phaseLevel) :
    ∃ e, env.step = some e ∧ e.Inv ∧ SameSettings env e := by
  have hone := itoFTYPE_one
  have hattack := hs.attack
  have hnext : env.phaseLevel + env.attackLevelStep ≤ itoFTYPE 1 := by
    obtain ⟨n, hn⟩ := hd.attack
    obtain ⟨k, hk⟩ := divides
    have : k < n := by nlinarith
    nlinarith
  rw [step_attack phase]
  refine exists_advance (by omega) (by omega) (fun hend ↦ ?_) fun hgoes ↦ ?_
  · refine .hold rfl skips decayAmpStep ?_
      ⟨Int.le_refl 0, (by decide : (0 : Int) < itoFTYPE 1)⟩ (.inl rfl)
    show env.amplitude + env.attackAmpStep = itoFTYPE 1
    omega
  · refine .attack phase skips ampStep decayAmpStep ?_ ⟨?_, hgoes⟩
      (Int.dvd_add divides (Int.dvd_refl _))
    · show env.amplitude + env.attackAmpStep = env.phaseLevel + env.attackLevelStep
      omega
    · show 0 ≤ env.phaseLevel + env.attackLevelStep
      omega

/-- The amplitude stays at one. -/
theorem steps_hold (hs : env.Settled) (phase : env.phase = 2) (skips : ¬ env.Skips)
    (decayAmpStep : env.decayAmpStep = env.decayStep) (amplitude : env.amplitude = itoFTYPE 1)
    (level : 0 ≤ env.phaseLevel ∧ env.phaseLevel < itoFTYPE 1)
    (first : env.phaseLevel = 0 ∨ env.holdLevelStep < itoFTYPE 1) :
    ∃ e, env.step = some e ∧ e.Inv ∧ SameSettings env e := by
  have hone := itoFTYPE_one
  have hhold := hs.hold
  rw [step_hold phase]
  refine exists_advance (by omega) (by omega) (fun hend ↦ ?_) fun hgoes ↦ ?_
  · refine .decay rfl skips decayAmpStep 0 ?_ (Int.zero_mul _).symm
      ⟨Int.le_refl 0, (by decide : (0 : Int) < itoFTYPE 1)⟩
    rw [Int.zero_mul]
    show env.amplitude + 0 = itoFTYPE 1 + 0
    omega
  · have hshort : env.holdLevelStep < itoFTYPE 1 := by omega
    refine .hold phase skips decayAmpStep ?_ ⟨?_, hgoes⟩ (.inr hshort)
    · show env.amplitude + 0 = itoFTYPE 1
      omega
    · show 0 ≤ env.phaseLevel + env.holdLevelStep
      omega

/-- The decay ends at the level of the sustain phase. -/
theorem steps_decay (hs : env.Settled) (hd : env.Divides) (phase : env.phase = 3)
    (skips : ¬ env.Skips) (decayAmpStep : env.decayAmpStep = env.decayStep) (k : Int)
    (amplitude : env.amplitude = itoFTYPE 1 + k * env.decayStep)
    (steps : env.phaseLevel = k * env.decayLevelStep)
    (level : 0 ≤ env.phaseLevel ∧ env.phaseLevel < itoFTYPE 1)
    (hrange : 0 ≤ env.amplitude ∧ env.amplitude ≤ itoFTYPE 1) :
    ∃ e, env.step = some e ∧ e.Inv ∧ SameSettings env e := by
  have hone := itoFTYPE_one
  have hdecay := hs.decay
  have hsustain := hs.sustain
  obtain ⟨q, hq, hnonneg, hle, htaken⟩ := exists_decayStep hs hd
  have hnextLevel : env.phaseLevel + env.decayLevelStep = (k + 1) * env.decayLevelStep := by
    rw [steps]
    ring
  have hnextAmp : env.amplitude + env.decayStep = itoFTYPE 1 + (k + 1) * env.decayStep := by
    rw [amplitude]
    ring
  have hnext := htaken (k + 1) (by omega)
  have hfirst : env.phaseLevel = 0 ∨ env.decayLevelStep < itoFTYPE 1 := by
    by_cases hk : k = 0
    · exact .inl (by rw [steps, hk, Int.zero_mul])
    · have hpos : 0 ≤ k := by nlinarith
      have : 1 * env.decayLevelStep ≤ k * env.decayLevelStep :=
        Int.mul_le_mul_of_nonneg_right (by omega) (Int.le_of_lt hdecay.1)
      exact .inr (by omega)
  rw [hq, Int.mul_neg] at hnextAmp
  rw [step_decay phase, decayAmpStep, hq]
  refine exists_advance (by omega) (by omega) (fun hend ↦ ?_) fun hgoes ↦ ?_
  · refine .sustain rfl ?_
    show env.amplitude + -q = env.sustainAmplitude
    have := hnext.2 (by omega)
    omega
  · refine .decay phase skips decayAmpStep (k + 1) ?_ hnextLevel ⟨?_, hgoes⟩
    · show env.amplitude + -q = itoFTYPE 1 + (k + 1) * env.decayStep
      rw [hq, Int.mul_neg]
      exact hnextAmp
    · show 0 ≤ env.phaseLevel + env.decayLevelStep
      omega

/-- The release ends in silence. -/
theorem steps_release (hs : env.Settled) (phase : env.phase = 5)
    (level : 0 ≤ env.phaseLevel ∧ env.phaseLevel < itoFTYPE 1)
    (first : env.phaseLevel = 0 ∨ env.releaseLevelStep < itoFTYPE 1)
    (amplitude : 0 ≤ env.amplitude ∧ env.amplitude ≤ itoFTYPE 1)
    (ampStep : -env.releaseLevelStep ≤ env.releaseAmpStep ∧ env.releaseAmpStep ≤ 0)
    (ends : 0 ≤ env.amplitude + env.releaseAmpStep ∨
      itoFTYPE 1 ≤ env.phaseLevel + env.releaseLevelStep)
    (next : env.amplitude = 0 ∧ env.releaseAmpStep = 0 ∨
      itoFTYPE 1 ≤ 2 * env.releaseLevelStep) :
    ∃ e, env.step = some e ∧ e.Inv ∧ SameSettings env e ∧ (e.phase = 0 ∧ e.amplitude = 0 ∨
      e.phase = 5 ∧ e.phaseLevel = env.phaseLevel + env.releaseLevelStep) := by
  have hone := itoFTYPE_one
  have hrelease := hs.release
  rw [step_release phase (by omega) (by omega)]
  split
  · exact ⟨_, rfl, .silent rfl rfl, ⟨rfl, rfl, rfl, rfl, rfl⟩, .inl ⟨rfl, rfl⟩⟩
  · next hend =>
    refine ⟨_, rfl, ?_, ⟨rfl, rfl, rfl, rfl, rfl⟩, .inr ⟨phase, rfl⟩⟩
    have hshort : env.releaseLevelStep < itoFTYPE 1 := by omega
    refine .release phase ?_ (.inr hshort) ?_ ampStep ?_ ?_
    · show 0 ≤ env.phaseLevel + env.releaseLevelStep ∧
        env.phaseLevel + env.releaseLevelStep < itoFTYPE 1
      omega
    · show 0 ≤ env.amplitude + env.releaseAmpStep ∧
        env.amplitude + env.releaseAmpStep ≤ itoFTYPE 1
      omega
    · show 0 ≤ env.amplitude + env.releaseAmpStep + env.releaseAmpStep ∨
        itoFTYPE 1 ≤ env.phaseLevel + env.releaseLevelStep + env.releaseLevelStep
      omega
    · show env.amplitude + env.releaseAmpStep = 0 ∧ env.releaseAmpStep = 0 ∨
        itoFTYPE 1 ≤ 2 * env.releaseLevelStep
      omega

theorem Inv.steps (hs : env.Settled) (hd : env.Divides) (h : env.Inv) :
    ∃ e, env.step = some e ∧ e.Inv ∧ SameSettings env e ∧
      (env.phase = 5 → e.phase = 0 ∧ e.amplitude = 0 ∨
        e.phase = 5 ∧ e.phaseLevel = env.phaseLevel + env.releaseLevelStep) := by
  have hrange := h.inRange hs hd
  cases h with
  | silent phase amplitude =>
    refine ⟨env, by rw [step, phase]; rfl, .silent phase amplitude, .refl env, fun h5 ↦ ?_⟩
    omega
  | sustain phase amplitude =>
    refine ⟨env, by rw [step, phase]; rfl, .sustain phase amplitude, .refl env, fun h5 ↦ ?_⟩
    omega
  | attack phase skips ampStep decayAmpStep amplitude level divides =>
    obtain ⟨e, he, hinv, hsame⟩ :=
      steps_attack hs hd phase skips ampStep decayAmpStep amplitude level divides
    exact ⟨e, he, hinv, hsame, fun h5 ↦ by omega⟩
  | hold phase skips decayAmpStep amplitude level first =>
    obtain ⟨e, he, hinv, hsame⟩ := steps_hold hs phase skips decayAmpStep amplitude level first
    exact ⟨e, he, hinv, hsame, fun h5 ↦ by omega⟩
  | decay phase skips decayAmpStep k amplitude steps level =>
    obtain ⟨e, he, hinv, hsame⟩ :=
      steps_decay hs hd phase skips decayAmpStep k amplitude steps level hrange
    exact ⟨e, he, hinv, hsame, fun h5 ↦ by omega⟩
  | release phase level first amplitude ampStep ends next =>
    obtain ⟨e, he, hinv, hsame, hnext⟩ :=
      steps_release hs phase level first amplitude ampStep ends next
    exact ⟨e, he, hinv, hsame, fun _ ↦ hnext⟩

/-! ## Runs -/

/-- What is expected of a generator in every run from here. -/
structure Sounds (env : EnvelopeT) : Prop where
  inRange : ∀ calls, ∃ e, env.run calls = some e ∧ 0 ≤ e.amplitude ∧ e.amplitude ≤ itoFTYPE 1
  sustains : ∀ calls c e e', env.run calls = some e → e.call c = some e' → e'.phase = 4 →
    e.phase ≠ 4 ∨ c = .hold → e'.amplitude = e'.sustainAmplitude
  releases : ∀ calls e, env.run calls = some e → ∃ e', e.release = some e' ∧
    ∃ n e'', e'.run (List.replicate n .step) = some e'' ∧ e''.phase = 0 ∧ e''.amplitude = 0

theorem run_append (calls calls' : List Call) :
    env.run (calls ++ calls') = (env.run calls).bind fun e ↦ e.run calls' := by
  rw [run, List.foldlM_append]
  rfl

theorem run_snoc (h : env.run calls = some e) (c : Call) :
    env.run (calls ++ [c]) = e.call c := by
  rw [run_append, h, Option.bind_some, run, List.foldlM_cons]
  cases e.call c <;> rfl

theorem run_cons {c : Call} (h : env.call c = some e) (calls : List Call) :
    env.run (c :: calls) = e.run calls := by
  rw [run, List.foldlM_cons, h]
  rfl

theorem Inv.called (hs : env.Settled) (hd : env.Divides) (h : env.Inv) (c : Call) :
    ∃ e, env.call c = some e ∧ e.Inv ∧ SameSettings env e := by
  cases c with
  | hold => exact Inv.holds hs
  | release =>
    obtain ⟨e, he, hinv, hsame, -⟩ := h.releases hs hd
    exact ⟨e, he, hinv, hsame⟩
  | step =>
    obtain ⟨e, he, hinv, hsame, -⟩ := h.steps hs hd
    exact ⟨e, he, hinv, hsame⟩

theorem Inv.run (hs : env.Settled) (hd : env.Divides) (h : env.Inv) (calls : List Call) :
    ∃ e, env.run calls = some e ∧ e.Inv ∧ SameSettings env e := by
  induction calls generalizing env with
  | nil => exact ⟨env, rfl, h, .refl env⟩
  | cons c calls ih =>
    obtain ⟨e, he, hinv, hsame⟩ := h.called hs hd c
    obtain ⟨e', he', hinv', hsame'⟩ := ih (hs.congr hsame) (hd.congr hsame) hinv
    exact ⟨e', (run_cons he calls).trans he', hinv', hsame.trans hsame'⟩

/-- A release comes to its end. -/
theorem Inv.ends (hs : env.Settled) (hd : env.Divides) (h : env.Inv) (hphase : env.phase = 5) :
    ∃ n e, env.run (List.replicate n .step) = some e ∧ e.phase = 0 ∧ e.amplitude = 0 := by
  induction hleft : (itoFTYPE 1 - env.phaseLevel).toNat using Nat.strongRecOn generalizing env with
  | _ left ih =>
    have hone := itoFTYPE_one
    have hrelease := hs.release
    have hlevel : env.phaseLevel < itoFTYPE 1 := by
      cases h with
      | release _ level => exact level.2
      | silent phase | attack phase | hold phase | decay phase | sustain phase => omega
    obtain ⟨e, he, hinv, hsame, hnext⟩ := h.steps hs hd
    rcases hnext hphase with hend | ⟨hgoes, hstep⟩
    · exact ⟨1, e, (run_cons (c := .step) he []).trans rfl, hend⟩
    · obtain ⟨n, e', hrun, hend⟩ := ih _ (by omega) (hs.congr hsame) (hd.congr hsame) hinv hgoes rfl
      exact ⟨n + 1, e', (run_cons (c := .step) he _).trans hrun, hend⟩

theorem Inv.sounds (hs : env.Settled) (hd : env.Divides) (h : env.Inv) : env.Sounds := by
  have hrun := h.run hs hd
  constructor
  · intro calls
    obtain ⟨e, he, hinv, hsame⟩ := hrun calls
    exact ⟨e, he, hinv.inRange (hs.congr hsame) (hd.congr hsame)⟩
  · intro calls c e e' he hcall hphase _
    obtain ⟨e₁, he₁, hinv, hsame⟩ := hrun (calls ++ [c])
    rw [run_snoc he, hcall] at he₁
    cases he₁
    cases hinv with
    | sustain _ amplitude => exact amplitude
    | silent phase | attack phase | hold phase | decay phase | release phase => omega
  · intro calls e he
    obtain ⟨e₁, he₁, hinv, hsame⟩ := hrun calls
    rw [he] at he₁
    cases he₁
    obtain ⟨e', he', hinv', hsame', hphase⟩ := hinv.releases (hs.congr hsame) (hd.congr hsame)
    have hsame'' := hsame.trans hsame'
    exact ⟨e', he', hinv'.ends (hs.congr hsame'') (hd.congr hsame'') hphase⟩

/-! ## Settings that do not divide -/

theorem Sounds.after (h : env.Sounds) (he : env.run calls = some e) : e.Sounds := by
  have hrun : ∀ calls', env.run (calls ++ calls') = e.run calls' := by
    intro calls'
    rw [run_append, he, Option.bind_some]
  constructor
  · intro calls'
    rw [← hrun]
    exact h.inRange _
  · intro calls' c e₁ e₂ he₁
    rw [← hrun] at he₁
    exact h.sustains _ c e₁ e₂ he₁
  · intro calls' e₁ he₁
    rw [← hrun] at he₁
    exact h.releases _ e₁ he₁

theorem Sounds.amplitude (h : e.Sounds) : 0 ≤ e.amplitude ∧ e.amplitude ≤ itoFTYPE 1 := by
  obtain ⟨e', he', hrange⟩ := h.inRange []
  cases he'
  exact hrange

theorem Sounds.called (h : e.Sounds) (c : Call) : ∃ e', e.call c = some e' ∧ e'.Sounds := by
  obtain ⟨e', he', -⟩ := h.inRange [c]
  have hcall : e.call c = some e' := by
    rw [← he']
    have hnone : e.run [] = some e := rfl
    exact (run_snoc hnone c).symm
  exact ⟨e', hcall, h.after he'⟩

theorem Sounds.stepped (h : e.Sounds) (he' : e.step = some e') : e'.Sounds := by
  obtain ⟨e₁, he₁, hsounds⟩ := h.called .step
  exact Option.some.inj (he₁.symm.trans he') ▸ hsounds

/-- What a step in a phase makes of the generator, where it is defined. -/
theorem eq_of_advance {ampStep levelStep next : Int}
    (h : e.advance ampStep levelStep next = some e') :
    e' = if itoFTYPE 1 ≤ e.phaseLevel + levelStep then
      { e with amplitude := e.amplitude + ampStep, phaseLevel := 0, phase := next }
    else { e with
      amplitude := e.amplitude + ampStep, phaseLevel := e.phaseLevel + levelStep } := by
  simp only [advance, Option.bind_eq_bind, Option.bind_eq_some_iff, int_eq_some_iff] at h
  obtain ⟨amplitude, ⟨-, rfl⟩, phaseLevel, ⟨-, rfl⟩, h⟩ := h
  split at h
  · next hend =>
    rw [if_pos hend]
    cases h
    rfl
  · next hgoes =>
    rw [if_neg hgoes]
    cases h
    rfl

/-- A phase goes on until its level has come to one, and the amplitude with it. -/
theorem Sounds.ramp {ampStep levelStep next : Int} (h : e.Sounds) (hpos : 0 < levelStep)
    (hstep : ∀ amplitude phaseLevel, { e with amplitude, phaseLevel }.step =
      { e with amplitude, phaseLevel }.advance ampStep levelStep next)
    (hlt : e.phaseLevel < itoFTYPE 1) :
    ∃ (n : Nat) (e₀ : EnvelopeT), e₀.Sounds ∧ e₀.phase = e.phase ∧
      e.phaseLevel + n * levelStep < itoFTYPE 1 ∧
      itoFTYPE 1 ≤ e.phaseLevel + (n + 1) * levelStep ∧
      e₀.step = some { e with
        amplitude := e.amplitude + (n + 1) * ampStep, phaseLevel := 0, phase := next } := by
  induction hleft : (itoFTYPE 1 - e.phaseLevel).toNat using Nat.strongRecOn generalizing e with
  | _ left ih =>
    obtain ⟨e', he', hsounds⟩ := h.called .step
    have hadvance := hstep e.amplitude e.phaseLevel
    have heq := eq_of_advance (hadvance.symm.trans he')
    by_cases hend : itoFTYPE 1 ≤ e.phaseLevel + levelStep
    · rw [if_pos hend] at heq
      refine ⟨0, e, h, rfl, by omega, by omega, ?_⟩
      rw [Int.natCast_zero, Int.zero_add, Int.one_mul, ← heq]
      exact he'
    · rw [if_neg hend] at heq
      have hstep' : ∀ amplitude phaseLevel, { e' with amplitude, phaseLevel }.step =
          { e' with amplitude, phaseLevel }.advance ampStep levelStep next := by
        rw [heq]
        exact hstep
      have hlevel : e'.phaseLevel = e.phaseLevel + levelStep := by rw [heq]
      obtain ⟨n, e₀, hsounds₀, hphase, hlow, hhigh, hlast⟩ :=
        ih _ (by omega) hsounds hstep' (by omega) rfl
      rw [hlevel] at hlow hhigh
      refine ⟨n + 1, e₀, hsounds₀, hphase.trans (by rw [heq]), ?_, ?_, hlast.trans ?_⟩
      · push_cast
        linarith
      · push_cast
        linarith
      · rw [heq, Option.some.injEq, mk.injEq]
        refine ⟨rfl, rfl, ?_, rfl, rfl, rfl, rfl, rfl, rfl, rfl, rfl, rfl, rfl⟩
        push_cast
        ring

/-- A release of more than two steps ends below zero, where there is something to be heard. -/
theorem Sounds.amplitude_eq_zero (h : e.Sounds) (hs : e.Settled)
    (hlong : 2 * e.releaseLevelStep < itoFTYPE 1) : e.amplitude = 0 := by
  induction hsize : e.amplitude.toNat using Nat.strongRecOn generalizing e with
  | _ size ih =>
    by_contra hne
    have hone := itoFTYPE_one
    have hrelease := hs.release
    have hrange := h.amplitude
    obtain ⟨q, hq, hnonneg, -, hlow, hhigh⟩ :=
      mulFTYPE_neg (r := e.releaseLevelStep) (by omega) hrange
    obtain ⟨e₁, he₁, hsounds₁⟩ := h.called .release
    have heq₁ := Option.some.inj (he₁.symm.trans (release_eq hs))
    rw [hq] at heq₁
    -- one step, after which the level is still below one
    have hphase₁ : e₁.phase = 5 := by rw [heq₁]
    have hlevel₁ : e₁.phaseLevel = 0 := by rw [heq₁]
    have hamp₁ : e₁.amplitude = e.amplitude := by rw [heq₁]
    have hampStep₁ : e₁.releaseAmpStep = -q := by rw [heq₁]
    have hlevelStep₁ : e₁.releaseLevelStep = e.releaseLevelStep := by rw [heq₁]
    have hq₁ : 1 ≤ q := by
      have hpos : 0 < e.releaseLevelStep * e.amplitude := Int.mul_pos hrelease.1 (by omega)
      rw [hone] at hlow
      omega
    have hhalf : 2 * q ≤ e.amplitude + 1 := by
      have hprod : 2 * e.releaseLevelStep * e.amplitude ≤ itoFTYPE 1 * e.amplitude :=
        Int.mul_le_mul_of_nonneg_right (Int.le_of_lt hlong) hrange.1
      rw [Int.mul_assoc, hone] at hprod
      rw [hone] at hhigh
      omega
    have hstep₁ := step_release hphase₁ (by omega) (by omega)
    rw [if_neg (by omega)] at hstep₁
    obtain ⟨e₂, he₂, hsounds₂⟩ := hsounds₁.called .step
    have heq₂ := Option.some.inj (he₂.symm.trans hstep₁)
    have hamp₂ : e₂.amplitude = e.amplitude - q := by
      rw [heq₂]
      show e₁.amplitude + e₁.releaseAmpStep = _
      omega
    have hsettled₂ : e₂.Settled := by
      refine hs.congr ?_
      rw [heq₂, heq₁]
      exact ⟨rfl, rfl, rfl, rfl, rfl⟩
    have hlevelStep₂ : e₂.releaseLevelStep = e.releaseLevelStep := by rw [heq₂, heq₁]
    have hzero := ih _ (by omega) hsounds₂ hsettled₂ (by omega) rfl
    -- the amplitude was one unit, and a second step goes below zero
    have hphase₂ : e₂.phase = 5 := by rw [heq₂, heq₁]
    have hlevel₂ : e₂.phaseLevel = e.releaseLevelStep := by
      rw [heq₂]
      show e₁.phaseLevel + e₁.releaseLevelStep = _
      omega
    have hampStep₂ : e₂.releaseAmpStep = -q := by rw [heq₂, heq₁]
    have hstep₂ := step_release hphase₂ (by omega) (by omega)
    rw [if_neg (by omega)] at hstep₂
    obtain ⟨e₃, he₃, hsounds₃⟩ := hsounds₂.called .step
    have heq₃ := Option.some.inj (he₃.symm.trans hstep₂)
    have hamp₃ : e₃.amplitude = e₂.amplitude + e₂.releaseAmpStep := by rw [heq₃]
    have := hsounds₃.amplitude
    omega

/-- A step that divides what it comes to without going beyond it. -/
theorem dvd_of_ramp {levelStep : Int} {n : Nat} (hle : itoFTYPE 1 ≤ (n + 1) * levelStep)
    (hge : (n + 1) * levelStep ≤ itoFTYPE 1) : levelStep ∣ itoFTYPE 1 :=
  ⟨n + 1, by rw [Int.mul_comm]; omega⟩

/-- Steps that come to what they are to come to divide it. -/
theorem divides_of_decay (hs : env.Settled) {n : Nat}
    (hle : itoFTYPE 1 ≤ (n + 1) * env.decayLevelStep)
    (hend : itoFTYPE 1 + (n + 1) * env.decayStep = env.sustainAmplitude) :
    env.sustainAmplitude = itoFTYPE 1 ∨ env.decayLevelStep ∣ itoFTYPE 1 ∧
      itoFTYPE 1 ∣ env.decayLevelStep * (itoFTYPE 1 - env.sustainAmplitude) := by
  have hone := itoFTYPE_one
  have hdecay := hs.decay
  have hsustain := hs.sustain
  by_cases hfull : env.sustainAmplitude = itoFTYPE 1
  · exact .inl hfull
  right
  obtain ⟨q, hq, hnonneg, -, hlow, -⟩ :=
    mulFTYPE_neg (r := env.decayLevelStep) (a := itoFTYPE 1 - env.sustainAmplitude) (by omega)
      (by omega)
  have hroom : (n + 1) * q = itoFTYPE 1 - env.sustainAmplitude := by
    rw [decayStep, hq] at hend
    linarith
  -- no rounding adds to what is taken away
  have htight : (n + 1) * env.decayLevelStep = itoFTYPE 1 := by
    refine Int.le_antisymm ?_ hle
    have hmul : (n + 1) * env.decayLevelStep * (itoFTYPE 1 - env.sustainAmplitude) ≤
        itoFTYPE 1 * (itoFTYPE 1 - env.sustainAmplitude) := by
      calc (n + 1) * env.decayLevelStep * (itoFTYPE 1 - env.sustainAmplitude)
          = (n + 1) * (env.decayLevelStep * (itoFTYPE 1 - env.sustainAmplitude)) := by ring
        _ ≤ (n + 1) * (q * itoFTYPE 1) := by
          exact Int.mul_le_mul_of_nonneg_left hlow (by omega)
        _ = itoFTYPE 1 * (itoFTYPE 1 - env.sustainAmplitude) := by rw [← hroom]; ring
    exact le_of_mul_le_mul_right hmul (by omega)
  refine ⟨⟨n + 1, by rw [Int.mul_comm]; exact htight.symm⟩, q, ?_⟩
  have hcancel : (n + 1 : Int) * (env.decayLevelStep * (itoFTYPE 1 - env.sustainAmplitude)) =
      (n + 1) * (itoFTYPE 1 * q) := by
    calc (n + 1 : Int) * (env.decayLevelStep * (itoFTYPE 1 - env.sustainAmplitude))
        = (n + 1) * env.decayLevelStep * (itoFTYPE 1 - env.sustainAmplitude) := by ring
      _ = (n + 1) * (itoFTYPE 1 * q) := by rw [htight, ← hroom]; ring
  exact mul_left_cancel₀ (by omega) hcancel

/-- Without attack, hold and decay only the release matters. -/
theorem Sounds.divides_of_skips (hs : env.Settled) (h : env.Sounds) (hskips : env.Skips) :
    env.Divides := by
  obtain ⟨e, he, hsounds⟩ := h.called .hold
  have heq := Option.some.inj (he.symm.trans (hold_eq hs))
  refine ⟨?_, .inr ⟨?_, ?_⟩, ?_⟩
  · rw [hskips.1]
  · rw [hskips.2.2]
  · rw [hskips.2.2]
    exact Int.dvd_mul_right ..
  · by_cases hlong : itoFTYPE 1 ≤ 2 * env.releaseLevelStep
    · exact .inl hlong
    · right
      have hsettled : e.Settled := hs.congr (by rw [heq]; exact ⟨rfl, rfl, rfl, rfl, rfl⟩)
      have hshort : 2 * env.releaseLevelStep < itoFTYPE 1 := by omega
      have hzero := hsounds.amplitude_eq_zero hsettled (by rw [heq]; exact hshort)
      rw [heq] at hzero
      exact ⟨hskips, (if_pos hskips).symm.trans hzero⟩

/-- A generator that sounds as it is expected to has settings that divide. -/
theorem Sounds.divides (hs : env.Settled) (h : env.Sounds) : env.Divides := by
  have hone := itoFTYPE_one
  obtain ⟨e, he, hsounds⟩ := h.called .hold
  have heq := Option.some.inj (he.symm.trans (hold_eq hs))
  by_cases hskips : env.Skips
  · exact h.divides_of_skips hs hskips
  · rw [if_neg hskips, if_neg hskips] at heq
    have hphase : e.phase = 1 := by rw [heq]
    have hlevel : e.phaseLevel = 0 := by rw [heq]
    have hamp : e.amplitude = 0 := by rw [heq]
    have hampStep : e.attackAmpStep = env.attackLevelStep := by rw [heq]
    have hdecayStep : e.decayAmpStep = env.decayStep := by rw [heq, decayStep]
    have hsame : SameSettings env e := by
      rw [heq]
      exact ⟨rfl, rfl, rfl, rfl, rfl⟩
    have hsettled := hs.congr hsame
    -- the attack
    obtain ⟨n, e₀, hsounds₀, -, -, hle, hlast⟩ := hsounds.ramp hsettled.attack.1
      (fun _ _ ↦ step_attack hphase) (by omega)
    have hsounds₁ := hsounds₀.stepped hlast
    have hamp₁ : 0 ≤ e.amplitude + (n + 1) * e.attackAmpStep ∧
      e.amplitude + (n + 1) * e.attackAmpStep ≤ itoFTYPE 1 := hsounds₁.amplitude
    rw [hlevel, Int.zero_add, hsame.attack] at hle
    rw [hamp, Int.zero_add, hampStep] at hamp₁
    have hfull : e.amplitude + (n + 1) * e.attackAmpStep = itoFTYPE 1 := by
      rw [hamp, Int.zero_add, hampStep]
      exact Int.le_antisymm hamp₁.2 hle
    rw [hfull] at hsounds₁
    -- the hold phase
    obtain ⟨n', e₀', hsounds₀', -, -, -, hlast'⟩ := hsounds₁.ramp hsettled.hold.1
      (fun _ _ ↦ step_hold rfl) (by decide : (0 : Int) < itoFTYPE 1)
    have hsounds₂ := hsounds₀'.stepped hlast'
    rw [Int.mul_zero, Int.add_zero] at hsounds₂
    -- the decay
    obtain ⟨m, e₀'', hsounds₀'', hphase'', -, hle'', hlast''⟩ := hsounds₂.ramp hsettled.decay.1
      (fun _ _ ↦ step_decay rfl) (by decide : (0 : Int) < itoFTYPE 1)
    have hnot : e₀''.phase ≠ 4 := hphase''.trans_ne (by decide : (3 : Int) ≠ 4)
    have hend : itoFTYPE 1 + (m + 1) * e.decayAmpStep = e.sustainAmplitude :=
      hsounds₀''.sustains [] .step _ _ rfl hlast'' rfl (.inl hnot)
    rw [hdecayStep, hsame.sustain] at hend
    have hreach : itoFTYPE 1 ≤ 0 + (m + 1) * e.decayLevelStep := hle''
    rw [Int.zero_add, hsame.decay] at hreach
    refine ⟨dvd_of_ramp hle hamp₁.2, divides_of_decay hs hreach hend, .inl ?_⟩
    by_contra hlong
    have hshort : 2 * e.releaseLevelStep < itoFTYPE 1 := by
      rw [hsame.release]
      omega
    have hzero := hsounds₁.amplitude_eq_zero (hsettled.congr ⟨rfl, rfl, rfl, rfl, rfl⟩) hshort
    exact absurd hzero (by decide : itoFTYPE 1 ≠ 0)

/-! ## Settings by times -/

theorem levelStep_lt (env : EnvelopeT) (seconds : Int) : env.levelStep seconds < 2 ^ 31 := by
  rw [levelStep]
  split
  · decide
  · exact (toInt32_fits _).2

section

variable {inverse : Int → Int} {fs attack hold decay release sustain : Int}

theorem settled_configured
    (hpos : 0 < (configured inverse fs attack hold decay release sustain env).attackLevelStep ∧
      0 < (configured inverse fs attack hold decay release sustain env).holdLevelStep ∧
      0 < (configured inverse fs attack hold decay release sustain env).decayLevelStep ∧
      0 < (configured inverse fs attack hold decay release sustain env).releaseLevelStep)
    (hsustain : 0 ≤ sustain ∧ sustain ≤ itoFTYPE 1) :
    (configured inverse fs attack hold decay release sustain env).Settled :=
  ⟨⟨hpos.1, levelStep_lt _ attack⟩, ⟨hpos.2.1, levelStep_lt _ hold⟩,
    ⟨hpos.2.2.1, levelStep_lt _ decay⟩, ⟨hpos.2.2.2, levelStep_lt _ release⟩, hsustain⟩

/-- A generator sounds as it is expected to in every run from `envelope_reset` exactly if its
settings divide. -/
theorem sounds_iff
    (hpos : 0 < (configured inverse fs attack hold decay release sustain env).attackLevelStep ∧
      0 < (configured inverse fs attack hold decay release sustain env).holdLevelStep ∧
      0 < (configured inverse fs attack hold decay release sustain env).decayLevelStep ∧
      0 < (configured inverse fs attack hold decay release sustain env).releaseLevelStep)
    (hsustain : 0 ≤ sustain ∧ sustain ≤ itoFTYPE 1) :
    (configured inverse fs attack hold decay release sustain env).Sounds ↔
      (configured inverse fs attack hold decay release sustain env).Divides := by
  have hs := settled_configured hpos hsustain
  exact ⟨fun h ↦ h.divides hs, fun hd ↦ Inv.sounds hs hd (.silent rfl rfl)⟩

end

/-- A generator nothing has been done with yet. -/
def fresh : EnvelopeT := ⟨0, 0, 0, 0, 0, 0, 0, 0, 0, 0, 0, 0, 0⟩

/-- Four samples a second, phases of one second and a sustain level of a half. -/
theorem sounds_seconds :
    (configured (2 ^ 24 / ·) 4 (itoFTYPE 1) 0 (itoFTYPE 1) 0 (2 ^ 23) fresh).Sounds :=
  (sounds_iff (by decide) (by decide)).mpr ⟨by decide, by decide, by decide⟩

/-- An attack of three samples at 44100 samples a second goes beyond one in its fourth step. -/
theorem attack_overshoots :
    let env := configured (2 ^ 24 / ·) 44100 1141 0 0 0 (itoFTYPE 1) fresh
    (0 < env.attackLevelStep ∧ 0 < env.holdLevelStep ∧ 0 < env.decayLevelStep ∧
      0 < env.releaseLevelStep) ∧
    ∃ e, env.run [.hold, .step, .step, .step, .step] = some e ∧ itoFTYPE 1 < e.amplitude := by
  exact ⟨by decide, _, rfl, by decide⟩

end EnvelopeT

end Vuknob
