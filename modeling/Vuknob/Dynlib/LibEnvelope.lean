import Vuknob.Base.FixedPoint

/-!
# Envelope generators

`src_jni/dynlib/libenvelope.c` in the fixed-point build. The amplitude of a voice goes through the
phases attack, hold, decay, sustain and release. `phase_level` goes from zero to one in each of
them, by a step that depends on the time the phase takes.
-/

namespace Vuknob

/-- `envelope_t`, less `amplitude_mem`, which only `envelope_get_sample` uses, and
`phase_modulation_depth`, which nothing does. -/
structure EnvelopeT where
  fs : Int
  fsI : Int
  amplitude : Int
  phase : Int
  phaseLevel : Int
  attackLevelStep : Int
  holdLevelStep : Int
  decayLevelStep : Int
  releaseLevelStep : Int
  attackAmpStep : Int
  decayAmpStep : Int
  releaseAmpStep : Int
  sustainAmplitude : Int
  deriving DecidableEq

namespace EnvelopeT

/-- `envelope_reset`. -/
def reset (env : EnvelopeT) : EnvelopeT :=
  { env with amplitude := itoFTYPE 0, phase := 0, phaseLevel := itoFTYPE 0 }

/-- `envelope_init`. `inverse` is what `ftoFTYPE(1.0f / (float)Fs)` is. -/
def init (inverse : Int → Int) (fs : Int) (env : EnvelopeT) : EnvelopeT :=
  if env.fs ≠ fs then { env with fs, fsI := inverse fs }.reset else env

/-- The level step of a phase that takes a time. A step of one is that of a phase to be skipped. -/
def levelStep (env : EnvelopeT) (seconds : Int) : Int :=
  if seconds = itoFTYPE 0 then itoFTYPE 1 else divFTYPE env.fsI seconds

/-- `envelope_set_attack`. -/
def setAttack (seconds : Int) (env : EnvelopeT) : EnvelopeT :=
  { env with attackLevelStep := env.levelStep seconds }

/-- `envelope_set_hold`. -/
def setHold (seconds : Int) (env : EnvelopeT) : EnvelopeT :=
  { env with holdLevelStep := env.levelStep seconds }

/-- `envelope_set_decay`. -/
def setDecay (seconds : Int) (env : EnvelopeT) : EnvelopeT :=
  { env with decayLevelStep := env.levelStep seconds }

/-- `envelope_set_release`. -/
def setRelease (seconds : Int) (env : EnvelopeT) : EnvelopeT :=
  { env with releaseLevelStep := env.levelStep seconds }

/-- `envelope_set_sustain`. -/
def setSustain (amplitude : Int) (env : EnvelopeT) : EnvelopeT :=
  { env with sustainAmplitude := amplitude }

/-- `envelope_hold`. -/
def hold (env : EnvelopeT) : Option EnvelopeT := do
  let decayAmpStep ← int (-env.decayLevelStep)
  let room ← int (itoFTYPE 1 - env.sustainAmplitude)
  let env := { env with
    attackAmpStep := env.attackLevelStep
    decayAmpStep := mulFTYPE decayAmpStep room
    amplitude := itoFTYPE 0
    phaseLevel := itoFTYPE 0 }
  if env.attackLevelStep = itoFTYPE 1 ∧ env.holdLevelStep = itoFTYPE 1 ∧
      env.decayLevelStep = itoFTYPE 1 then
    return { env with phase := 4, amplitude := env.sustainAmplitude }
  return { env with phase := 1 }

/-- `envelope_release`. -/
def release (env : EnvelopeT) : Option EnvelopeT := do
  let releaseAmpStep ← int (-env.releaseLevelStep)
  return { env with
    phase := 5
    phaseLevel := itoFTYPE 0
    releaseAmpStep := mulFTYPE releaseAmpStep env.amplitude }

/-- A phase in `envelope_step`: both the amplitude and the level go on, and the next phase follows
when the level has come to one. -/
def advance (ampStep levelStep next : Int) (env : EnvelopeT) : Option EnvelopeT := do
  let amplitude ← int (env.amplitude + ampStep)
  let phaseLevel ← int (env.phaseLevel + levelStep)
  if itoFTYPE 1 ≤ phaseLevel then
    return { env with amplitude, phaseLevel := itoFTYPE 0, phase := next }
  return { env with amplitude, phaseLevel }

/-- `envelope_step`. In the hold phase the amplitude stays, and it is zero after the release. -/
def step (env : EnvelopeT) : Option EnvelopeT :=
  match env.phase with
  | 1 => env.advance env.attackAmpStep env.attackLevelStep 2
  | 2 => env.advance 0 env.holdLevelStep 3
  | 3 => env.advance env.decayAmpStep env.decayLevelStep 4
  | 5 => do
    let env ← env.advance env.releaseAmpStep env.releaseLevelStep 0
    return if env.phase = 0 then { env with amplitude := itoFTYPE 0 } else env
  | _ => some env

/-- A generator whose settings have been made, after `envelope_reset`. -/
def configured (inverse : Int → Int) (fs attack hold decay release sustain : Int)
    (env : EnvelopeT) : EnvelopeT :=
  let env := ((env.init inverse fs).setAttack attack).setHold hold
  (((env.setDecay decay).setRelease release).setSustain sustain).reset

/-- The calls that are made while a voice plays. -/
inductive Call
  | hold
  | release
  | step
  deriving DecidableEq

/-- One call. -/
def call (env : EnvelopeT) : Call → Option EnvelopeT
  | .hold => env.hold
  | .release => env.release
  | .step => env.step

/-- One call after the other. -/
def run (env : EnvelopeT) (calls : List Call) : Option EnvelopeT :=
  calls.foldlM call env

end EnvelopeT

end Vuknob
