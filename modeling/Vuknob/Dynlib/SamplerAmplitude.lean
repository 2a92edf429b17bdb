import Vuknob.Dynlib.SamplerVoices

/-!
# The amplitudes of the sampler

The voices of `src_jni/dynlib/sampler.c` with the amplitude that ends a note that has been released.
What is calculated in floating point is taken as it comes. The filter is left out; it has no part in
when a voice is active.
-/

namespace Vuknob

open Library

/-- The first three bytes of a MIDI event. -/
structure NoteMessage extends VoiceMessage where
  velocity : UInt8

/-- What `execute` calculates for a note, from its velocity: the counts of the phases, the steps of
the amplitude, and `mulFTYPE(velocity, volume)`. `F` is `FTYPE`. -/
structure Levels (F : Type) where
  amplitude : UInt8 → F
  attackSteps : Int
  attackStep : UInt8 → F
  holdSteps : Int
  decaySteps : Int
  decayStep : UInt8 → F
  releaseSteps : UInt8 → Int
  releaseStep : UInt8 → F → F

/-- `note_t`, `src_jni/dynlib/sampler.c:52–78`. -/
structure AmpNote (F : Type) extends Voice Int where
  noteOn : Bool
  ampPhase : Nat
  amplitude : F
  ampAttackSteps : Int
  ampAttackStep : F
  ampHoldSteps : Int
  ampDecaySteps : Int
  ampDecayStep : F
  ampReleaseSteps : Int
  ampReleaseStep : F

namespace AmpNote

variable {F : Type}

/-- A note begins, `src_jni/dynlib/sampler.c:344–413`. -/
def start [Zero F] (tuning : Tuning) (levels : Levels F) (m : SampleMemory) (program : Int)
    (e : NoteMessage) (n : AmpNote F) : AmpNote F :=
  let sample := m.getSignal program
  let n := { n with
    toVoice := n.toVoice.start program e.data sample (Sampler.tStep tuning e.data)
    noteOn := true
    amplitude := levels.amplitude e.velocity }
  if sample.isSome then
    { n with
      ampPhase := 0
      amplitude := 0
      ampAttackSteps := levels.attackSteps
      ampAttackStep := levels.attackStep e.velocity
      ampHoldSteps := levels.holdSteps
      ampDecaySteps := levels.decaySteps
      ampDecayStep := levels.decayStep e.velocity }
  else n

/-- A note is released, `src_jni/dynlib/sampler.c:434–442`. -/
def release (levels : Levels F) (velocity : UInt8) (n : AmpNote F) : AmpNote F :=
  { n with
    noteOn := false
    ampPhase := 4
    ampReleaseSteps := levels.releaseSteps velocity
    ampReleaseStep := levels.releaseStep velocity n.amplitude }

variable [Zero F] [Add F] [Sub F] [LT F] [DecidableLT F]

/-- The release phase, `src_jni/dynlib/sampler.c:492–504`. -/
def stepRelease (n : AmpNote F) : AmpNote F :=
  let n := { n with amplitude := n.amplitude - n.ampReleaseStep }
  let n := if n.amplitude < 0 then { n with ampReleaseStep := 0, ampReleaseSteps := 0 } else n
  let n := { n with ampReleaseSteps := n.ampReleaseSteps - 1 }
  if n.ampReleaseSteps < 0 then { n with amplitude := 0, active := false } else n

/-- The amplitude parameters, `src_jni/dynlib/sampler.c:463–506`. -/
def stepAmplitude (n : AmpNote F) : AmpNote F :=
  match n.ampPhase with
  | 0 =>
    let n := { n with
      amplitude := n.amplitude + n.ampAttackStep, ampAttackSteps := n.ampAttackSteps - 1 }
    if n.ampAttackSteps < 0 then { n with ampPhase := 1 } else n
  | 1 =>
    let n := { n with ampHoldSteps := n.ampHoldSteps - 1 }
    if n.ampHoldSteps < 0 then { n with ampPhase := 2 } else n
  | 2 =>
    let n := { n with
      amplitude := n.amplitude - n.ampDecayStep, ampDecaySteps := n.ampDecaySteps - 1 }
    if n.ampDecaySteps < 0 then { n with ampPhase := 3 } else n
  | 4 => n.stepRelease
  | _ => n

/-- A voice in the loop over the active notes, `src_jni/dynlib/sampler.c:459–629`. -/
def render (n : AmpNote F) : List SampleRead × AmpNote F :=
  if n.active && n.data.isSome then
    let stepped := n.stepAmplitude
    let (reads, voice) := n.toVoice.render (!stepped.active)
    (reads, { stepped with toVoice := voice })
  else ([], n)

end AmpNote

/-- `sampler_t`, `src_jni/dynlib/sampler.c:98–111`. -/
structure AmpSampler (F : Type) where
  midiChannel : Int
  program : Int
  note : Fin 12 → AmpNote F

namespace AmpSampler

variable {F : Type}

/-- `init`. -/
def init [Zero F] : AmpSampler F := ⟨0, 0, fun _ ↦ ⟨.unused 0, false, 0, 0, 0, 0, 0, 0, 0, 0, 0⟩⟩

/-- `src_jni/dynlib/sampler.c:326–418`. -/
def startNote [Zero F] (tuning : Tuning) (levels : Levels F) (m : SampleMemory) (e : NoteMessage)
    (x : AmpSampler F) : AmpSampler F :=
  match (List.finRange 12).find? fun k ↦ !(x.note k).active with
  | none => x
  | some k =>
    { x with note := Function.update x.note k ((x.note k).start tuning levels m x.program e) }

/-- `src_jni/dynlib/sampler.c:426–452`. -/
def stopNote (levels : Levels F) (e : NoteMessage) (x : AmpSampler F) : AmpSampler F :=
  match (List.finRange 12).find? fun k ↦
      (x.note k).active && (x.note k).note = e.data && (x.note k).noteOn with
  | none => x
  | some k => { x with note := Function.update x.note k ((x.note k).release levels e.velocity) }

/-- The events of a sample of the output, `src_jni/dynlib/sampler.c:309–453`. An event is of one
kind. -/
def receive [Zero F] (tuning : Tuning) (levels : Levels F) (m : SampleMemory)
    (event : Option NoteMessage) (x : AmpSampler F) : AmpSampler F :=
  match event with
  | none => x
  | some e =>
    if e.is midiProgramChange x.midiChannel then { x with program := e.data.toNat }
    else if e.is midiNoteOn x.midiChannel then x.startNote tuning levels m e
    else if e.is midiNoteOff x.midiChannel then x.stopNote levels e
    else x

/-- `src_jni/dynlib/sampler.c:296–301`. -/
def refresh (m : SampleMemory) (x : AmpSampler F) : AmpSampler F :=
  { x with note := fun k ↦ { x.note k with toVoice := (x.note k).refresh m (x.note k).i } }

/-- `reset`. -/
def reset (x : AmpSampler F) : AmpSampler F :=
  { x with note := fun k ↦ { x.note k with active := false } }

variable [Zero F] [Add F] [Sub F] [LT F] [DecidableLT F]

/-- A round of the loop over the samples of the output. -/
def outputSample (tuning : Tuning) (levels : Levels F) (m : SampleMemory) (x : AmpSampler F)
    (event : Option NoteMessage) : List SampleRead × AmpSampler F :=
  let x := x.receive tuning levels m event
  ((List.finRange 12).flatMap fun k ↦ (x.note k).render.1,
    { x with note := fun k ↦ (x.note k).render.2 })

/-- `execute`, with what it reads. -/
def execute (tuning : Tuning) (levels : Levels F) (m : SampleMemory)
    (events : List (Option NoteMessage)) (x : AmpSampler F) : List SampleRead × AmpSampler F :=
  runLogged (outputSample tuning levels m) (x.refresh m) events

end AmpSampler

/-! ## Without the amplitudes -/

/-- A voice that has no signal is passed over. -/
theorem Voice.render_of_silent {ι : Type} {v : Voice ι} (h : v.active = false ∨ v.data = none)
    (ends : Bool) : v.render ends = ([], v) := by
  rw [Voice.render]
  split
  · next hactive hdata =>
    rcases h with h | h
    · rw [h] at hactive
      cases hactive
    · rw [h] at hdata
      cases hdata
  · rfl

namespace AmpNote

variable {F : Type}

/-- The note without its amplitude. -/
def toNote (n : AmpNote F) : SamplerNote :=
  { toVoice := n.toVoice, noteOn := n.noteOn, released := n.ampPhase = 4 }

theorem toNote_start [Zero F] (tuning : Tuning) (levels : Levels F) (m : SampleMemory)
    (program : Int) (e : NoteMessage) (n : AmpNote F) :
    (n.start tuning levels m program e).toNote =
      { toVoice := n.toVoice.start program e.data (m.getSignal program) (Sampler.tStep tuning e.data)
        noteOn := true
        released := (m.getSignal program).isNone && n.toNote.released } := by
  rw [start]
  cases m.getSignal program with
  | none => rfl
  | some found => rfl

variable [Zero F] [Add F] [Sub F] [LT F] [DecidableLT F]

omit [Add F] in
theorem stepRelease_frame (n : AmpNote F) :
    n.stepRelease.noteOn = n.noteOn ∧ n.stepRelease.ampPhase = n.ampPhase := by
  rw [stepRelease]
  dsimp only
  split <;> split <;> exact ⟨rfl, rfl⟩

theorem stepAmplitude_of_released {n : AmpNote F} (h : n.ampPhase = 4) :
    n.stepAmplitude = n.stepRelease := by
  rw [stepAmplitude, h]
  rfl

/-- A note comes to the release phase, and ends there, only when it is released. -/
theorem stepAmplitude_frame (n : AmpNote F) : n.stepAmplitude.noteOn = n.noteOn ∧
    (n.stepAmplitude.ampPhase = 4 ↔ n.ampPhase = 4) ∧
    (n.ampPhase ≠ 4 → n.stepAmplitude.active = n.active) := by
  rw [stepAmplitude]
  split
  case h_4 hphase =>
    obtain ⟨hnoteOn, hsame⟩ := n.stepRelease_frame
    exact ⟨hnoteOn, by rw [hsame], fun hne ↦ absurd hphase hne⟩
  case h_5 => exact ⟨rfl, Iff.rfl, fun _ ↦ rfl⟩
  all_goals
    next hphase =>
    dsimp only
    split
    · exact ⟨rfl, by simp [hphase], fun _ ↦ rfl⟩
    · exact ⟨rfl, Iff.rfl, fun _ ↦ rfl⟩

/-- The note ends in this sample because it has been released. -/
def ends (n : AmpNote F) : Bool := !n.stepAmplitude.active

theorem render_of_silent {n : AmpNote F} (h : n.active = false ∨ n.data = none) :
    n.render = ([], n) := by
  have hcondition : (n.active && n.data.isSome) = false := by
    rcases h with h | h <;> simp [h]
  rw [render, hcondition]
  rfl

theorem render_of_active {n : AmpNote F} (hactive : n.active = true) (hdata : n.data ≠ none) :
    n.render = ((n.toVoice.render n.ends).1,
      { n.stepAmplitude with toVoice := (n.toVoice.render n.ends).2 }) := by
  have hcondition : (n.active && n.data.isSome) = true := by
    rw [hactive, Option.isSome_iff_ne_none.mpr hdata]
    rfl
  rw [render, if_pos hcondition]
  rfl

theorem toNote_render (n : AmpNote F) :
    n.toNote.render (n.toNote.released && n.ends) = (n.render.1, n.render.2.toVoice) ∧
      n.render.2.toNote = { n.toNote with toVoice := n.render.2.toVoice } := by
  by_cases hsilent : n.active = false ∨ n.data = none
  · rw [render_of_silent hsilent]
    exact ⟨Voice.render_of_silent hsilent _, rfl⟩
  · obtain ⟨hactive, hdata⟩ := not_or.mp hsilent
    have hactive : n.active = true := Bool.eq_true_of_not_eq_false hactive
    obtain ⟨hnoteOn, hphase, hsame⟩ := n.stepAmplitude_frame
    have hends : (n.toNote.released && n.ends) = n.ends := by
      by_cases h4 : n.ampPhase = 4
      · have hreleased : n.toNote.released = true := decide_eq_true h4
        rw [hreleased, Bool.true_and]
      · have hnever : n.ends = false := by rw [ends, hsame h4, hactive]; rfl
        rw [hnever, Bool.and_false]
    rw [hends, render_of_active hactive hdata]
    refine ⟨rfl, ?_⟩
    rw [toNote, toNote, hnoteOn]
    simp only [hphase]

end AmpNote

namespace AmpSampler

variable {F : Type}

/-- The sampler without its amplitudes. -/
def toSampler (x : AmpSampler F) : Sampler := ⟨x.midiChannel, x.program, fun k ↦ (x.note k).toNote⟩

theorem toSampler_update (x : AmpSampler F) (k : Fin 12) (n : AmpNote F) :
    toSampler { x with note := Function.update x.note k n } =
      { x.toSampler with note := Function.update x.toSampler.note k n.toNote } := by
  rw [toSampler]
  congr 1
  exact funext fun j ↦ Function.apply_update (fun _ ↦ AmpNote.toNote) x.note k n j

theorem toSampler_refresh (m : SampleMemory) (x : AmpSampler F) :
    (x.refresh m).toSampler = x.toSampler.refresh m := rfl

theorem toSampler_stopNote (levels : Levels F) (e : NoteMessage) (x : AmpSampler F) :
    (x.stopNote levels e).toSampler = x.toSampler.stopNote e.data := by
  rw [stopNote, Sampler.stopNote]
  cases hk : (List.finRange 12).find? fun k ↦
      (x.note k).active && (x.note k).note = e.data && (x.note k).noteOn with
  | none =>
    have hk' : ((List.finRange 12).find? fun k ↦ (x.toSampler.note k).active &&
      (x.toSampler.note k).note = e.data && (x.toSampler.note k).noteOn) = none := hk
    rw [hk']
  | some k =>
    have hk' : ((List.finRange 12).find? fun k ↦ (x.toSampler.note k).active &&
      (x.toSampler.note k).note = e.data && (x.toSampler.note k).noteOn) = some k := hk
    rw [hk']
    exact x.toSampler_update k _

variable [Zero F]

theorem toSampler_startNote (tuning : Tuning) (levels : Levels F) (m : SampleMemory)
    (e : NoteMessage) (x : AmpSampler F) : (x.startNote tuning levels m e).toSampler =
      x.toSampler.startNote tuning m e.data := by
  rw [startNote, Sampler.startNote]
  cases hk : (List.finRange 12).find? fun k ↦ !(x.note k).active with
  | none =>
    have hk' : ((List.finRange 12).find? fun k ↦ !(x.toSampler.note k).active) = none := hk
    rw [hk']
  | some k =>
    have hk' : ((List.finRange 12).find? fun k ↦ !(x.toSampler.note k).active) = some k := hk
    rw [hk']
    refine (x.toSampler_update k _).trans ?_
    rw [AmpNote.toNote_start]
    rfl

theorem toSampler_receive (tuning : Tuning) (levels : Levels F) (m : SampleMemory)
    (event : Option NoteMessage) (x : AmpSampler F) : (x.receive tuning levels m event).toSampler =
      x.toSampler.receive tuning m (event.map (·.toVoiceMessage)) := by
  cases event with
  | none => rfl
  | some e =>
    have hchannel : x.toSampler.midiChannel = x.midiChannel := rfl
    dsimp only [receive, Sampler.receive, Option.map_some]
    rw [hchannel]
    split
    · rfl
    · split
      · exact x.toSampler_startNote tuning levels m e
      · split
        · exact x.toSampler_stopNote levels e
        · rfl

variable [Add F] [Sub F] [LT F] [DecidableLT F]

/-- The notes that end in a sample of the output. -/
def ended (tuning : Tuning) (levels : Levels F) (m : SampleMemory) (event : Option NoteMessage)
    (x : AmpSampler F) (k : Fin 12) : Bool := ((x.receive tuning levels m event).note k).ends

/-- A sample of the output is that of the sampler without amplitudes that is told which notes
end. -/
theorem toSampler_outputSample (tuning : Tuning) (levels : Levels F) (m : SampleMemory)
    (event : Option NoteMessage) (x : AmpSampler F) :
    x.toSampler.outputSample tuning m
        ⟨event.map (·.toVoiceMessage), x.ended tuning levels m event⟩ =
      ((x.outputSample tuning levels m event).1,
        (x.outputSample tuning levels m event).2.toSampler) := by
  rw [Sampler.outputSample, ← toSampler_receive tuning levels]
  have hrender (k : Fin 12) := ((x.receive tuning levels m event).note k).toNote_render
  refine Prod.ext (List.flatMap_congr fun k _ ↦ congrArg Prod.fst (hrender k).1) ?_
  refine congrArg (Sampler.mk _ _) (funext fun k ↦ ?_)
  refine Eq.trans ?_ (hrender k).2.symm
  exact congrArg (fun voice ↦ { ((x.receive tuning levels m event).note k).toNote with
    toVoice := voice }) (congrArg Prod.snd (hrender k).1)

/-- A buffer is that of the sampler without amplitudes, for some notes that end. -/
theorem toSampler_execute (tuning : Tuning) (levels : Levels F) (m : SampleMemory)
    (events : List (Option NoteMessage)) (x : AmpSampler F) :
    ∃ inputs : List SamplerInput,
      inputs.map (·.event) = events.map (Option.map (·.toVoiceMessage)) ∧
      x.toSampler.execute tuning m inputs = ((x.execute tuning levels m events).1,
        (x.execute tuning levels m events).2.toSampler) := by
  simp only [Sampler.execute, execute, ← toSampler_refresh]
  generalize x.refresh m = y
  induction events generalizing y with
  | nil => exact ⟨[], rfl, rfl⟩
  | cons event events ih =>
    obtain ⟨inputs, hevents, hrest⟩ := ih (y.outputSample tuning levels m event).2
    refine ⟨⟨event.map (·.toVoiceMessage), y.ended tuning levels m event⟩ :: inputs, ?_, ?_⟩
    · rw [List.map_cons, List.map_cons, hevents]
    · rw [runLogged, runLogged, toSampler_outputSample]
      dsimp only
      rw [hrest]

end AmpSampler

end Vuknob
