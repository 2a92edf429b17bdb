import Vuknob.Dynlib.SamplerAmplitude
import Vuknob.Dynlib.VoiceReads
import Vuknob.Library.Countdown

/-!
# How long the voices of the sampler are active

A voice is made inactive in the loop over the active notes, by the count of its release or at the end
of its sample. The loop passes over a voice that has no signal.
-/

namespace Vuknob

open Library

/-- A sampler with the signals. `left` samples of the buffer are still to come. -/
structure SamplerSession (F : Type) where
  memory : SampleMemory
  sampler : AmpSampler F
  left : Nat

/-- What may happen: a buffer begins, a sample of it is put out, or something between buffers. -/
inductive SamplerCommand (F : Type)
  | begin (samples : Nat)
  | output (tuning : Tuning) (levels : Levels F) (event : Option NoteMessage)
  | setMidiChannel (channel : Int)
  | setProgram (program : Int)
  | reset
  | signals (change : SampleChange)

/-- A sample is rendered. -/
def SamplerCommand.isOutput {F : Type} : SamplerCommand F → Bool
  | .output .. => true
  | _ => false

/-! ## One voice -/

namespace AmpNote

variable {F : Type} {n : AmpNote F}

/-- An active voice has a signal, and is in the release phase exactly when it has been released. -/
def Sound (n : AmpNote F) : Prop :=
  n.active = true → n.data ≠ none ∧ (n.ampPhase = 4 ↔ n.noteOn = false)

/-- The release takes no more than so many samples of the output and one. -/
def ReleasedIn (samples : Nat) (n : AmpNote F) : Prop :=
  n.ampPhase = 4 ∧ n.ampReleaseSteps ≤ samples

/-- The sample takes no more than so many samples of the output and one. -/
def EndsIn (samples : Nat) (n : AmpNote F) : Prop :=
  n.tMax.toNat ≤ n.t.toNat + (samples + 1) * n.tStep.toNat

/-- The next step of the time does not overflow. -/
def Unwrapped (n : AmpNote F) : Prop := n.t.toNat + n.tStep.toNat < 2 ^ 32

theorem sound_start [Zero F] (tuning : Tuning) (levels : Levels F) (m : SampleMemory) (program : Int)
    (e : NoteMessage) (n : AmpNote F) : (n.start tuning levels m program e).Sound := by
  rw [start]
  cases m.getSignal program with
  | none => exact fun hactive ↦ absurd hactive Bool.false_ne_true
  | some found =>
    rw [Option.isSome_some, if_pos rfl]
    exact fun _ ↦ ⟨Option.some_ne_none _, iff_of_false (by simp) (by simp)⟩

theorem noteOn_start [Zero F] (tuning : Tuning) (levels : Levels F) (m : SampleMemory)
    (program : Int) (e : NoteMessage) (n : AmpNote F) :
    (n.start tuning levels m program e).noteOn = true := by
  rw [start]
  dsimp only
  split <;> rfl

theorem Sound.release (h : n.Sound) (levels : Levels F) (velocity : UInt8) :
    (n.release levels velocity).Sound :=
  fun hactive ↦ ⟨(h hactive).1, fun _ ↦ rfl, fun _ ↦ rfl⟩

variable [Zero F] [Add F] [Sub F] [LT F] [DecidableLT F]

/-- What a sample of the output does to a voice that it leaves active. -/
theorem render_active (h : n.render.2.active = true) (hdata : n.data ≠ none) : n.active = true ∧
    n.ends = false ∧ n.t + n.tStep < n.tMax ∧
    n.render.2 = { n.stepAmplitude with
      toVoice := { n.toVoice with t := n.t + n.tStep, active := true } } := by
  by_cases hactive : n.active = true
  · rw [render_of_active hactive hdata] at h ⊢
    obtain ⟨a, ha⟩ := Option.ne_none_iff_exists'.mp hdata
    have hrender : (n.toVoice.render n.ends).2 =
        { n.toVoice with t := n.t + n.tStep, active := !n.ends && n.t + n.tStep < n.tMax } := by
      rw [Voice.render]
      split
      · rfl
      · next hnot => exact absurd ha (hnot a hactive)
    rw [hrender] at h ⊢
    have hgoes : (!n.ends && decide (n.t + n.tStep < n.tMax)) = true := h
    obtain ⟨hends, hbefore⟩ := Bool.and_eq_true_iff.mp hgoes
    rw [hgoes]
    exact ⟨hactive, Bool.not_eq_true' _ ▸ hends, of_decide_eq_true hbefore, rfl⟩
  · rw [render_of_silent (.inl (Bool.eq_false_iff.mpr hactive))] at h
    exact absurd h hactive

theorem Sound.render (h : n.Sound) : n.render.2.Sound := by
  intro hactive
  by_cases hsilent : n.active = false
  · rw [render_of_silent (.inl hsilent)] at hactive ⊢
    exact h hactive
  · have hsound := h (Bool.eq_true_of_not_eq_false hsilent)
    obtain ⟨-, -, -, heq⟩ := render_active hactive hsound.1
    obtain ⟨hnoteOn, hphase, -⟩ := n.stepAmplitude_frame
    rw [heq]
    refine ⟨hsound.1, ?_⟩
    dsimp only
    rw [hnoteOn, hphase]
    exact hsound.2

omit [Add F] in
/-- The count goes down by one for each sample of the output, and below zero it ends the note. -/
theorem stepRelease_count (hgoes : n.stepRelease.active = true) :
    0 ≤ n.stepRelease.ampReleaseSteps ∧ n.stepRelease.ampReleaseSteps ≤ n.ampReleaseSteps - 1 := by
  by_cases hnegative : n.amplitude - n.ampReleaseStep < 0
  · have hends : n.stepRelease.active = false := by
      rw [stepRelease, if_pos hnegative]
      rfl
    rw [hends] at hgoes
    cases hgoes
  · by_cases hcount : n.ampReleaseSteps - 1 < 0
    · have hends : n.stepRelease.active = false := by
        rw [stepRelease, if_neg hnegative, if_pos hcount]
      rw [hends] at hgoes
      cases hgoes
    · have hsteps : n.stepRelease.ampReleaseSteps = n.ampReleaseSteps - 1 := by
        rw [stepRelease, if_neg hnegative, if_neg hcount]
      rw [hsteps]
      exact ⟨Int.not_lt.mp hcount, Int.le_refl _⟩

/-- A release comes to its end. -/
theorem ReleasedIn.render {samples : Nat} (h : n.ReleasedIn samples)
    (hgoes : n.render.2.active = true) (hdata : n.data ≠ none) :
    ∃ rest, samples = rest + 1 ∧ n.render.2.ReleasedIn rest := by
  obtain ⟨-, hends, -, heq⟩ := render_active hgoes hdata
  have hstep : n.stepAmplitude = n.stepRelease := stepAmplitude_of_released h.1
  have hactive : n.stepRelease.active = true := by
    rw [← hstep]
    exact Bool.eq_true_of_not_eq_false fun hfalse ↦ by rw [ends, hfalse] at hends; cases hends
  obtain ⟨hnonneg, hle⟩ := stepRelease_count hactive
  have hsteps := h.2
  obtain ⟨rest, rfl⟩ : ∃ rest, samples = rest + 1 := ⟨samples - 1, by omega⟩
  refine ⟨rest, rfl, ?_⟩
  rw [heq, hstep]
  refine ⟨n.stepRelease_frame.2.trans h.1, ?_⟩
  dsimp only
  omega

/-- A sample comes to its end. -/
theorem EndsIn.render {samples : Nat} (h : n.EndsIn samples) (hunwrapped : n.Unwrapped)
    (hgoes : n.render.2.active = true) (hdata : n.data ≠ none) :
    ∃ rest, samples = rest + 1 ∧ n.render.2.EndsIn rest := by
  obtain ⟨-, -, hbefore, heq⟩ := render_active hgoes hdata
  have hsum : (n.t + n.tStep).toNat = n.t.toNat + n.tStep.toNat := by
    rw [UInt32.toNat_add]
    exact Nat.mod_eq_of_lt hunwrapped
  have hlt := UInt32.lt_iff_toNat_lt.mp hbefore
  rw [hsum] at hlt
  rw [EndsIn] at h
  cases samples with
  | zero => omega
  | succ rest =>
    refine ⟨rest, rfl, ?_⟩
    rw [heq, EndsIn]
    dsimp only
    rw [hsum]
    rw [Nat.succ_mul] at h
    omega

end AmpNote

/-! ## The voices at an event -/

namespace AmpSampler

variable {F : Type} [Zero F] {x : AmpSampler F} {tuning : Tuning} {levels : Levels F}
  {m : SampleMemory} {e : NoteMessage}

/-- All that an event may do to a voice: it begins to play if it is not active, or it is released if
it plays the note and has not been released. -/
theorem receive_note (x : AmpSampler F) (tuning : Tuning) (levels : Levels F) (m : SampleMemory)
    (e : NoteMessage) (k : Fin 12) :
    (x.receive tuning levels m (some e)).note k = x.note k ∨
    (x.note k).active = false ∧ (x.receive tuning levels m (some e)).note k =
      (x.note k).start tuning levels m x.program e ∨
    e.is midiNoteOff x.midiChannel = true ∧ ((x.note k).active = true ∧ (x.note k).note = e.data ∧
      (x.note k).noteOn = true) ∧ (x.receive tuning levels m (some e)).note k =
        (x.note k).release levels e.velocity := by
  rw [receive]
  split
  · exact .inl rfl
  · split
    · rw [startNote]
      split
      · exact .inl rfl
      · next j hj =>
        by_cases hk : k = j
        · subst hk
          refine .inr (.inl ⟨by simpa using List.find?_some hj, Function.update_self ..⟩)
        · exact .inl (Function.update_of_ne hk ..)
    · split
      · next hoff =>
        rw [stopNote]
        split
        · exact .inl rfl
        · next j hj =>
          by_cases hk : k = j
          · subst hk
            have hplays := List.find?_some hj
            simp only [Bool.and_eq_true, decide_eq_true_eq] at hplays
            exact .inr (.inr ⟨hoff, ⟨hplays.1.1, hplays.1.2, hplays.2⟩, Function.update_self ..⟩)
          · exact .inl (Function.update_of_ne hk ..)
      · exact .inl rfl

theorem receive_noteOn (hon : e.is midiNoteOn x.midiChannel = true) :
    x.receive tuning levels m (some e) = x.startNote tuning levels m e := by
  have hprogram : e.is midiProgramChange x.midiChannel = false :=
    VoiceMessage.is_eq_false (by decide) hon
  rw [receive, hprogram, if_neg Bool.false_ne_true, if_pos hon]

/-- A note begins on a voice that is not active. -/
theorem exists_start (hon : e.is midiNoteOn x.midiChannel = true)
    (hfree : ∃ k, (x.note k).active = false) : ∃ k, (x.note k).active = false ∧
      (x.receive tuning levels m (some e)).note k =
        (x.note k).start tuning levels m x.program e := by
  obtain ⟨k, hk⟩ := Voice.exists_find_inactive hfree
  refine ⟨k, by simpa using List.find?_some hk, ?_⟩
  rw [receive_noteOn hon, startNote, hk]
  exact Function.update_self ..

/-- A voice that an event releases is the first one that plays the note. -/
theorem find_of_released {k : Fin 12} (hbefore : (x.note k).noteOn = true)
    (hafter : ((x.receive tuning levels m (some e)).note k).noteOn = false) :
    e.is midiNoteOff x.midiChannel = true ∧ ((List.finRange 12).find? fun k ↦
      (x.note k).active && (x.note k).note = e.data && (x.note k).noteOn) = some k := by
  have hchanged : (x.receive tuning levels m (some e)).note k ≠ x.note k := fun heq ↦ by
    rw [heq, hbefore] at hafter
    cases hafter
  rcases receive_note x tuning levels m e k with
    heq | ⟨-, heq⟩ | ⟨hoff, -, -⟩
  · exact absurd heq hchanged
  · rw [heq, AmpNote.noteOn_start] at hafter
    cases hafter
  · refine ⟨hoff, ?_⟩
    have hprogram : e.is midiProgramChange x.midiChannel = false :=
      VoiceMessage.is_eq_false (by decide) hoff
    have hon : e.is midiNoteOn x.midiChannel = false :=
      VoiceMessage.is_eq_false (by decide) hoff
    rw [receive, hprogram, hon, if_neg Bool.false_ne_true, if_neg Bool.false_ne_true, if_pos hoff,
      stopNote] at hchanged
    split at hchanged
    · exact absurd rfl hchanged
    · next j hj =>
      by_cases hk : k = j
      · rw [hj, hk]
      · exact absurd (Function.update_of_ne hk ..) hchanged

end AmpSampler

namespace SamplerSession

variable {F : Type} {s s' : SamplerSession F} {command : SamplerCommand F} {r : Unit}

/-- A sampler with the signals of a memory. -/
def init [Zero F] (memory : SampleMemory) : SamplerSession F := ⟨memory, .init, 0⟩

/-- The voices of a session are those of its sampler. -/
def note (s : SamplerSession F) (k : Fin 12) : AmpNote F := s.sampler.note k

/-- What happens between buffers. -/
def between (s : SamplerSession F) : SamplerCommand F → SamplerSession F
  | .begin samples => { s with sampler := s.sampler.refresh s.memory, left := samples }
  | .output .. => s
  | .setMidiChannel midiChannel => { s with sampler := { s.sampler with midiChannel } }
  | .setProgram program => { s with sampler := { s.sampler with program } }
  | .reset => { s with sampler := s.sampler.reset }
  | .signals change => { s with memory := s.memory.change change }

/-- When a buffer begins, the signal of every active voice is there. -/
def Present (s : SamplerSession F) : SamplerCommand F → Prop
  | .begin _ => ∀ k, (s.note k).active = true → s.memory.signals (s.note k).i ≠ none
  | _ => True

/-- When a sample is put out, the time of no active voice overflows. -/
def Unwrapped (s : SamplerSession F) : SamplerCommand F → Prop
  | .output .. => ∀ k, (s.note k).active = true → (s.note k).Unwrapped
  | _ => True

/-- A voice that is active when a buffer begins is given its signal. -/
theorem note_begin (samples : Nat) (k : Fin 12) : (s.between (.begin samples)).note k =
    if (s.note k).active then { s.note k with data := s.memory.signals (s.note k).i }
    else s.note k := by
  show ({ s.note k with toVoice := (s.note k).refresh s.memory (s.note k).i } : AmpNote F) = _
  rw [Voice.refresh]
  split <;> rfl

/-- What happens between buffers does not make a voice last longer. -/
theorem note_between (hcommand : command.isOutput = false) (k : Fin 12) :
    ((s.between command).note k).active = false ∨
      ∃ data, (s.between command).note k = { s.note k with data } := by
  cases command with
  | output => cases hcommand
  | begin samples =>
    rw [note_begin]
    split
    · exact .inr ⟨_, rfl⟩
    · exact .inr ⟨_, rfl⟩
  | reset => exact .inl rfl
  | setMidiChannel | setProgram | signals => exact .inr ⟨(s.note k).data, rfl⟩

variable [Zero F] [Add F] [Sub F] [LT F] [DecidableLT F]

/-- One command, where it may come. -/
def step (s : SamplerSession F) : SamplerCommand F → Option (Unit × SamplerSession F)
  | .output tuning levels event =>
    if s.left = 0 then none
    else some ((), { s with
      sampler := (s.sampler.outputSample tuning levels s.memory event).2, left := s.left - 1 })
  | command => if s.left = 0 then some ((), s.between command) else none

theorem run_outputs (tuning : Tuning) (levels : Levels F) (events : List (Option NoteMessage))
    (hleft : s.left = events.length) :
    Run step (fun _ _ _ ↦ True) s (events.map (.output tuning levels)) { s with
      sampler := (runLogged (AmpSampler.outputSample tuning levels s.memory) s.sampler events).2
      left := 0 } := by
  induction events generalizing s with
  | nil =>
    obtain ⟨memory, sampler, left⟩ := s
    obtain rfl : left = 0 := hleft
    exact .nil _
  | cons event events ih =>
    rw [List.length_cons] at hleft
    refine .cons (if_neg ?_) trivial (ih ?_)
    · rw [hleft]
      exact Nat.succ_ne_zero _
    · dsimp only
      rw [hleft, Nat.add_sub_cancel]

/-- A buffer is a run of its samples. -/
theorem run_execute (tuning : Tuning) (levels : Levels F) (events : List (Option NoteMessage))
    (hleft : s.left = 0) :
    Run step (fun _ _ _ ↦ True) s (.begin events.length :: events.map (.output tuning levels))
      { s with
        sampler := (s.sampler.execute tuning levels s.memory events).2
        left := 0 } :=
  .cons (if_pos hleft) trivial (run_outputs tuning levels events rfl)

theorem step_output {tuning : Tuning} {levels : Levels F} {event : Option NoteMessage}
    (hstep : s.step (.output tuning levels event) = some (r, s')) (k : Fin 12) :
    s'.note k = ((s.sampler.receive tuning levels s.memory event).note k).render.2 := by
  rw [step] at hstep
  split at hstep
  · cases hstep
  · obtain ⟨-, rfl⟩ := Prod.mk.inj (Option.some.inj hstep)
    rfl

theorem step_between (hstep : s.step command = some (r, s')) (hcommand : command.isOutput = false) :
    s' = s.between command := by
  cases command with
  | output => cases hcommand
  | begin | setMidiChannel | setProgram | reset | signals =>
    dsimp only [step] at hstep
    split at hstep
    · exact (Prod.mk.inj (Option.some.inj hstep)).2.symm
    · cases hstep

/-- A sample of the output renders a voice that is active, after releasing it if it has not been
released. -/
theorem note_output {tuning : Tuning} {levels : Levels F} {event : Option NoteMessage}
    (hstep : s.step (.output tuning levels event) = some (r, s')) {k : Fin 12}
    (hactive : (s.note k).active = true) : s'.note k = (s.note k).render.2 ∨
      (s.note k).noteOn = true ∧ ∃ velocity, s'.note k =
        ((s.note k).release levels velocity).render.2 := by
  rw [step_output hstep]
  cases event with
  | none => exact .inl rfl
  | some e =>
    rcases AmpSampler.receive_note s.sampler tuning levels s.memory e k with
      heq | ⟨hfalse, -⟩ | ⟨-, ⟨-, -, hnoteOn⟩, heq⟩
    · exact .inl (by rw [heq]; rfl)
    · exact absurd hactive (Bool.eq_false_iff.mp hfalse)
    · exact .inr ⟨hnoteOn, e.velocity, by rw [heq]; rfl⟩

theorem sound_step (h : ∀ k, (s.note k).Sound) (hpresent : s.Present command)
    (hstep : s.step command = some (r, s')) (k : Fin 12) : (s'.note k).Sound := by
  cases command with
  | output tuning levels event =>
    rw [step_output hstep]
    refine AmpNote.Sound.render ?_
    cases event with
    | none => exact h k
    | some e =>
      rcases AmpSampler.receive_note s.sampler tuning levels s.memory e k with
        heq | ⟨-, heq⟩ | ⟨-, -, heq⟩
      · rw [heq]
        exact h k
      · rw [heq]
        exact AmpNote.sound_start tuning levels s.memory _ e _
      · rw [heq]
        exact (h k).release _ _
  | begin samples =>
    rw [step_between hstep rfl, note_begin]
    split
    · next hactive => exact fun _ ↦ ⟨hpresent k hactive, (h k hactive).2⟩
    · exact h k
  | reset =>
    rw [step_between hstep rfl]
    exact nofun
  | setMidiChannel | setProgram | signals =>
    rw [step_between hstep rfl]
    exact h k

/-! ## Every run -/

/-- The voice is inactive after so many more samples of the output at the latest, or has been in
between. -/
def FreedWithin (ok : SamplerSession F → SamplerCommand F → Prop) (s : SamplerSession F)
    (k : Fin 12) (samples : Nat) : Prop :=
  ∀ more t, Run step (fun s command _ ↦ ok s command) s more t →
    samples ≤ more.countP SamplerCommand.isOutput →
      Passes step (fun s command _ ↦ ok s command) (fun u ↦ (u.note k).active = false) s more

/-- A voice of which every sample of the output takes one from what is left of it is freed. -/
theorem freedWithin_of_countdown {ok : SamplerSession F → SamplerCommand F → Prop}
    (hok : ∀ s command, ok s command → s.Present command) {k : Fin 12}
    (left : Nat → AmpNote F → Prop) (hdata : ∀ n v data, left n v → left n { v with data })
    (houtput : ∀ n s command s', (∀ j, (s.note j).Sound) → ok s command →
      s.step command = some ((), s') → command.isOutput = true → (s.note k).active = true →
      left n (s.note k) → (s'.note k).active = true →
        ∃ rest, n = rest + 1 ∧ left rest (s'.note k))
    (hsound : ∀ j, (s.note j).Sound) {n : Nat} (hleft : left n (s.note k)) :
    FreedWithin ok s k (n + 1) := by
  intro more t hrun hn
  refine hrun.passes (fun n s ↦ (∀ j, (s.note j).Sound) ∧ left n (s.note k)) ?_ ?_ ?_
    ⟨hsound, hleft⟩ hn
  · rintro n s command r s' ⟨hsound, hleft⟩ - hok' hstep hcommand
    have hsound' := sound_step hsound (hok s command hok') hstep
    rw [step_between hstep hcommand] at hsound' ⊢
    rcases note_between (s := s) hcommand k with hfalse | ⟨data, heq⟩
    · exact .inl hfalse
    · exact .inr ⟨hsound', heq ▸ hdata n _ data hleft⟩
  · rintro s command r s' ⟨hsound, hleft⟩ hgoal hok' hstep hcommand
    refine Bool.eq_false_iff.mpr fun hactive ↦ ?_
    obtain ⟨rest, heq, -⟩ := houtput 0 s command s' hsound hok' hstep hcommand
      (Bool.eq_true_of_not_eq_false hgoal) hleft hactive
    cases heq
  · rintro n s command r s' ⟨hsound, hleft⟩ hgoal hok' hstep hcommand
    by_cases hactive : (s'.note k).active = true
    · obtain ⟨rest, heq, hrest⟩ := houtput (n + 1) s command s' hsound hok' hstep hcommand
        (Bool.eq_true_of_not_eq_false hgoal) hleft hactive
      obtain rfl := Nat.succ.inj heq
      exact .inr ⟨sound_step hsound (hok s command hok') hstep, hrest⟩
    · exact .inl (Bool.eq_false_iff.mpr hactive)

/-- The event releases the voice. -/
def Releases (s : SamplerSession F) (tuning : Tuning) (levels : Levels F) (e : NoteMessage)
    (k : Fin 12) : Prop :=
  (s.note k).noteOn = true ∧
    ((s.sampler.receive tuning levels s.memory (some e)).note k).noteOn = false

/-- An event releases one voice at most, which plays the note. A voice that has been released, whose
sample ends, or whose sample has been removed becomes inactive. A note finds a voice that is not
active. -/
structure VoicesFreed (ok fits : SamplerSession F → SamplerCommand F → Prop)
    (s : SamplerSession F) : Prop where
  one_released : ∀ tuning levels e i j, s.Releases tuning levels e i →
    s.Releases tuning levels e j → i = j
  released_plays : ∀ tuning levels e k, s.Releases tuning levels e k →
    e.is midiNoteOff s.sampler.midiChannel = true ∧ (s.note k).active = true ∧
      (s.note k).note = e.data
  released : ∀ k, (s.note k).active = true → (s.note k).noteOn = false →
    ∃ samples, FreedWithin ok s k samples
  removed : ∀ k, (s.note k).active = true → (s.note k).data = none →
    ∃ samples, FreedWithin ok s k samples
  ended : ∀ k samples, (s.note k).active = true → 0 < samples →
    (s.note k).tMax.toNat ≤ (s.note k).t.toNat + samples * (s.note k).tStep.toNat →
      FreedWithin fits s k samples
  found : ∀ tuning levels e, e.is midiNoteOn s.sampler.midiChannel = true →
    (∃ k, (s.note k).active = false) → ∃ k, (s.note k).active = false ∧
      ((s.sampler.receive tuning levels s.memory (some e)).note k) =
        (s.note k).start tuning levels s.memory s.sampler.program e

theorem freedWithin_released (hsound : ∀ j, (s.note j).Sound) {k : Fin 12}
    (hactive : (s.note k).active = true) (hnoteOn : (s.note k).noteOn = false) :
    ∃ samples, FreedWithin Present s k samples := by
  have hleft : (s.note k).ReleasedIn (s.note k).ampReleaseSteps.toNat :=
    ⟨(hsound k hactive).2.mpr hnoteOn, Int.self_le_toNat _⟩
  refine ⟨_, freedWithin_of_countdown (fun _ _ ↦ id) AmpNote.ReleasedIn (fun _ _ _ ↦ id) ?_ hsound
    hleft⟩
  intro n s command s' hsound _ hstep hcommand hactive hleft hactive'
  cases command with
  | output tuning levels event =>
    obtain ⟨hdata, hreleased⟩ := hsound k hactive
    rcases note_output hstep hactive with heq | ⟨hnoteOn, -⟩
    · rw [heq] at hactive' ⊢
      exact hleft.render hactive' hdata
    · rw [hreleased.mp hleft.1] at hnoteOn
      cases hnoteOn
  | begin | setMidiChannel | setProgram | reset | signals => cases hcommand

theorem freedWithin_ended (hsound : ∀ j, (s.note j).Sound) {k : Fin 12} {n : Nat}
    (hleft : (s.note k).EndsIn n) :
    FreedWithin (fun s command ↦ s.Present command ∧ s.Unwrapped command) s k (n + 1) := by
  refine freedWithin_of_countdown (fun _ _ ↦ And.left) AmpNote.EndsIn (fun _ _ _ ↦ id) ?_ hsound
    hleft
  intro n s command s' hsound hok hstep hcommand hactive hleft hactive'
  cases command with
  | output tuning levels event =>
    have hdata := (hsound k hactive).1
    have hunwrapped := hok.2 k hactive
    -- a release changes nothing of the time
    rcases note_output hstep hactive with heq | ⟨-, velocity, heq⟩
    · rw [heq] at hactive' ⊢
      exact hleft.render hunwrapped hactive' hdata
    · rw [heq] at hactive' ⊢
      exact AmpNote.EndsIn.render (n := (s.note k).release levels velocity) hleft hunwrapped hactive'
        hdata
  | begin | setMidiChannel | setProgram | reset | signals => cases hcommand

/-- As long as no sample is missed by an active voice when a buffer begins, the voices are freed; at
the end of their samples if in addition their time does not overflow. -/
theorem voices_freed {memory : SampleMemory} {commands : List (SamplerCommand F)}
    (hrun : Run step (fun s command _ ↦ s.Present command) (init memory) commands s) :
    s.VoicesFreed Present fun s command ↦ s.Present command ∧ s.Unwrapped command := by
  have hinit : ∀ k, ((init memory : SamplerSession F).note k).Sound := fun k hactive ↦ by
    cases hactive
  have hsound : ∀ k, (s.note k).Sound := by
    refine hrun.invariant (fun s ↦ ∀ k, (s.note k).Sound) ?_ hinit
    intro s command r s' hs hok hstep
    exact sound_step hs hok hstep
  refine ⟨?_, ?_, ?_, ?_, ?_, ?_⟩
  · intro tuning levels e i j hi hj
    have hfound := (AmpSampler.find_of_released hi.1 hi.2).2
    exact Option.some.inj (hfound.symm.trans (AmpSampler.find_of_released hj.1 hj.2).2)
  · intro tuning levels e k hk
    obtain ⟨hoff, hfound⟩ := AmpSampler.find_of_released hk.1 hk.2
    have hplays := List.find?_some hfound
    simp only [Bool.and_eq_true, decide_eq_true_eq] at hplays
    exact ⟨hoff, hplays.1⟩
  · exact fun k hactive hnoteOn ↦ freedWithin_released hsound hactive hnoteOn
  · exact fun k hactive hdata ↦ absurd hdata (hsound k hactive).1
  · intro k samples _ hpos hends
    obtain ⟨n, rfl⟩ := Nat.exists_eq_add_one_of_ne_zero (Nat.ne_of_gt hpos)
    exact freedWithin_ended hsound hends
  · exact fun tuning levels e hon hfree ↦ AmpSampler.exists_start hon hfree

/-- Every phase is of one step, and nothing is heard. -/
def plainLevels : Levels Int where
  amplitude _ := 0
  attackSteps := 1
  attackStep _ := 0
  holdSteps := 1
  decaySteps := 1
  decayStep _ := 0
  releaseSteps _ := 1
  releaseStep _ _ := 0

/-- A note on. -/
def noteOnEvent : NoteMessage := ⟨noteOnMessage, 127⟩

/-- A note off. -/
def noteOffEvent : NoteMessage := ⟨⟨0x80, 60⟩, 0⟩

theorem voices_freed_twoValues : ∃ s : SamplerSession Int,
    Run step (fun s command _ ↦ s.Present command) (init .empty)
      [.signals (.replaceSignal 0 twoValues), .begin 1,
        .output plainTuning plainLevels (some noteOnEvent)] s ∧ (s.note 0).active = true ∧
      s.VoicesFreed Present fun s command ↦ s.Present command ∧ s.Unwrapped command := by
  have hrun : ∃ s : SamplerSession Int,
      Run step (fun s command _ ↦ s.Present command) (init .empty)
        [.signals (.replaceSignal 0 twoValues), .begin 1,
          .output plainTuning plainLevels (some noteOnEvent)] s ∧ (s.note 0).active = true :=
    ⟨_, .cons rfl trivial (.cons rfl (fun k hactive ↦ by cases hactive)
      (.cons rfl trivial (.nil _))), by decide⟩
  obtain ⟨s, hrun, hactive⟩ := hrun
  exact ⟨s, hrun, hactive, voices_freed hrun⟩

/-! ## A sample that is removed -/

/-- Between buffers nothing comes but another buffer, and in it no event. -/
def Quiet (command : SamplerCommand F) : Prop :=
  match command with
  | .begin _ | .output _ _ none => True
  | _ => False

/-- An active voice has no signal, and there is none in its place. -/
def Stuck (s : SamplerSession F) (k : Fin 12) : Prop :=
  (s.note k).active = true ∧ (s.note k).data = none ∧ s.memory.signals (s.note k).i = none

theorem Stuck.step {k : Fin 12} (h : s.Stuck k) (hquiet : Quiet command)
    (hstep : s.step command = some (r, s')) : s'.Stuck k := by
  obtain ⟨hactive, hdata, hsignal⟩ := h
  cases command with
  | begin samples =>
    have hnote : s'.note k = { s.note k with data := s.memory.signals (s.note k).i } := by
      rw [step_between hstep rfl, note_begin, if_pos hactive]
    rw [Stuck, hnote, step_between hstep rfl]
    exact ⟨hactive, hsignal, hsignal⟩
  | output tuning levels event =>
    cases event with
    | some e => exact absurd hquiet id
    | none =>
      have hnote : s'.note k = s.note k := by
        rw [step_output hstep]
        exact congrArg Prod.snd (AmpNote.render_of_silent (.inr hdata))
      have hmemory : s'.memory = s.memory := by
        rw [SamplerSession.step] at hstep
        split at hstep
        · cases hstep
        · obtain ⟨-, rfl⟩ := Prod.mk.inj (Option.some.inj hstep)
          rfl
      rw [Stuck, hnote, hmemory]
      exact ⟨hactive, hdata, hsignal⟩
  | setMidiChannel | setProgram | reset | signals => exact absurd hquiet id

/-- The rest of a buffer and another one, without events. -/
def silence (tuning : Tuning) (levels : Levels F) (left samples : Nat) : List (SamplerCommand F) :=
  List.replicate left (.output tuning levels none) ++
    .begin samples :: List.replicate samples (.output tuning levels none)

theorem exists_run_silence (tuning : Tuning) (levels : Levels F) (samples : Nat) :
    ∃ t, Run step (fun _ _ _ ↦ True) s (silence tuning levels s.left samples) t := by
  have hrest := run_outputs (s := s) tuning levels (List.replicate s.left none)
    (List.length_replicate ..).symm
  have hmore := run_execute tuning levels (List.replicate samples none) (s := { s with
    sampler := (runLogged (AmpSampler.outputSample tuning levels s.memory) s.sampler
      (List.replicate s.left none)).2
    left := 0 }) rfl
  rw [List.map_replicate] at hrest
  rw [List.length_replicate, List.map_replicate] at hmore
  exact ⟨_, hrest.append hmore⟩

/-- Without a signal a voice is active for any number of samples, released or not. -/
theorem Stuck.not_freed {k : Fin 12} (h : s.Stuck k) (tuning : Tuning) (levels : Levels F)
    (samples : Nat) : ¬ FreedWithin (fun _ _ ↦ True) s k samples := by
  intro hfreed
  have hquiet : ∀ command ∈ silence tuning levels s.left samples, Quiet command := by
    have houtputs : ∀ n, ∀ command ∈ List.replicate n (SamplerCommand.output tuning levels none),
        Quiet command := fun n command hcommand ↦ by
      obtain rfl := List.eq_of_mem_replicate hcommand
      trivial
    rw [silence, List.forall_mem_append, List.forall_mem_cons]
    exact ⟨houtputs s.left, trivial, houtputs samples⟩
  have hsamples : samples ≤
      (silence tuning levels s.left samples).countP SamplerCommand.isOutput := by
    rw [silence, List.countP_append, List.countP_cons_of_neg Bool.false_ne_true,
      List.countP_replicate, List.countP_replicate]
    exact Nat.le_add_left _ _
  obtain ⟨t, hrun⟩ := exists_run_silence (s := s) tuning levels samples
  obtain ⟨front, back, u, heq, hfront, hfree⟩ := hfreed _ t hrun hsamples
  have hstuck : u.Stuck k := by
    refine hfront.invariant_of_forall (P := Quiet) (fun s ↦ s.Stuck k) ?_ ?_ h
    · exact fun s command r s' hs hquiet hstep ↦ hs.step hquiet hstep
    · exact fun command hcommand ↦ hquiet command (heq ▸ List.mem_append_left _ hcommand)
  rw [hstuck.1] at hfree
  cases hfree

/-- So the condition is needed: a voice that misses its signal when a buffer begins is lost if none
comes in its place. -/
theorem not_freed_of_missing {samples : Nat} (hstep : s.step (.begin samples) = some (r, s'))
    {k : Fin 12} (hactive : (s.note k).active = true)
    (hmissing : s.memory.signals (s.note k).i = none) (tuning : Tuning) (levels : Levels F) :
    ¬ s'.VoicesFreed (fun _ _ ↦ True) fun _ _ ↦ True := by
  have hnote : s'.note k = { s.note k with data := none } := by
    rw [step_between hstep rfl, note_begin, if_pos hactive, hmissing]
  have hstuck : s'.Stuck k := by
    rw [Stuck, hnote, step_between hstep rfl]
    exact ⟨hactive, rfl, hmissing⟩
  intro hfreed
  obtain ⟨n, hn⟩ := hfreed.removed k hstuck.1 hstuck.2.1
  exact hstuck.not_freed tuning levels n hn

/-- The sample of a note is removed, and the note is released: its voice is lost. -/
theorem not_voices_freed : ¬ ∀ commands (s : SamplerSession Int),
    Run step (fun _ _ _ ↦ True) (init .empty) commands s →
      s.VoicesFreed (fun _ _ ↦ True) fun _ _ ↦ True := by
  intro h
  have hfreed := h [.signals (.replaceSignal 0 twoValues), .begin 1,
    .output plainTuning plainLevels (some noteOnEvent), .signals (.clearSignal 0), .begin 1,
    .output plainTuning plainLevels (some noteOffEvent)] _
    (.cons rfl trivial (.cons rfl trivial (.cons rfl trivial (.cons rfl trivial
      (.cons rfl trivial (.cons rfl trivial (.nil _)))))))
  obtain ⟨samples, hsamples⟩ := hfreed.released 0 (by decide) (by decide)
  exact Stuck.not_freed ⟨by decide, by decide, by decide⟩ plainTuning plainLevels samples hsamples

end SamplerSession

end Vuknob
