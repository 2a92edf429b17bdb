import Vuknob.Dynlib.SamplerVoices

/-!
# What the voices read

A voice plays the signal that is in its place when a buffer begins, but it keeps the length, the
channels and the resolution of the one that its note began with. It reads in the buffer of the
signal as long as that covers all the times that the voice still comes to.
-/

namespace Vuknob

open Library

theorem SampleMemory.getSignal_eq_some {m : SampleMemory} {index : Int} {a : Nat} {s : Sample} :
    m.getSignal index = some (a, s) ↔ m.signals index = some a ∧ m.live a = some s := by
  rw [getSignal, Option.bind_eq_some_iff]
  constructor
  · rintro ⟨b, hb, h⟩
    obtain ⟨t, ht, heq⟩ := Option.map_eq_some_iff.mp h
    obtain ⟨rfl, rfl⟩ := Prod.mk.inj heq
    exact ⟨hb, ht⟩
  · rintro ⟨ha, hs⟩
    exact ⟨a, ha, by rw [hs, Option.map_some]⟩

/-- What has been put in a place is found there. -/
theorem SampleMemory.getSignal_replaceSignal (m : SampleMemory) (index : Int) (s : Sample) :
    (m.replaceSignal index s).getSignal index = some (m.next, s) :=
  getSignal_eq_some.mpr ⟨Function.update_self .., Function.update_self ..⟩

/-! ## Times and values -/

theorem toNat_uint32_ofInt {x : Int} (hx : 0 ≤ x) : (UInt32.ofInt x).toNat = x.toNat % 2 ^ 32 := by
  obtain ⟨n, rfl⟩ := Int.eq_ofNat_of_zero_le hx
  show (UInt32.ofNat ((n : Int) % 2 ^ 32).toNat).toNat = _
  rw [UInt32.toNat_ofNat']
  omega

theorem toNat_itoufp24p8_le {x : Int} (hx : 0 ≤ x) : (itoufp24p8 x).toNat ≤ x.toNat * 256 := by
  have hshift : (itoufp24p8 x).toNat = (UInt32.ofInt x).toNat <<< 8 % 2 ^ 32 :=
    UInt32.toNat_shiftLeft ..
  rw [hshift, toNat_uint32_ofInt hx, Nat.shiftLeft_eq]
  omega

theorem toNat_ufp24p8toi (t : UInt32) : (ufp24p8toi t).toNat = t.toNat / 256 := by
  have hshift : (ufp24p8toi t).toNat = t.toNat >>> 8 := UInt32.toNat_shiftRight ..
  rw [hshift, Nat.shiftRight_eq_div_pow]

/-- A message is of one kind only. -/
theorem VoiceMessage.is_eq_false {kind kind' : UInt8} {channel : Int} {e : VoiceMessage}
    (hne : kind' ≠ kind) (h : e.is kind channel = true) : e.is kind' channel = false := by
  have hkind := (of_decide_eq_true h).1
  exact decide_eq_false fun h' ↦ hne (h'.1.symm.trans hkind)

/-- There is something to be read in the signal, should it be read. -/
def Sample.Playable (s : Sample) : Prop := s.resolution.played = true → s.buffer ≠ []

/-- A time before the end of a signal is that of one of its values, and so is the beginning. -/
theorem Sample.index_lt {s : Sample} {t : UInt32} (hbuffer : s.buffer ≠ [])
    (ht : t = 0 ∨ t < itoufp24p8 s.samples) :
    (ufp24p8toi t * UInt32.ofInt s.channels).toNat < s.buffer.length := by
  obtain ⟨hchannels, hsamples⟩ := s.nonneg
  have hlength : s.buffer.length = s.samples.toNat * s.channels.toNat := by
    rw [← Int.toNat_mul hsamples hchannels, ← s.length, Int.toNat_natCast]
  have hpos : 0 < s.samples.toNat * s.channels.toNat :=
    hlength ▸ List.length_pos_iff.mpr hbuffer
  have hframe : t.toNat / 256 < s.samples.toNat := by
    rcases ht with rfl | ht
    · exact Nat.pos_of_mul_pos_right hpos
    · have hbelow := UInt32.lt_iff_toNat_lt.mp ht
      have hmax := toNat_itoufp24p8_le hsamples
      omega
  rw [UInt32.toNat_mul, toNat_ufp24p8toi, toNat_uint32_ofInt hchannels, hlength]
  calc t.toNat / 256 * (s.channels.toNat % 2 ^ 32) % 2 ^ 32
      ≤ t.toNat / 256 * (s.channels.toNat % 2 ^ 32) := Nat.mod_le ..
    _ ≤ t.toNat / 256 * s.channels.toNat := Nat.mul_le_mul_left _ (Nat.mod_le ..)
    _ < s.samples.toNat * s.channels.toNat :=
      Nat.mul_lt_mul_of_pos_right hframe (Nat.pos_of_mul_pos_left hpos)

namespace Voice

/-- The time of a voice when it has played `k` samples of the output. -/
def timeAfter (t tStep : UInt32) : Nat → UInt32
  | 0 => t
  | k + 1 => timeAfter (t + tStep) tStep k

variable {ι : Type}

/-- The voice does not come to its end before it has played `k` samples of the output. -/
def Lasts (v : Voice ι) (k : Nat) : Prop := ∀ j < k, timeAfter v.t v.tStep (j + 1) < v.tMax

/-- The signal has the resolution that the voice takes it to have, and a value wherever the voice
comes to. -/
def CoveredBy (v : Voice ι) (s : Sample) : Prop :=
  v.resolution.played = true → v.resolution = s.resolution ∧
    ∀ k, v.Lasts k →
      (ufp24p8toi (timeAfter v.t v.tStep k) * UInt32.ofInt v.channels).toNat < s.buffer.length

/-- If the voice is active, then the signal at the index covers it. -/
def Fits (m : SampleMemory) (index : Int) (v : Voice ι) : Prop :=
  v.active = true → ∀ a s, m.getSignal index = some (a, s) → v.CoveredBy s

/-- If the voice is active, then it points to a signal that covers it. -/
def Backed (m : SampleMemory) (v : Voice ι) : Prop :=
  v.active = true → ∀ a, v.data = some a → ∃ s, m.live a = some s ∧ v.CoveredBy s

variable {m : SampleMemory} {v : Voice ι}

theorem CoveredBy.advance {s : Sample} (h : v.CoveredBy s) (hbefore : v.t + v.tStep < v.tMax)
    (active : Bool) : CoveredBy { v with t := v.t + v.tStep, active } s := by
  intro hplayed
  obtain ⟨hresolution, hvalues⟩ := h hplayed
  refine ⟨hresolution, fun k hlasts ↦ hvalues (k + 1) fun j hj ↦ ?_⟩
  cases j with
  | zero => exact hbefore
  | succ j => exact hlasts j (Nat.lt_of_succ_lt_succ hj)

theorem backed_refresh {index : Int} (h : v.Fits m index) : (v.refresh m index).Backed m := by
  rw [refresh]
  split
  · next hactive =>
    intro _ a ha
    obtain ⟨s, hs⟩ := m.found ha
    exact ⟨s, hs, h hactive a s (SampleMemory.getSignal_eq_some.mpr ⟨ha, hs⟩)⟩
  · next hactive => exact fun h ↦ absurd h hactive

/-- A voice plays any signal that has the resolution of its own and no fewer values. -/
theorem coveredBy_of_longer {own s : Sample} (hmax : v.tMax = itoufp24p8 own.samples)
    (hchannels : v.channels = own.channels) (hresolution : v.resolution = s.resolution)
    (ht : v.t = 0 ∨ v.t < v.tMax) (hbuffer : own.buffer ≠ [])
    (hlength : own.buffer.length ≤ s.buffer.length) : v.CoveredBy s := by
  refine fun _ ↦ ⟨hresolution, fun k hlasts ↦ Nat.lt_of_lt_of_le ?_ hlength⟩
  rw [hchannels]
  refine Sample.index_lt hbuffer ?_
  rw [← hmax]
  cases k with
  | zero => exact ht
  | succ k => exact .inr (hlasts k (Nat.lt_succ_self k))

theorem backed_start (i : ι) (note : UInt8) (tStep : Sample → UInt32)
    {sample : Option (Nat × Sample)}
    (h : ∀ a s, sample = some (a, s) → m.live a = some s ∧ s.Playable) :
    (v.start i note sample tStep).Backed m := by
  cases sample with
  | none =>
    intro hactive
    cases hactive
  | some found =>
    obtain ⟨a, s⟩ := found
    obtain ⟨hs, hbuffer⟩ := h a s rfl
    rintro - _ ⟨⟩
    refine ⟨s, hs, fun hplayed ↦ ?_⟩
    exact coveredBy_of_longer rfl rfl rfl (.inl rfl) (hbuffer hplayed) (Nat.le_refl _) hplayed

theorem Backed.render (h : v.Backed m) (ends : Bool) :
    (v.render ends).2.Backed m ∧ ∀ r ∈ (v.render ends).1, r.Inside m := by
  rw [Voice.render]
  split
  · next a hactive hdata =>
    obtain ⟨s, hs, hcovered⟩ := h hactive a hdata
    constructor
    · intro hactive' b hb
      have hbefore : v.t + v.tStep < v.tMax := by
        rw [Bool.and_eq_true] at hactive'
        exact of_decide_eq_true hactive'.2
      obtain rfl : a = b := Option.some.inj (hdata.symm.trans hb)
      exact ⟨s, hs, hcovered.advance hbefore _⟩
    · intro r hr
      dsimp only at hr
      split at hr
      · next hplayed =>
        obtain ⟨hresolution, hvalues⟩ := hcovered hplayed
        obtain rfl := List.mem_singleton.mp hr
        exact ⟨s, hs, hresolution, hvalues 0 fun j hj ↦ absurd hj (Nat.not_lt_zero j)⟩
      · cases hr
  · exact ⟨h, fun r hr ↦ by cases hr⟩

theorem backed_renderAll {note : Fin 12 → Voice ι} (h : ∀ k, (note k).Backed m)
    (ends : Fin 12 → Bool) : (∀ k, ((note k).render (ends k)).2.Backed m) ∧
      ∀ r ∈ (List.finRange 12).flatMap fun k ↦ ((note k).render (ends k)).1, r.Inside m := by
  refine ⟨fun k ↦ ((h k).render (ends k)).1, fun r hr ↦ ?_⟩
  obtain ⟨k, -, hr⟩ := List.mem_flatMap.mp hr
  exact ((h k).render (ends k)).2 r hr

/-- If there is a voice that is not active, then one is found. -/
theorem exists_find_inactive {active : Fin 12 → Bool} (h : ∃ k, active k = false) :
    ∃ j, (List.finRange 12).find? (fun k ↦ !active k) = some j := by
  obtain ⟨k, hk⟩ := h
  rw [← Option.isSome_iff_exists, List.find?_isSome]
  exact ⟨k, List.mem_finRange k, by rw [hk]; rfl⟩

/-- What an active voice reads that has a signal. -/
theorem render_eq {a : Nat} (hactive : v.active = true) (hdata : v.data = some a)
    (hplayed : v.resolution.played = true) (ends : Bool) : v.render ends =
      ([⟨a, v.resolution, ufp24p8toi v.t * UInt32.ofInt v.channels⟩],
        { v with t := v.t + v.tStep, active := !ends && v.t + v.tStep < v.tMax }) := by
  rw [Voice.render]
  split
  · next b _ hb =>
    obtain rfl : a = b := Option.some.inj (hdata.symm.trans hb)
    rw [if_pos hplayed]
  · next hnot => exact absurd hdata (hnot a hactive)

/-- Where every silent step renders a voice, the voice is read at all times before its end. -/
theorem mem_runLogged {S A : Type} {step : S → A → List SampleRead × S} {silence : A}
    (voice : S → Voice ι) (hstep : ∀ x, voice (step x silence).2 = ((voice x).render false).2 ∧
      ∀ r ∈ ((voice x).render false).1, r ∈ (step x silence).1)
    {x : S} {a k : Nat} (hactive : (voice x).active = true) (hdata : (voice x).data = some a)
    (hplayed : (voice x).resolution.played = true) (hlasts : (voice x).Lasts k) :
    ⟨a, (voice x).resolution,
        ufp24p8toi (timeAfter (voice x).t (voice x).tStep k) * UInt32.ofInt (voice x).channels⟩ ∈
      (runLogged step x (List.replicate (k + 1) silence)).1 := by
  induction k generalizing x with
  | zero =>
    obtain ⟨-, hlog⟩ := hstep x
    rw [render_eq hactive hdata hplayed] at hlog
    exact List.mem_append_left _ (hlog _ (List.mem_singleton_self _))
  | succ k ih =>
    obtain ⟨hvoice, -⟩ := hstep x
    rw [render_eq hactive hdata hplayed] at hvoice
    have hbefore := hlasts 0 (Nat.succ_pos k)
    have hmem := ih (x := (step x silence).2) (by rw [hvoice]; exact decide_eq_true hbefore)
      (by rw [hvoice]; exact hdata) (by rw [hvoice]; exact hplayed)
      (by rw [hvoice]; exact fun j hj ↦ hlasts (j + 1) (Nat.succ_lt_succ hj))
    rw [hvoice] at hmem
    exact List.mem_append_right _ hmem

/-- If nothing is read outside however long it is silent, then the signal covers the voice. -/
theorem fits_of_inside {S A : Type} {step : S → A → List SampleRead × S} {silence : A}
    (voice : S → Voice ι) (hstep : ∀ x, voice (step x silence).2 = ((voice x).render false).2 ∧
      ∀ r ∈ ((voice x).render false).1, r ∈ (step x silence).1)
    {x : S} {index : Int} (hx : voice x = v.refresh m index)
    (h : ∀ n, ∀ r ∈ (runLogged step x (List.replicate n silence)).1, r.Inside m) :
    v.Fits m index := by
  intro hactive a s hsignal hplayed
  obtain ⟨ha, hs⟩ := SampleMemory.getSignal_eq_some.mp hsignal
  have hvoice : voice x = { v with data := some a } := by
    rw [hx, refresh, if_pos hactive, ha]
  have hread : ∀ k, v.Lasts k → v.resolution = s.resolution ∧
      (ufp24p8toi (timeAfter v.t v.tStep k) * UInt32.ofInt v.channels).toNat < s.buffer.length := by
    intro k hlasts
    have hmem := mem_runLogged (x := x) (a := a) (k := k) voice hstep
      (by rw [hvoice]; exact hactive) (by rw [hvoice]) (by rw [hvoice]; exact hplayed)
      (by rw [hvoice]; exact hlasts)
    obtain ⟨s', hs', hresolution, hlt⟩ := h (k + 1) _ hmem
    obtain rfl : s = s' := Option.some.inj (hs.symm.trans hs')
    rw [hvoice] at hresolution hlt
    exact ⟨hresolution, hlt⟩
  have hnow : v.Lasts 0 := fun j hj ↦ absurd hj (Nat.not_lt_zero j)
  exact ⟨(hread 0 hnow).1, fun k hlasts ↦ (hread k hlasts).2⟩

/-- The first value of a note is only inside if there is something to be read. -/
theorem playable_of_inside {w : Voice ι} {i : ι} {note : UInt8} {tStep : Sample → UInt32}
    {a : Nat} {s : Sample} (hw : w = v.start i note (some (a, s)) tStep)
    (hs : m.live a = some s) {ends : Bool} (h : ∀ r ∈ (w.render ends).1, r.Inside m) :
    s.Playable := by
  subst hw
  intro hplayed hempty
  rw [render_eq rfl rfl hplayed] at h
  obtain ⟨s', hs', -, hlt⟩ := h _ (List.mem_singleton_self _)
  obtain rfl : s = s' := Option.some.inj (hs.symm.trans hs')
  rw [hempty] at hlt
  exact absurd hlt (Nat.not_lt_zero _)

end Voice

/-! ## The sampler -/

namespace Sampler

variable {tuning : Tuning} {m : SampleMemory} {x : Sampler}

/-- The signals that the active voices find when a buffer begins cover them. -/
def Fits (m : SampleMemory) (x : Sampler) : Prop := ∀ k, (x.note k).Fits m (x.note k).i

/-- The signals that the active voices point to cover them. -/
def Backed (m : SampleMemory) (x : Sampler) : Prop := ∀ k, (x.note k).Backed m

/-- If a note begins, then there is something to be read in its signal, should it be read. -/
def Ready (m : SampleMemory) (x : Sampler) (input : SamplerInput) : Prop :=
  ∀ e, input.event = some e → e.is midiNoteOn x.midiChannel = true →
    (∃ k, (x.note k).active = false) → ∀ a s, m.getSignal x.program = some (a, s) → s.Playable

theorem backed_startNote (h : x.Backed m) (note : UInt8)
    (hready : (∃ k, (x.note k).active = false) →
      ∀ a s, m.getSignal x.program = some (a, s) → s.Playable) :
    (x.startNote tuning m note).Backed m := by
  rw [startNote]
  split
  · exact h
  · next k hk =>
    intro j
    by_cases hj : j = k
    · subst hj
      dsimp only
      rw [Function.update_self]
      refine Voice.backed_start _ _ _ fun a s hsample ↦ ?_
      refine ⟨(SampleMemory.getSignal_eq_some.mp hsample).2, hready ⟨j, ?_⟩ a s hsample⟩
      simpa using List.find?_some hk
    · dsimp only
      rw [Function.update_of_ne hj]
      exact h j

theorem backed_stopNote (h : x.Backed m) (note : UInt8) : (x.stopNote note).Backed m := by
  rw [stopNote]
  split
  · exact h
  · next k _ =>
    intro j
    by_cases hj : j = k
    · subst hj
      dsimp only
      rw [Function.update_self]
      exact h j
    · dsimp only
      rw [Function.update_of_ne hj]
      exact h j

theorem backed_receive (h : x.Backed m) {input : SamplerInput} (hready : x.Ready m input) :
    (x.receive tuning m input.event).Backed m := by
  cases hevent : input.event with
  | none => exact h
  | some e =>
    dsimp only [receive]
    split
    · exact h
    · split
      · next hon => exact backed_startNote h e.data (hready e hevent hon)
      · split
        · exact backed_stopNote h e.data
        · exact h

theorem backed_outputSample (h : x.Backed m) {input : SamplerInput} (hready : x.Ready m input) :
    (x.outputSample tuning m input).2.Backed m ∧
      ∀ r ∈ (x.outputSample tuning m input).1, r.Inside m := by
  have hreceived : (x.receive tuning m input.event).Backed m := backed_receive h hready
  exact Voice.backed_renderAll hreceived _

/-- When the signals fit as the buffer begins, and there is something to be read wherever a note
begins, then all that is read is inside. -/
theorem inside_execute {inputs : List SamplerInput} (hfits : x.Fits m)
    (hready : Meets (outputSample tuning m) (Ready m) (x.refresh m) inputs) :
    ∀ r ∈ (x.execute tuning m inputs).1, r.Inside m :=
  (hready.runLogged (Backed m) (SampleRead.Inside m)
    (fun _ _ hbacked hready ↦ backed_outputSample hbacked hready)
    fun k ↦ Voice.backed_refresh (hfits k)).2

/-- Nothing comes in, and no release ends. -/
def silence : SamplerInput := ⟨none, fun _ ↦ false⟩

/-- The condition on the signals is what makes a buffer safe, whatever may come in. -/
theorem fits_iff (tuning : Tuning) : x.Fits m ↔
    ∀ inputs, Meets (outputSample tuning m) (Ready m) (x.refresh m) inputs →
      ∀ r ∈ (x.execute tuning m inputs).1, r.Inside m := by
  refine ⟨fun hfits _ hready ↦ inside_execute hfits hready, fun h k ↦ ?_⟩
  have hstep : ∀ y : Sampler,
      ((y.outputSample tuning m silence).2.note k).toVoice = ((y.note k).render false).2 ∧
        ∀ r ∈ ((y.note k).render false).1, r ∈ (y.outputSample tuning m silence).1 := by
    intro y
    rw [← Bool.and_false (y.note k).released]
    exact ⟨rfl, fun r hr ↦ List.mem_flatMap.mpr ⟨k, List.mem_finRange k, hr⟩⟩
  exact Voice.fits_of_inside (fun y : Sampler ↦ (y.note k).toVoice) hstep rfl
    fun n ↦ h _ (Meets.replicate (fun _ ↦ nofun) n _)

/-- A note that begins without anything to be read does read. -/
theorem ready_of_inside {input : SamplerInput}
    (h : ∀ r ∈ (x.outputSample tuning m input).1, r.Inside m) : x.Ready m input := by
  intro e he hon hfree a s hsignal
  have hreceive : x.receive tuning m input.event = x.startNote tuning m e.data := by
    rw [he]
    dsimp only [receive]
    rw [VoiceMessage.is_eq_false (by decide) hon, if_neg nofun, if_pos hon]
  obtain ⟨j, hj⟩ := Voice.exists_find_inactive hfree
  have hvoice : ((x.startNote tuning m e.data).note j).toVoice =
      (x.note j).start x.program e.data (some (a, s)) (tStep tuning e.data) := by
    rw [startNote, hj]
    dsimp only
    rw [Function.update_self, hsignal]
  let y := x.startNote tuning m e.data
  have hread : ∀ r ∈ ((y.note j).render ((y.note j).released && input.ended j)).1, r.Inside m := by
    intro r hr
    refine h r (List.mem_flatMap.mpr ⟨j, List.mem_finRange j, ?_⟩)
    rw [hreceive]
    exact hr
  exact Voice.playable_of_inside hvoice (SampleMemory.getSignal_eq_some.mp hsignal).2 hread

/-- The condition under which a step reads inside. -/
def Permitted (tuning : Tuning) (s : SampleMemory × Sampler) : SamplerStep → Prop
  | .execute inputs =>
    s.2.Fits s.1 ∧ Meets (outputSample tuning s.1) (Ready s.1) (s.2.refresh s.1) inputs
  | _ => True

theorem inside_step {s s' : SampleMemory × Sampler} {a : SamplerStep} {log : List SampleRead}
    (hstep : step tuning s a = some (log, s')) (ha : Permitted tuning s a) :
    ∀ r ∈ log, r.Inside s.1 := by
  cases a with
  | execute inputs =>
    obtain ⟨rfl, -⟩ := Prod.mk.inj (Option.some.inj hstep)
    exact inside_execute ha.1 ha.2
  | setMidiChannel | setProgram | reset | signals =>
    obtain ⟨rfl, -⟩ := Prod.mk.inj (Option.some.inj hstep)
    exact fun r hr ↦ by cases hr

end Sampler

/-! ## The drum sampler -/

namespace DrumSampler

variable {fsQ : Int} {m : SampleMemory} {x : DrumSampler}

/-- The signals that the active voices find when a buffer begins cover them. -/
def Fits (m : SampleMemory) (x : DrumSampler) : Prop :=
  ∀ k, (x.note k).Fits m (x.sampleIndex (x.note k).i)

/-- The signals that the active voices point to cover them. -/
def Backed (m : SampleMemory) (x : DrumSampler) : Prop := ∀ k, (x.note k).Backed m

/-- If a note begins, then there is something to be read in its signal, should it be read. -/
def Ready (m : SampleMemory) (x : DrumSampler) (event : Option VoiceMessage) : Prop :=
  ∀ e, event = some e → e.is midiNoteOn x.midiChannel = true → (∃ k, (x.note k).active = false) →
    ∀ a s, m.getSignal (x.sampleIndex (sampleNumber e.data)) = some (a, s) → s.dimension = .zeroD →
      s.Playable

theorem backed_receive (h : x.Backed m) {event : Option VoiceMessage} (hready : x.Ready m event) :
    (x.receive fsQ m event).Backed m := by
  cases hevent : event with
  | none => exact h
  | some e =>
    dsimp only [receive]
    split
    · next hon =>
      rw [startNote]
      split
      · exact h
      · next k hk =>
        intro j
        by_cases hj : j = k
        · subst hj
          dsimp only
          rw [Function.update_self]
          refine Voice.backed_start _ _ _ fun a s hsample ↦ ?_
          obtain ⟨hsignal, hdimension⟩ := Option.filter_eq_some_iff.mp hsample
          refine ⟨(SampleMemory.getSignal_eq_some.mp hsignal).2, ?_⟩
          exact hready e hevent hon ⟨j, by simpa using List.find?_some hk⟩ a s hsignal
            (of_decide_eq_true hdimension)
        · dsimp only
          rw [Function.update_of_ne hj]
          exact h j
    · exact h

theorem backed_outputSample (h : x.Backed m) {event : Option VoiceMessage}
    (hready : x.Ready m event) : (x.outputSample fsQ m event).2.Backed m ∧
      ∀ r ∈ (x.outputSample fsQ m event).1, r.Inside m := by
  have hreceived : (x.receive fsQ m event).Backed m := backed_receive h hready
  exact Voice.backed_renderAll hreceived _

/-- When the signals fit as the buffer begins, and there is something to be read wherever a note
begins, then all that is read is inside. -/
theorem inside_execute {events : List (Option VoiceMessage)} (hfits : x.Fits m)
    (hready : Meets (outputSample fsQ m) (Ready m) (x.refresh m) events) :
    ∀ r ∈ (x.execute fsQ m events).1, r.Inside m :=
  (hready.runLogged (Backed m) (SampleRead.Inside m)
    (fun _ _ hbacked hready ↦ backed_outputSample hbacked hready)
    fun k ↦ Voice.backed_refresh (hfits k)).2

/-- The condition on the signals is what makes a buffer safe, whatever may come in. -/
theorem fits_iff (fsQ : Int) : x.Fits m ↔
    ∀ events, Meets (outputSample fsQ m) (Ready m) (x.refresh m) events →
      ∀ r ∈ (x.execute fsQ m events).1, r.Inside m := by
  refine ⟨fun hfits _ hready ↦ inside_execute hfits hready, fun h k ↦ ?_⟩
  have hstep : ∀ y : DrumSampler,
      (y.outputSample fsQ m none).2.note k = ((y.note k).render false).2 ∧
        ∀ r ∈ ((y.note k).render false).1, r ∈ (y.outputSample fsQ m none).1 :=
    fun y ↦ ⟨rfl, fun r hr ↦ List.mem_flatMap.mpr ⟨k, List.mem_finRange k, hr⟩⟩
  exact Voice.fits_of_inside (fun y : DrumSampler ↦ y.note k) hstep rfl
    fun n ↦ h _ (Meets.replicate (fun _ ↦ nofun) n _)

/-- A note that begins without anything to be read does read. -/
theorem ready_of_inside {event : Option VoiceMessage}
    (h : ∀ r ∈ (x.outputSample fsQ m event).1, r.Inside m) : x.Ready m event := by
  rintro e rfl hon hfree a s hsignal hdimension
  have hreceive : x.receive fsQ m (some e) = x.startNote fsQ m e.data := if_pos hon
  obtain ⟨j, hj⟩ := Voice.exists_find_inactive hfree
  let i := sampleNumber e.data
  have hvoice : (x.startNote fsQ m e.data).note j =
      (x.note j).start i e.data (some (a, s)) fun _ ↦
        UInt32.ofInt (divfp24p8 (itofp24p8 (x.sampleFrequency i)) fsQ) := by
    rw [startNote, hj]
    dsimp only
    rw [Function.update_self, hsignal, Option.filter_some, if_pos (decide_eq_true hdimension)]
  have hread : ∀ r ∈ (((x.startNote fsQ m e.data).note j).render false).1, r.Inside m := by
    intro r hr
    refine h r (List.mem_flatMap.mpr ⟨j, List.mem_finRange j, ?_⟩)
    rw [hreceive]
    exact hr
  exact Voice.playable_of_inside hvoice (SampleMemory.getSignal_eq_some.mp hsignal).2 hread

/-- The condition under which a step reads inside. -/
def Permitted (fsQ : Int) (s : SampleMemory × DrumSampler) : DrumSamplerStep → Prop
  | .execute events =>
    s.2.Fits s.1 ∧ Meets (outputSample fsQ s.1) (Ready s.1) (s.2.refresh s.1) events
  | _ => True

theorem inside_step {s s' : SampleMemory × DrumSampler} {a : DrumSamplerStep}
    {log : List SampleRead} (hstep : step fsQ s a = some (log, s')) (ha : Permitted fsQ s a) :
    ∀ r ∈ log, r.Inside s.1 := by
  cases a with
  | execute inputs =>
    obtain ⟨rfl, -⟩ := Prod.mk.inj (Option.some.inj hstep)
    exact inside_execute ha.1 ha.2
  | setMidiChannel | setSampleIndex | setSampleFrequency | reset | signals =>
    obtain ⟨rfl, -⟩ := Prod.mk.inj (Option.some.inj hstep)
    exact fun r hr ↦ by cases hr

end DrumSampler

/-! ## Every run -/

/-- All that a step reads is inside. -/
def ReadsInside {M : Type} (s : SampleMemory × M) (log : List SampleRead) : Prop :=
  ∀ r ∈ log, r.Inside s.1

/-- In a run all of whose steps meet the condition, all that is read is inside. -/
theorem voices_inside (tuning : Tuning) (fsQ : Int) (m : SampleMemory) :
    (∀ steps s,
      Run (Sampler.step tuning) (fun s a _ ↦ Sampler.Permitted tuning s a) (m, .init) steps s →
        Run (Sampler.step tuning) (fun s _ log ↦ ReadsInside s log) (m, .init) steps s) ∧
    ∀ steps s,
      Run (DrumSampler.step fsQ) (fun s a _ ↦ DrumSampler.Permitted fsQ s a) (m, .init) steps s →
        Run (DrumSampler.step fsQ) (fun s _ log ↦ ReadsInside s log) (m, .init) steps s := by
  constructor
  · intro steps s hrun
    refine hrun.of_step ?_
    intro s a log s' hstep ha
    exact Sampler.inside_step hstep ha
  · intro steps s hrun
    refine hrun.of_step ?_
    intro s a log s' hstep ha
    exact DrumSampler.inside_step hstep ha

/-- A sample of two values. -/
def twoValues : Sample where
  toStaticSignal := ⟨.zeroD, .bits16, 1, 2, 44100, [], [], [0, 0]⟩
  nonneg := by decide
  length := by decide

/-- A sample of one value. -/
def oneValue : Sample where
  toStaticSignal := ⟨.zeroD, .bits16, 1, 1, 44100, [], [], [0]⟩
  nonneg := by decide
  length := by decide

/-- All notes play the samples as they are. -/
def plainTuning : Tuning := ⟨fun _ ↦ 65536, fun _ ↦ 65536⟩

/-- A note on. -/
def noteOnMessage : VoiceMessage := ⟨0x90, 60⟩

theorem voices_inside_twoValues :
    (∃ s, Run (Sampler.step plainTuning) (fun s _ log ↦ ReadsInside s log) (.empty, .init)
      [.signals (.replaceSignal 0 twoValues), .execute [⟨some noteOnMessage, fun _ ↦ false⟩]] s) ∧
    ∃ s, Run (DrumSampler.step (44100 * 256)) (fun s _ log ↦ ReadsInside s log) (.empty, .init)
      [.signals (.replaceSignal 0 twoValues), .execute [some noteOnMessage]] s := by
  have hplayable : ∀ a s, (SampleMemory.empty.replaceSignal 0 twoValues).getSignal 0 = some (a, s) →
      s.Playable := by
    intro a s h
    rw [SampleMemory.getSignal_replaceSignal] at h
    obtain ⟨-, rfl⟩ := Prod.mk.inj (Option.some.inj h)
    intro _ hempty
    cases hempty
  constructor
  · refine ⟨_, (voices_inside plainTuning (44100 * 256) .empty).1 _ _ (.cons rfl trivial
      (.cons rfl ⟨fun k h ↦ ?_, fun e he _ _ ↦ hplayable, trivial⟩ (.nil _)))⟩
    cases h
  · refine ⟨_, (voices_inside plainTuning (44100 * 256) .empty).2 _ _ (.cons rfl trivial
      (.cons rfl ⟨fun k h ↦ ?_, ?_, trivial⟩ (.nil _)))⟩
    · cases h
    · intro e he _ _ a s hsignal _
      obtain rfl := Option.some.inj he
      exact hplayable a s hsignal

/-- Where a sample is replaced by a shorter one, its voice reads behind the end. -/
theorem replaced_outside : ¬ ∀ steps s,
    Run (Sampler.step plainTuning) (fun _ _ _ ↦ True) (.empty, .init) steps s →
      Run (Sampler.step plainTuning) (fun s _ log ↦ ReadsInside s log) (.empty, .init) steps s := by
  intro h
  have hrun := h [.signals (.replaceSignal 0 twoValues),
    .execute [⟨some noteOnMessage, fun _ ↦ false⟩], .signals (.replaceSignal 0 oneValue),
    .execute [⟨none, fun _ ↦ false⟩]] _ (.cons rfl trivial (.cons rfl trivial (.cons rfl trivial
      (.cons rfl trivial (.nil _)))))
  cases hrun with
  | cons hstep _ hrun =>
  obtain ⟨-, rfl⟩ := Prod.mk.inj (Option.some.inj hstep)
  cases hrun with
  | cons hstep _ hrun =>
  obtain ⟨-, rfl⟩ := Prod.mk.inj (Option.some.inj hstep)
  cases hrun with
  | cons hstep _ hrun =>
  obtain ⟨-, rfl⟩ := Prod.mk.inj (Option.some.inj hstep)
  cases hrun with
  | cons hstep hok _ =>
  obtain ⟨rfl, -⟩ := Prod.mk.inj (Option.some.inj hstep)
  obtain ⟨s, hs, -, hlt⟩ := hok ⟨1, .bits16, 1⟩ (by decide)
  obtain rfl : oneValue = s := Option.some.inj hs
  exact absurd hlt (by decide)

end Vuknob
