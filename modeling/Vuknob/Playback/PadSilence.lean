import Vuknob.Playback.PadNotes
import Vuknob.Playback.PadRecording

/-!
# Runs of the pad without stuck notes

The sessions together: every note that is on is on in a session, only the current session has
motions that are being made, and only for fingers that are down.
-/

namespace Vuknob

open Library

namespace Pad

/-- A note that a session has on. -/
def Sounding (p : Pad) (n : Int) : Prop := ∃ s ∈ p.recordedSessions, s.Sounding n

/-- All sessions are in order, when the given events have been processed; the current one may have
motions that are yet to read these scales. -/
structure Sane (scales : Scales) (p : Pad) (handled : List PadEvent) : Prop where
  numbers : (p.recordedSessions.map PadSession.number).Nodup
  made : ∀ s ∈ p.recordedSessions, s.number < p.made
  others : ∀ s ∈ p.sessions, (∀ later, s.Sane later) ∧ ∀ f k, ¬ (s.finger f).Open k
  current : ∀ s, p.currentSession = some s →
    s.Sane scales ∧ s.terminated = false ∧ s.toBeDeleted = false ∧ s.inPlay = true
  alive : ∀ f, (p.fingerOf f).toBeDeleted = false
  down : ∀ f k, (p.fingerOf f).Open k → heldAfter (eventsOf f handled) = true

theorem Sane.new (scales : Scales) : Sane scales .new [] where
  numbers := .nil
  made := nofun
  others := nofun
  current := nofun
  alive _ := rfl
  down _ _ h := absurd h.1 nofun

theorem Sane.fingerOf {p : Pad} {scales : Scales} {handled : List PadEvent}
    (h : p.Sane scales handled) (f : PadFingerId) : (p.fingerOf f).Sane scales := by
  rw [Pad.fingerOf]
  split
  · next s hs => exact (h.current s hs).1.fingers f
  · exact .new scales

/-- The current session with the finger that an event was for. -/
theorem sessions_processEvent {p : Pad} (tick : Int) (loop : Option (Int × Int)) {pe : PadEvent}
    {f : PadFingerId} (hf : pe.fingerId = some f) : ∃ s' : PadSession,
      (processEvent tick loop p pe).sessions = p.sessions ∧
      (processEvent tick loop p pe).currentSession = some s' ∧
      (∀ g, s'.finger g = (processEvent tick loop p pe).fingerOf g) ∧
      (∀ s, p.currentSession = some s → s'.number = s.number ∧ s'.terminated = s.terminated ∧
        s'.toBeDeleted = s.toBeDeleted ∧ s'.inPlay = s.inPlay ∧
        (processEvent tick loop p pe).made = p.made) ∧
      (p.currentSession = none → s'.number = p.made ∧ s'.terminated = false ∧
        s'.toBeDeleted = false ∧ s'.inPlay = true ∧
        (processEvent tick loop p pe).made = p.made + 1) := by
  obtain ⟨s, made, hs, heq⟩ := p.processEvent_eq tick loop hf
  rw [heq]
  refine ⟨_, rfl, rfl, fun g ↦ rfl, ?_, ?_⟩
  · intro t ht
    rcases hs with ⟨hs, hmade⟩ | ⟨hs, -⟩
    · obtain rfl := Option.some.inj (hs.symm.trans ht)
      exact ⟨rfl, rfl, rfl, rfl, hmade⟩
    · exact absurd (hs.symm.trans ht) nofun
  · intro hnone
    rcases hs with ⟨hs, -⟩ | ⟨-, rfl, hmade⟩
    · exact absurd (hnone.symm.trans hs) nofun
    · exact ⟨rfl, rfl, rfl, rfl, hmade⟩

/-- There is a release of the finger among the events. -/
def releases (f : PadFingerId) (events : List PadEvent) : Bool :=
  (eventsOf f events).any fun pe ↦ pe.t = .msPadRelease

/-- The motion at `k` of a finger of a session is played, and it is some ticks from its end. -/
def Tracks (p : Pad) (rest : List PadEvent) (number : Nat) (f : PadFingerId) (k n : Nat) : Prop :=
  ∀ s ∈ p.recordedSessions, s.number = number → k ∈ (s.finger f).playingMotions ∧
    ((s.finger f).motions k).Near (releases f rest) n

/-- A motion that is not being made is terminated. -/
theorem terminated_of_not_open {F : PadFinger} {scales : Scales} (h : F.Sane scales) {k : Nat}
    (hk : k ∈ F.playingMotions) (hopen : ¬ F.Open k) : (F.motions k).terminated = true := by
  rcases h.closed k hk with hterminated | hcurrent
  · exact hterminated
  · cases hterminated : (F.motions k).terminated with
    | true => rfl
    | false => exact absurd ⟨hcurrent, hterminated⟩ hopen

theorem releases_cons (f : PadFingerId) (pe : PadEvent) (rest : List PadEvent) :
    releases f (pe :: rest) =
      if pe.fingerId = some f then decide (pe.t = .msPadRelease) || releases f rest
      else releases f rest := by
  rw [releases, eventsOf, List.filter_cons]
  by_cases hf : pe.fingerId = some f
  · rw [if_pos (by simpa using hf), if_pos hf, List.any_cons]
    rfl
  · rw [if_neg (by simpa using hf), if_neg hf, releases, eventsOf]

section Events

variable {p : Pad} {scales : Scales} {handled : List PadEvent} (tick : Int)
  (loop : Option (Int × Int)) {pe : PadEvent} {f : PadFingerId}

/-- A new session gets the next number. -/
theorem Sane.numbers_processEvent (h : p.Sane scales handled) (hf : pe.fingerId = some f) :
    ((Pad.processEvent tick loop p pe).recordedSessions.map PadSession.number).Nodup ∧
      ∀ s ∈ (Pad.processEvent tick loop p pe).recordedSessions,
        s.number < (Pad.processEvent tick loop p pe).made := by
  obtain ⟨s', hsame, hnow, -, hsome, hnone⟩ := p.sessions_processEvent tick loop hf
  have hnumbers := h.numbers
  rw [Pad.recordedSessions, hsame, hnow, Option.toList_some]
  cases hcurrent : p.currentSession with
  | some s =>
    obtain ⟨hnumber, -, -, -, hmade⟩ := hsome s hcurrent
    rw [Pad.recordedSessions, hcurrent, Option.toList_some, List.map_append, List.map_singleton,
      ← hnumber, ← List.map_singleton (f := PadSession.number), ← List.map_append] at hnumbers
    refine ⟨hnumbers, fun t ht ↦ ?_⟩
    rw [hmade]
    rcases List.mem_append.mp ht with ht | ht
    · exact h.made t (List.mem_append_left _ ht)
    · rw [List.mem_singleton.mp ht, hnumber]
      exact h.made s (List.mem_append_right _ (by simp [hcurrent]))
  | none =>
    obtain ⟨hnumber, -, -, -, hmade⟩ := hnone hcurrent
    rw [Pad.recordedSessions, hcurrent, Option.toList_none, List.append_nil] at hnumbers
    have hbefore : ∀ t ∈ p.sessions, t.number < p.made := fun t ht ↦
      h.made t (List.mem_append_left _ ht)
    constructor
    · rw [List.map_append, List.map_singleton, hnumber]
      refine List.nodup_append'.mpr ⟨hnumbers, List.nodup_singleton _, fun number hmem hnew ↦ ?_⟩
      obtain ⟨t, ht, rfl⟩ := List.mem_map.mp hmem
      exact absurd (List.mem_singleton.mp hnew) (hbefore t ht).ne
    · intro t ht
      rw [hmade]
      rcases List.mem_append.mp ht with ht | ht
      · exact Nat.lt_succ_of_lt (hbefore t ht)
      · rw [List.mem_singleton.mp ht, hnumber]
        exact Nat.lt_succ_self _

/-- The current session is one that goes on being played. -/
theorem Sane.flags_processEvent (h : p.Sane scales handled) (hf : pe.fingerId = some f) :
    ∀ s, (Pad.processEvent tick loop p pe).currentSession = some s →
      s.terminated = false ∧ s.toBeDeleted = false ∧ s.inPlay = true := by
  obtain ⟨s', -, hnow, -, hsome, hnone⟩ := p.sessions_processEvent tick loop hf
  intro s hs
  obtain rfl := Option.some.inj (hnow.symm.trans hs)
  cases hcurrent : p.currentSession with
  | some t =>
    obtain ⟨-, hterminated, hdeleted, hplay, -⟩ := hsome t hcurrent
    obtain ⟨-, ht⟩ := h.current t hcurrent
    exact ⟨hterminated.trans ht.1, hdeleted.trans ht.2.1, hplay.trans ht.2.2⟩
  | none =>
    obtain ⟨-, hterminated, hdeleted, hplay, -⟩ := hnone hcurrent
    exact ⟨hterminated, hdeleted, hplay⟩

/-- A finger is pressed only when it is up. -/
theorem Sane.closed (h : p.Sane scales handled) (hf : pe.fingerId = some f)
    (halternating : Alternating (handled ++ [pe])) (ht : pe.t = .msPadPress) {k : Nat}
    (hk : (p.fingerOf f).current = some k) : ((p.fingerOf f).motions k).terminated = true := by
  have hallowed := halternating.next hf
  rw [ht] at hallowed
  refine terminated_of_not_open (h.fingerOf f) ((h.fingerOf f).current k hk) fun hopen ↦ ?_
  rw [h.down f k hopen] at hallowed
  cases hallowed

/-- The fingers after an event. -/
theorem Sane.fingerOf_processEvent (h : p.Sane scales handled) (hf : pe.fingerId = some f)
    (halternating : Alternating (handled ++ [pe]))
    (hconfig : pe.t = .msPadPress → PadMotion.inTune scales p.config = true) (g : PadFingerId) :
    ((Pad.processEvent tick loop p pe).fingerOf g).Sane scales ∧
      PadFinger.Kept (p.fingerOf g) ((Pad.processEvent tick loop p pe).fingerOf g) ∧
      ((Pad.processEvent tick loop p pe).fingerOf g).toBeDeleted = false ∧
      ∀ k, ((Pad.processEvent tick loop p pe).fingerOf g).Open k →
        heldAfter (eventsOf g (handled ++ [pe])) = true := by
  obtain ⟨position, hfinger⟩ := p.fingerOf_processEvent tick loop hf
  rw [hfinger, eventsOf_append_singleton, hf]
  by_cases hg : g = f
  · subst hg
    rw [if_pos rfl, if_pos rfl, heldAfter_append_singleton]
    obtain ⟨hsane, hkept⟩ := (h.fingerOf g).processFingerEvents hconfig
      (fun ht _ ↦ h.closed hf halternating ht) position
    refine ⟨hsane, hkept, ?_, ?_⟩
    · rw [PadFinger.toBeDeleted_processFingerEvents]
      exact h.alive g
    · exact PadFinger.open_processFingerEvents (h.alive g) (h.down g) p.config pe position
  · rw [if_neg hg, if_neg fun heq ↦ hg (Option.some.inj heq).symm]
    exact ⟨h.fingerOf g, .refl _, h.alive g, h.down g⟩

/-- A motion is as near to its end as it was, and as its finger is released. -/
theorem Sane.near_processEvent (h : p.Sane scales handled) (hf : pe.fingerId = some f)
    (halternating : Alternating (handled ++ [pe]))
    (hconfig : pe.t = .msPadPress → PadMotion.inTune scales p.config = true) {rest : List PadEvent}
    {g : PadFingerId} {k n : Nat} (hk : k ∈ (p.fingerOf g).playingMotions)
    (hnear : ((p.fingerOf g).motions k).Near (releases g (pe :: rest)) n) :
    (((Pad.processEvent tick loop p pe).fingerOf g).motions k).Near (releases g rest) n := by
  obtain ⟨position, hfinger⟩ := p.fingerOf_processEvent tick loop hf
  rw [releases_cons, hf] at hnear
  rw [hfinger]
  by_cases hg : g = f
  · subst hg
    rw [if_pos rfl] at hnear ⊢
    exact (h.fingerOf g).near_processFingerEvents (h.alive g) hconfig
      (fun ht _ ↦ h.closed hf halternating ht) position hk hnear
  · rw [if_neg fun heq ↦ hg (Option.some.inj heq).symm] at hnear
    rwa [if_neg hg]

/-- An event of a finger that is up or down as it has to be, with a configuration that is in tune
if it is a press. -/
theorem Sane.processEvent (h : p.Sane scales handled) (halternating : Alternating (handled ++ [pe]))
    (hconfig : pe.t = .msPadPress → PadMotion.inTune scales p.config = true) :
    (Pad.processEvent tick loop p pe).Sane scales (handled ++ [pe]) ∧
      (∀ n, p.Sounding n → (Pad.processEvent tick loop p pe).Sounding n) ∧
      ∀ number < p.made, ∀ rest f k n, p.Tracks (pe :: rest) number f k n →
        (Pad.processEvent tick loop p pe).Tracks rest number f k n := by
  cases hf : pe.fingerId with
  | none =>
    rw [Pad.processEvent, hf]
    refine ⟨⟨h.numbers, h.made, h.others, h.current, h.alive, fun g k hk ↦ ?_⟩, fun n hn ↦ hn, ?_⟩
    · rw [eventsOf_append_singleton, hf, if_neg (Option.some_ne_none _).symm]
      exact h.down g k hk
    · intro number _ rest g k n htracks s hs hnumber
      have hkept := htracks s hs hnumber
      rwa [releases_cons, hf, if_neg (Option.some_ne_none _).symm] at hkept
  | some f =>
    obtain ⟨s', hsame, hnow, hs', hsome, hnone⟩ := p.sessions_processEvent tick loop hf
    have hsessions : (Pad.processEvent tick loop p pe).recordedSessions = p.sessions ++ [s'] := by
      rw [Pad.recordedSessions, hsame, hnow, Option.toList_some]
    have hfingers := h.fingerOf_processEvent tick loop hf halternating hconfig
    have hnumbers := h.numbers_processEvent tick loop hf
    have hcurrent : ∀ s, p.currentSession = some s → ∀ g, s.finger g = p.fingerOf g := by
      intro s hs g
      rw [Pad.fingerOf, hs]
    refine ⟨⟨hnumbers.1, hnumbers.2, hsame ▸ h.others, fun s hs ↦ ?_, fun g ↦ (hfingers g).2.2.1,
      fun g ↦ (hfingers g).2.2.2⟩, ?_, ?_⟩
    · have hflags := h.flags_processEvent tick loop hf s hs
      obtain rfl := Option.some.inj (hnow.symm.trans hs)
      refine ⟨⟨fun g ↦ ?_, fun hidle ↦ ?_⟩, hflags⟩
      · rw [hs']
        exact (hfingers g).1
      · exact absurd (hidle.symm.trans hflags.2.2) Bool.false_ne_true
    · rintro n ⟨s, hs, g, hn⟩
      rw [Pad.Sounding, hsessions]
      rcases List.mem_append.mp hs with hs | hs
      · exact ⟨s, List.mem_append_left _ hs, g, hn⟩
      · rw [hcurrent s (Option.mem_toList.mp hs) g] at hn
        refine ⟨s', List.mem_append_right _ (List.mem_singleton_self _), g, ?_⟩
        rw [hs']
        exact (hfingers g).2.1.sounding n hn
    · intro number hnumber rest g k n htracks s hs hnum
      rw [hsessions] at hs
      rcases List.mem_append.mp hs with hs | hs
      · obtain ⟨hk, hnear⟩ := htracks s (List.mem_append_left _ hs) hnum
        obtain ⟨hsane, hopen⟩ := h.others s hs
        have hterminated := terminated_of_not_open ((hsane scales).fingers g) hk (hopen g k)
        exact ⟨hk, PadMotion.SameTime.near ⟨rfl, rfl, rfl, rfl⟩ hnear hterminated⟩
      · rw [List.mem_singleton.mp hs] at hnum ⊢
        cases hnow' : p.currentSession with
        | none =>
          rw [(hnone hnow').1] at hnum
          exact absurd hnumber (by omega)
        | some t =>
          rw [(hsome t hnow').1] at hnum
          obtain ⟨hk, hnear⟩ := htracks t (List.mem_append_right _ (by simp [hnow'])) hnum
          rw [hcurrent t hnow' g] at hk hnear
          rw [hs']
          exact ⟨(hfingers g).2.1.playing k hk,
            h.near_processEvent tick loop hf halternating hconfig hk hnear⟩

end Events

theorem config_processEvent (p : Pad) (tick : Int) (loop : Option (Int × Int)) (pe : PadEvent) :
    (Pad.processEvent tick loop p pe).config = p.config := by
  obtain ⟨current, made, heq⟩ := foldl_processEvent_eq tick loop [pe] p
  rw [List.foldl_cons, List.foldl_nil] at heq
  rw [heq]

theorem made_processEvent (p : Pad) (tick : Int) (loop : Option (Int × Int)) (pe : PadEvent) :
    p.made ≤ (Pad.processEvent tick loop p pe).made := by
  cases hf : pe.fingerId with
  | none => rw [Pad.processEvent, hf]
  | some f =>
    obtain ⟨s, made, hs, heq⟩ := p.processEvent_eq tick loop hf
    rw [heq]
    dsimp only
    rcases hs with ⟨-, hmade⟩ | ⟨-, -, hmade⟩ <;> omega

/-- All events of a tick. -/
theorem Sane.foldl_processEvent {p : Pad} {scales : Scales} {handled : List PadEvent}
    (h : p.Sane scales handled) (tick : Int) (loop : Option (Int × Int)) {events : List PadEvent}
    (halternating : Alternating (handled ++ events))
    (hconfig : ∀ pe ∈ events, pe.t = .msPadPress → PadMotion.inTune scales p.config = true) :
    (events.foldl (Pad.processEvent tick loop) p).Sane scales (handled ++ events) ∧
      (∀ n, p.Sounding n → (events.foldl (Pad.processEvent tick loop) p).Sounding n) ∧
      ∀ number < p.made, ∀ f k n, p.Tracks events number f k n →
        (events.foldl (Pad.processEvent tick loop) p).Tracks [] number f k n := by
  induction events generalizing p handled with
  | nil =>
    rw [List.append_nil]
    exact ⟨h, fun n hn ↦ hn, fun _ _ _ _ _ htracks ↦ htracks⟩
  | cons pe events ih =>
    rw [List.append_cons] at halternating ⊢
    obtain ⟨hsane, hsounding, htracks⟩ :=
      h.processEvent tick loop halternating.init (hconfig pe (List.mem_cons_self ..))
    obtain ⟨hsane', hsounding', htracks'⟩ := ih hsane halternating fun pe' hpe' ↦ by
      rw [config_processEvent]
      exact hconfig pe' (List.mem_cons_of_mem pe hpe')
    refine ⟨hsane', fun n hn ↦ hsounding' n (hsounding n hn), fun number hnumber f k n h ↦ ?_⟩
    exact htracks' number (hnumber.trans_le (p.made_processEvent tick loop pe)) f k n
      (htracks number hnumber events f k n h)

/-! ### Ticks -/

/-- A tick takes sessions away and leaves the numbers of the others. -/
theorem sublist_numbers {l : List PadSession} {played : PadSession → Option PadSession}
    (h : ∀ s ∈ l, ∀ s', played s = some s' → s'.number = s.number) :
    ((l.filterMap played).map PadSession.number).Sublist (l.map PadSession.number) := by
  induction l with
  | nil => exact .slnil
  | cons s l ih =>
    have hrest := ih fun t ht ↦ h t (List.mem_cons_of_mem s ht)
    cases hs : played s with
    | none =>
      rw [List.filterMap_cons_none hs, List.map_cons]
      exact hrest.cons _
    | some s' =>
      rw [List.filterMap_cons_some hs, List.map_cons, List.map_cons,
        h s (List.mem_cons_self ..) s' hs]
      exact hrest.cons_cons _

/-- A session that is not terminated stays in play. -/
theorem play_of_inPlay {s : PadSession} (hterminated : s.terminated = false)
    (hdeleted : s.toBeDeleted = false) (hplay : s.inPlay = true)
    (doRecord noSound quantize : Bool) (tick : Int) (scales : Scales) :
    ∃ s', (s.play doRecord noSound quantize tick scales).2 = some s' ∧ s'.inPlay = true := by
  have hsame : s.startPlay tick = s := by rw [PadSession.startPlay, if_pos hplay]
  rw [PadSession.play, hsame, if_pos hplay]
  exact ⟨(s.processSession doRecord noSound quantize scales).2.2,
    by simp [PadSession.processSession, hdeleted],
    by simp [PadSession.processSession, hterminated]⟩

theorem recordedSessions_processSessions (mute : Bool) (tick : Int) (scales : Scales) (p : Pad) :
    (p.processSessions mute tick scales).2.recordedSessions =
      p.sessions.filterMap (fun s ↦ (p.playSession mute tick scales s).2) ++
        p.currentSession.toList.filterMap fun s ↦ (p.playSession false tick scales s).2 := by
  rw [Pad.recordedSessions, Pad.processSessions]
  cases p.currentSession with
  | none => rfl
  | some s => cases hs : (p.playSession false tick scales s).2 <;> simp [hs]

section Sessions

variable {p : Pad} {scales : Scales} {handled : List PadEvent} (mute : Bool) (tick : Int)

/-- A tick of a session that is not the current one. -/
theorem Sane.playOther (h : p.Sane scales handled) {s : PadSession} (hs : s ∈ p.sessions) :
    (∀ s', (p.playSession mute tick scales s).2 = some s' → s.Follows s') ∧
      Accounts PadCall.Starts PadCall.Ends s.Sounding (p.playSession mute tick scales s).1
        fun n ↦ ∃ s', (p.playSession mute tick scales s).2 = some s' ∧ s'.Sounding n :=
  ((h.others s hs).1 scales).play (fun _ ↦ (h.others s hs).1) p.doRecord mute p.doQuantize tick

/-- A tick of the current session, which stays in play. -/
theorem Sane.playCurrent (h : p.Sane scales handled) {s : PadSession}
    (hs : p.currentSession = some s) :
    (∃ s', (p.playSession false tick scales s).2 = some s' ∧ s.Follows s' ∧ s'.inPlay = true) ∧
      Accounts PadCall.Starts PadCall.Ends s.Sounding (p.playSession false tick scales s).1
        fun n ↦ ∃ s', (p.playSession false tick scales s).2 = some s' ∧ s'.Sounding n := by
  obtain ⟨hsane, hterminated, hdeleted, hplay⟩ := h.current s hs
  obtain ⟨hfollows, haccounts⟩ := hsane.play (fun hidle ↦ absurd (hidle.symm.trans hplay) nofun)
    p.doRecord false p.doQuantize tick
  obtain ⟨s', heq, hplay'⟩ := play_of_inPlay hterminated hdeleted hplay p.doRecord false
    p.doQuantize tick scales
  exact ⟨⟨s', heq, hfollows s' heq, hplay'⟩, haccounts⟩

/-- What becomes of the current session. -/
theorem Sane.currentSession_processSessions (h : p.Sane scales handled) :
    (p.currentSession = none ∧ (p.processSessions mute tick scales).2.currentSession = none) ∨
      ∃ s s', p.currentSession = some s ∧ s.Follows s' ∧ s'.inPlay = true ∧
        (p.processSessions mute tick scales).2.currentSession = some s' := by
  rw [Pad.processSessions]
  cases hs : p.currentSession with
  | none => exact .inl ⟨rfl, rfl⟩
  | some s =>
    obtain ⟨⟨s', heq, hfollows, hplay⟩, -⟩ := h.playCurrent tick hs
    exact .inr ⟨s, s', rfl, hfollows, hplay, heq⟩

/-- The fingers are those of the current session. -/
theorem Sane.fingerOf_processSessions (h : p.Sane scales handled) (f : PadFingerId) :
    ((p.processSessions mute tick scales).2.fingerOf f).toBeDeleted = (p.fingerOf f).toBeDeleted ∧
      ∀ k, ((p.processSessions mute tick scales).2.fingerOf f).Open k → (p.fingerOf f).Open k := by
  rw [Pad.fingerOf, Pad.fingerOf]
  rcases h.currentSession_processSessions mute tick with ⟨hs, hs'⟩ | ⟨s, s', hs, hfollows, -, hs'⟩
  · rw [hs, hs']
    exact ⟨rfl, fun _ ↦ id⟩
  · rw [hs, hs']
    exact ⟨hfollows.alive f, hfollows.opened f⟩

/-- Every session that is left is one of before. -/
theorem Sane.follows_processSessions (h : p.Sane scales handled) :
    ∀ s' ∈ (p.processSessions mute tick scales).2.recordedSessions,
      ∃ s ∈ p.recordedSessions, s.Follows s' := by
  rw [recordedSessions_processSessions]
  intro s' hs'
  rcases List.mem_append.mp hs' with hs' | hs'
  · obtain ⟨s, hs, heq⟩ := List.mem_filterMap.mp hs'
    exact ⟨s, List.mem_append_left _ hs, (h.playOther mute tick hs).1 s' heq⟩
  · obtain ⟨s, hs, heq⟩ := List.mem_filterMap.mp hs'
    obtain ⟨⟨t, heq', hfollows, -⟩, -⟩ := h.playCurrent tick (Option.mem_toList.mp hs)
    obtain rfl := Option.some.inj (heq'.symm.trans heq)
    exact ⟨s, List.mem_append_right _ hs, hfollows⟩

/-- The calls of all sessions together. -/
theorem Sane.accounts_processSessions (h : p.Sane scales handled) :
    Accounts PadCall.Starts PadCall.Ends p.Sounding (p.processSessions mute tick scales).1
      (p.processSessions mute tick scales).2.Sounding := by
  have hall := (Accounts.flatMap fun s hs ↦ (h.playOther mute tick (s := s) hs).2).frame fun n ↦
    ∃ s ∈ p.currentSession.toList, s.Sounding n
  have hlast := (Accounts.flatMap fun s hs ↦
    (h.playCurrent tick (s := s) (Option.mem_toList.mp hs)).2).frame fun n ↦
      ∃ s ∈ p.sessions, ∃ s', (p.playSession mute tick scales s).2 = some s' ∧ s'.Sounding n
  refine ((hall.append (hlast.anti fun n hn ↦ hn.symm)).anti ?_).mono ?_
  · rintro n ⟨s, hs, hn⟩
    rcases List.mem_append.mp hs with hs | hs
    · exact .inl ⟨s, hs, hn⟩
    · exact .inr ⟨s, hs, hn⟩
  · intro n hn
    rw [Pad.Sounding, recordedSessions_processSessions]
    rcases hn with ⟨s, hs, s', heq, hn⟩ | ⟨s, hs, s', heq, hn⟩
    · exact ⟨s', List.mem_append_right _ (List.mem_filterMap.mpr ⟨s, hs, heq⟩), hn⟩
    · exact ⟨s', List.mem_append_left _ (List.mem_filterMap.mpr ⟨s, hs, heq⟩), hn⟩

/-- A tick of all sessions. -/
theorem Sane.processSessions (h : p.Sane scales handled) :
    (∀ later, (p.processSessions mute tick scales).2.Sane later handled) ∧
      Accounts PadCall.Starts PadCall.Ends p.Sounding (p.processSessions mute tick scales).1
        (p.processSessions mute tick scales).2.Sounding ∧
      ∀ s' ∈ (p.processSessions mute tick scales).2.recordedSessions,
        ∃ s ∈ p.recordedSessions, s.Follows s' := by
  have hfollows := h.follows_processSessions mute tick
  have hfinger := h.fingerOf_processSessions mute tick
  refine ⟨fun later ↦ ⟨?_, fun s' hs' ↦ ?_, fun s' hs' ↦ ?_, fun s' hs' ↦ ?_, fun f ↦ ?_,
    fun f k hk ↦ h.down f k ((hfinger f).2 k hk)⟩, h.accounts_processSessions mute tick, hfollows⟩
  · rw [recordedSessions_processSessions, List.map_append]
    have hnumbers := h.numbers
    rw [Pad.recordedSessions, List.map_append] at hnumbers
    refine hnumbers.sublist (.append (sublist_numbers ?_) (sublist_numbers ?_))
    · exact fun s hs s' heq ↦ ((h.playOther mute tick hs).1 s' heq).number
    · intro s hs s' heq
      obtain ⟨⟨t, heq', hfollow, -⟩, -⟩ := h.playCurrent tick (Option.mem_toList.mp hs)
      obtain rfl := Option.some.inj (heq'.symm.trans heq)
      exact hfollow.number
  · obtain ⟨s, hs, heq⟩ := hfollows s' hs'
    rw [heq.number]
    exact h.made s hs
  · obtain ⟨s, hs, heq⟩ := List.mem_filterMap.mp hs'
    have hfollow := (h.playOther mute tick hs).1 s' heq
    exact ⟨hfollow.sane, fun f k hk ↦ (h.others s hs).2 f k (hfollow.opened f k hk)⟩
  · rcases h.currentSession_processSessions mute tick with
      ⟨-, hnone⟩ | ⟨s, t, hs, hfollow, hplay, ht⟩
    · exact absurd (hnone.symm.trans hs') nofun
    · obtain rfl := Option.some.inj (ht.symm.trans hs')
      obtain ⟨-, hterminated, hdeleted, -⟩ := h.current s hs
      exact ⟨hfollow.sane later, hfollow.terminated.trans hterminated,
        hfollow.toBeDeleted.trans hdeleted, hplay⟩
  · rw [(hfinger f).1]
    exact h.alive f

end Sessions

/-- The motion at `k` of a finger of a session is played. -/
def Plays (p : Pad) (number : Nat) (f : PadFingerId) (k : Nat) : Prop :=
  ∃ s ∈ p.recordedSessions, s.number = number ∧ k ∈ (s.finger f).playingMotions

/-- A tick, with the events that have been waiting for it. -/
theorem Sane.process {p : Pad} {handled : List PadEvent} {around : PadSurroundings}
    (h : p.Sane around.scales handled) (halternating : Alternating (handled ++ p.padEventQueue))
    (hconfig : ∀ pe ∈ p.padEventQueue, pe.t = .msPadPress →
      PadMotion.inTune around.scales p.config = true) (mute : Bool) (tick : Int) :
    (∀ later, (p.process mute tick around).2.Sane later (handled ++ p.padEventQueue)) ∧
      Accounts PadCall.Starts PadCall.Ends p.Sounding (p.process mute tick around).1
        (p.process mute tick around).2.Sounding ∧
      ∀ number < p.made, ∀ f k n, p.Tracks p.padEventQueue number f k n →
        (p.process mute tick around).2.Plays number f k →
          ∃ n', n = n' + 1 ∧ (p.process mute tick around).2.Tracks [] number f k n' := by
  have hempty : Sane around.scales { p with padEventQueue := [] } handled :=
    ⟨h.numbers, h.made, h.others, h.current, h.alive, h.down⟩
  obtain ⟨hsane, hsounding, htracks⟩ :=
    hempty.foldl_processEvent tick around.loop halternating hconfig
  obtain ⟨hlater, haccounts, hfollows⟩ := hsane.processSessions mute tick
  refine ⟨hlater, haccounts.anti hsounding, ?_⟩
  rintro number hnumber f k n hnear ⟨s', hs', rfl, hk'⟩
  have hnow := htracks s'.number hnumber f k n hnear
  obtain ⟨s, hs, hfollow⟩ := hfollows s' hs'
  obtain ⟨hk, hnear⟩ := hnow s hs hfollow.number.symm
  obtain ⟨n', hn, hnear'⟩ := hfollow.near f k n hk hnear hk'
  refine ⟨n', hn, fun t ht hnumber ↦ ?_⟩
  -- there is one session of this number
  obtain rfl := List.inj_on_of_nodup_map (hlater none).numbers ht hs' hnumber
  exact ⟨hk', hnear'⟩

/-! ### The ends of sessions -/

/-- What a session becomes that gets no events any more. -/
structure Closes (s s' : PadSession) : Prop where
  sane : ∀ scales, s'.Sane scales
  closed : ∀ f k, ¬ (s'.finger f).Open k
  number : s'.number = s.number
  sounding : ∀ n, s.Sounding n → s'.Sounding n
  near : ∀ f k release later n, k ∈ (s.finger f).playingMotions →
    ((s.finger f).motions k).Near release n → k ∈ (s'.finger f).playingMotions ∧
      ((s'.finger f).motions k).Near later n

/-- A session without open motions whose fingers are kept. -/
theorem Closes.of_kept {s s' : PadSession} (hs : ∀ scales, s.Sane scales)
    (hopen : ∀ f k, ¬ (s.finger f).Open k) (hs' : ∀ scales, s'.Sane scales)
    (hopen' : ∀ f k, ¬ (s'.finger f).Open k) (hnumber : s'.number = s.number)
    (hkept : ∀ f, PadFinger.Kept (s.finger f) (s'.finger f)) : Closes s s' where
  sane := hs'
  closed := hopen'
  number := hnumber
  sounding := by
    rintro n ⟨f, hn⟩
    exact ⟨f, (hkept f).sounding n hn⟩
  near f k release later n hk hnear := by
    have hterminated := terminated_of_not_open ((hs none).fingers f) hk (hopen f k)
    exact ⟨(hkept f).playing k hk, ((hkept f).time k hk hterminated).near hnear hterminated⟩

theorem closes_deleteSession {s : PadSession} (hs : ∀ scales, s.Sane scales)
    (hopen : ∀ f k, ¬ (s.finger f).Open k) : Closes s s.deleteSession := by
  refine .of_kept hs hopen (fun scales ↦ ⟨?_, (hs scales).idle⟩) ?_ rfl ?_
  · exact fun f ↦ (((hs scales).fingers f).deletePadFinger).1
  · intro f k hk
    refine hopen f k ⟨hk.1, ?_⟩
    have hmotion : ((s.finger f).deletePadFinger.motions k).terminated = false := hk.2
    rw [PadFinger.deletePadFinger] at hmotion
    dsimp only at hmotion
    split at hmotion <;> exact hmotion
  · exact fun f ↦ (((hs none).fingers f).deletePadFinger).2

theorem closes_terminate {s : PadSession} (hs : ∀ scales, s.Sane scales)
    (hstop : ∀ f, (s.finger f).stoppable = true) : Closes s s.terminate := by
  have hfinger : ∀ scales f, _ := fun scales f ↦ ((hs scales).fingers f).terminate (hstop f)
  have hplaying : ∀ f, (s.terminate.finger f).playingMotions = (s.finger f).playingMotions := by
    intro f
    show (s.finger f).terminate.playingMotions = (s.finger f).playingMotions
    rw [PadFinger.terminate, PadFinger.onCurrent]
    split <;> rfl
  refine ⟨fun scales ↦ ⟨fun f ↦ (hfinger scales f).1, fun hidle f ↦ ?_⟩, fun f k hk ↦ ?_, rfl, ?_,
    fun f k release later n hk hnear ↦ ⟨(hplaying f).symm ▸ hk, ?_⟩⟩
  · rw [hplaying]
    exact (hs none).idle hidle f
  · have hopen : (s.finger f).terminate.Open k := hk
    rw [PadFinger.terminate, PadFinger.onCurrent] at hopen
    cases hj : (s.finger f).current with
    | none =>
      rw [hj] at hopen
      exact absurd (hj.symm.trans hopen.1) (Option.some_ne_none k).symm
    | some j =>
      rw [hj] at hopen
      obtain rfl : j = k := Option.some.inj (hj.symm.trans hopen.1)
      have hmotion : (Function.update (s.finger f).motions j
          ((s.finger f).motions j).terminate j).terminated = false := hopen.2
      rw [Function.update_self] at hmotion
      exact absurd hmotion.symm Bool.false_ne_true
  · rintro n ⟨f, hn⟩
    exact ⟨f, ((hfinger none f).2.1).sounding n hn⟩
  · obtain ⟨-, hkept, hends⟩ := hfinger none f
    cases hterminated : ((s.finger f).motions k).terminated with
    | true => exact (hkept.time k hk hterminated).near hnear hterminated
    | false =>
      cases n with
      | zero =>
        rw [PadMotion.Near, PadMotion.finished, hterminated] at hnear
        cases hnear
      | succ n =>
        rcases hnear with hnear | ⟨hn, -, -⟩
        · exact absurd (hterminated.symm.trans hnear.1) Bool.false_ne_true
        · exact .inl ((hends k hk hterminated).mono (by omega))

/-- All sessions get closed. -/
theorem Sane.close {p p' : Pad} {handled : List PadEvent} (h : ∀ scales, p.Sane scales handled)
    (others current : PadSession → PadSession)
    (hsessions : p'.sessions = p.sessions.map others ++ p.currentSession.toList.map current)
    (hnone : p'.currentSession = none) (hmade : p'.made = p.made)
    (hothers : ∀ s ∈ p.sessions, Closes s (others s))
    (hcurrent : ∀ s, p.currentSession = some s → Closes s (current s)) :
    (∀ scales, p'.Sane scales handled) ∧ (∀ n, p.Sounding n → p'.Sounding n) ∧
      ∀ rest number f k n, p.Tracks rest number f k n → p'.Tracks rest number f k n := by
  have hrecorded : p'.recordedSessions = p'.sessions := by
    rw [Pad.recordedSessions, hnone, Option.toList_none, List.append_nil]
  have hafter : ∀ s ∈ p.recordedSessions, ∃ s' ∈ p'.sessions, Closes s s' := by
    intro s hs
    rw [hsessions]
    rcases List.mem_append.mp hs with hs | hs
    · exact ⟨_, List.mem_append_left _ (List.mem_map_of_mem hs), hothers s hs⟩
    · exact ⟨_, List.mem_append_right _ (List.mem_map_of_mem hs),
        hcurrent s (Option.mem_toList.mp hs)⟩
  have hbefore : ∀ s' ∈ p'.sessions, ∃ s ∈ p.recordedSessions, Closes s s' := by
    intro s' hs'
    rw [hsessions] at hs'
    rcases List.mem_append.mp hs' with hs' | hs'
    · obtain ⟨s, hs, rfl⟩ := List.mem_map.mp hs'
      exact ⟨s, List.mem_append_left _ hs, hothers s hs⟩
    · obtain ⟨s, hs, rfl⟩ := List.mem_map.mp hs'
      exact ⟨s, List.mem_append_right _ hs, hcurrent s (Option.mem_toList.mp hs)⟩
  have hnumbers : p'.sessions.map PadSession.number =
      p.recordedSessions.map PadSession.number := by
    rw [hsessions, Pad.recordedSessions, List.map_append, List.map_append, List.map_map,
      List.map_map]
    congr 1
    · exact List.map_congr_left fun s hs ↦ (hothers s hs).number
    · exact List.map_congr_left fun s hs ↦ (hcurrent s (Option.mem_toList.mp hs)).number
  refine ⟨fun scales ↦ ⟨?_, ?_, ?_, ?_, ?_, ?_⟩, ?_, ?_⟩
  · rw [hrecorded, hnumbers]
    exact (h scales).numbers
  · rw [hrecorded, hmade]
    intro s' hs'
    obtain ⟨s, hs, hclose⟩ := hbefore s' hs'
    rw [hclose.number]
    exact (h scales).made s hs
  · intro s' hs'
    obtain ⟨s, -, hclose⟩ := hbefore s' hs'
    exact ⟨hclose.sane, hclose.closed⟩
  · rw [hnone]
    exact fun s hs ↦ by cases hs
  · intro f
    rw [Pad.fingerOf, hnone]
    rfl
  · intro f k hk
    rw [Pad.fingerOf, hnone] at hk
    exact absurd hk.1 (Option.some_ne_none k).symm
  · rintro n ⟨s, hs, hn⟩
    obtain ⟨s', hs', hclose⟩ := hafter s hs
    exact ⟨s', hrecorded ▸ hs', hclose.sounding n hn⟩
  · intro rest number f k n htracks s' hs' hnumber
    rw [hrecorded] at hs'
    obtain ⟨s, hs, hclose⟩ := hbefore s' hs'
    obtain ⟨hk, hnear⟩ := htracks s hs (hclose.number.symm.trans hnumber)
    exact hclose.near f k _ _ n hk hnear

end Pad

namespace PadFinger

/-- The finger is not making a motion. -/
def released (F : PadFinger) : Bool := F.current.all fun k ↦ (F.motions k).terminated

theorem not_open_of_released {F : PadFinger} (h : F.released = true) (k : Nat) : ¬ F.Open k := by
  rintro ⟨hcurrent, hopen⟩
  rw [released, hcurrent, Option.all_some, hopen] at h
  cases h

end PadFinger

namespace Pad

/-- The current session can be terminated. -/
def mayTerminate (p : Pad) : Bool := (List.finRange 5).all fun f ↦ (p.fingerOf f).stoppable

/-- The current session can be deleted. -/
def mayDelete (p : Pad) : Bool := (List.finRange 5).all fun f ↦ (p.fingerOf f).released

theorem fingerOf_eq {p : Pad} {s : PadSession} (h : p.currentSession = some s) (f : PadFingerId) :
    p.fingerOf f = s.finger f := by
  rw [fingerOf, h]

theorem not_open_of_mayDelete {p : Pad} (h : p.mayDelete = true) {s : PadSession}
    (hs : p.currentSession = some s) (f : PadFingerId) (k : Nat) : ¬ (s.finger f).Open k := by
  rw [← fingerOf_eq hs]
  exact PadFinger.not_open_of_released (List.all_eq_true.mp h f (List.mem_finRange f)) k

/-- Recording is switched on or off. -/
theorem Sane.internalSetRecord {p : Pad} {handled : List PadEvent}
    (h : ∀ scales, p.Sane scales handled) {doRecord : Bool}
    (hcares : doRecord = p.doRecord ∨
      (if p.doRecord then p.mayTerminate else p.mayDelete) = true) :
    (∀ scales, (p.internalSetRecord doRecord).Sane scales handled) ∧
      (∀ n, p.Sounding n → (p.internalSetRecord doRecord).Sounding n) ∧
      ∀ rest number f k n, p.Tracks rest number f k n →
        (p.internalSetRecord doRecord).Tracks rest number f k n := by
  rw [Pad.internalSetRecord]
  split
  · exact ⟨h, fun n hn ↦ hn, fun _ _ _ _ _ htracks ↦ htracks⟩
  · next hne =>
    have hcares := hcares.resolve_left fun heq ↦ hne heq.symm
    refine Sane.close h id
      (fun s ↦ if p.doRecord then s.terminate else s.deleteSession) ?_ rfl rfl ?_ ?_
    · rw [List.map_id]
      cases p.currentSession <;> rfl
    · intro s hs
      obtain ⟨hsane, hopen⟩ := (h none).others s hs
      exact .of_kept hsane hopen hsane hopen rfl fun f ↦ .refl _
    · intro s hs
      have hsane : ∀ scales, s.Sane scales := fun scales ↦ ((h scales).current s hs).1
      cases hrecord : p.doRecord with
      | true =>
        rw [hrecord, if_pos rfl] at hcares
        rw [if_pos rfl]
        refine closes_terminate hsane fun f ↦ ?_
        rw [← fingerOf_eq hs]
        exact List.all_eq_true.mp hcares f (List.mem_finRange f)
      | false =>
        rw [hrecord, if_neg Bool.false_ne_true] at hcares
        rw [if_neg Bool.false_ne_true]
        exact closes_deleteSession hsane (not_open_of_mayDelete hcares hs)

/-- The pad is cleared. -/
theorem Sane.internalClearPad {p : Pad} {handled : List PadEvent}
    (h : ∀ scales, p.Sane scales handled) (hcares : p.mayDelete = true) :
    (∀ scales, p.internalClearPad.Sane scales handled) ∧
      (∀ n, p.Sounding n → p.internalClearPad.Sounding n) ∧
      ∀ rest number f k n, p.Tracks rest number f k n →
        p.internalClearPad.Tracks rest number f k n := by
  refine Sane.close h PadSession.deleteSession PadSession.deleteSession ?_ rfl rfl ?_ ?_
  · rw [← List.map_append]
    rfl
  · intro s hs
    obtain ⟨hsane, hopen⟩ := (h none).others s hs
    exact closes_deleteSession hsane hopen
  · intro s hs
    exact closes_deleteSession (fun scales ↦ ((h scales).current s hs).1)
      (not_open_of_mayDelete hcares hs)

/-- More events may be waiting. -/
theorem Tracks.enqueue {p p' : Pad} {rest : List PadEvent} {number : Nat} {f : PadFingerId}
    {k n : Nat} (h : p.Tracks rest number f k n) (hsame : p'.recordedSessions = p.recordedSessions)
    (pe : PadEvent) : p'.Tracks (rest ++ [pe]) number f k n := by
  rw [Tracks, hsame]
  intro s hs hnumber
  obtain ⟨hk, hnear⟩ := h s hs hnumber
  refine ⟨hk, ?_⟩
  cases n with
  | zero => exact hnear
  | succ n =>
    refine hnear.imp_right fun ⟨hn, hopen, hrelease⟩ ↦ ⟨hn, hopen, ?_⟩
    rw [releases, List.any_eq_true] at hrelease ⊢
    obtain ⟨release, hmem, heq⟩ := hrelease
    exact ⟨release, eventsOf_append f rest [pe] ▸ List.mem_append_left _ hmem, heq⟩

/-- A finger that is down after some events and up after more has been released by these. -/
theorem releases_of_heldAfter {f : PadFingerId} {handled rest : List PadEvent}
    (hdown : heldAfter (eventsOf f handled) = true)
    (hup : heldAfter (eventsOf f (handled ++ rest)) = false) : releases f rest = true := by
  rw [eventsOf_append, heldAfter, List.foldl_append, ← heldAfter, hdown] at hup
  rw [releases]
  generalize eventsOf f rest = events at hup
  induction events with
  | nil => cases hup
  | cons pe events ih =>
    rw [List.any_cons]
    cases ht : pe.t with
    | msPadRelease => rfl
    | msPadPress | msPadSlide | msPadNoEvent =>
      rw [List.foldl_cons, ht] at hup
      exact ih hup

/-- When all fingers are up, every motion that is played is some ticks from its end. -/
theorem Sane.exists_tracks {p : Pad} {scales : Scales} {handled rest : List PadEvent}
    (h : p.Sane scales handled) (hup : AllReleased (handled ++ rest)) {number : Nat}
    {f : PadFingerId} {k : Nat} (hplays : p.Plays number f k) :
    number < p.made ∧ ∃ n, p.Tracks rest number f k n := by
  obtain ⟨s, hs, rfl, hk⟩ := hplays
  refine ⟨h.made s hs, ?_⟩
  have hone : ∀ n, ((s.finger f).motions k).Near (releases f rest) n →
      p.Tracks rest s.number f k n := by
    intro n hnear t ht hnumber
    obtain rfl := List.inj_on_of_nodup_map h.numbers ht hs hnumber
    exact ⟨hk, hnear⟩
  have hsane : (s.finger f).Sane scales ∧
      ∀ k, (s.finger f).Open k → heldAfter (eventsOf f handled) = true := by
    rcases List.mem_append.mp hs with hs | hs
    · obtain ⟨hsane, hopen⟩ := h.others s hs
      exact ⟨(hsane scales).fingers f, fun k hk ↦ absurd hk (hopen f k)⟩
    · have hs := Option.mem_toList.mp hs
      refine ⟨(h.current s hs).1.fingers f, ?_⟩
      rw [← fingerOf_eq hs]
      exact h.down f
  cases hterminated : ((s.finger f).motions k).terminated with
  | true =>
    obtain ⟨n, hends⟩ := PadMotion.exists_endsWithin hterminated
    exact ⟨n + 1, hone (n + 1) (.inl (hends.mono (Nat.le_succ n)))⟩
  | false =>
    have hcurrent : (s.finger f).current = some k :=
      (hsane.1.closed k hk).resolve_left (by simp [hterminated])
    have hdown := hsane.2 k ⟨hcurrent, hterminated⟩
    exact ⟨2, hone 2 (.inr ⟨Nat.le_refl 1, hterminated, releases_of_heldAfter hdown (hup f)⟩)⟩

/-- No motion is played. -/
def silent (p : Pad) : Bool :=
  p.recordedSessions.all fun s ↦ (List.finRange 5).all fun f ↦ (s.finger f).playingMotions.isEmpty

theorem not_sounding_of_silent {p : Pad} (h : p.silent = true) (n : Int) : ¬ p.Sounding n := by
  rintro ⟨s, hs, f, hn⟩
  have hf := List.all_eq_true.mp (List.all_eq_true.mp h s hs) f (List.mem_finRange f)
  exact PadFinger.not_sounding_of_nil (List.isEmpty_iff.mp hf) n hn

end Pad

/-- The ticks of an operation. -/
def PadOp.ticks : PadOp → Nat
  | .process .. => 1
  | _ => 0

namespace PadHistory

/-- A press finds a configuration without the note -1, recording is not ended at a held finger that
waits for its next position, and no session is deleted under a finger that is down. -/
def cares (h : PadHistory) : PadOp → Bool
  | .process _ _ around => h.pad.padEventQueue.all fun pe ↦
      pe.t ≠ .msPadPress || PadMotion.inTune around.scales h.pad.config
  | .internalSetRecord doRecord => doRecord = h.pad.doRecord ||
      if h.pad.doRecord then h.pad.mayTerminate else h.pad.mayDelete
  | .internalClearPad => h.pad.mayDelete
  | _ => true

/-- The operations of which every finger presses, slides and releases, with some more care. -/
def Careful (h : PadHistory) (op : PadOp) (_ : List PadCall) : Prop :=
  Alternating (h.events ++ op.events) ∧ h.cares op = true

instance (h : PadHistory) (op : PadOp) (calls : List PadCall) : Decidable (h.Careful op calls) :=
  inferInstanceAs (Decidable (_ ∧ _))

/-- Every note that is on is on in a motion that is played. -/
structure Accounted (h : PadHistory) : Prop where
  alternating : Alternating h.events
  sane : ∃ handled, h.events = handled ++ h.pad.padEventQueue ∧
    ∀ scales, h.pad.Sane scales handled
  pending : ∀ n, Pending PadCall.Starts PadCall.Ends h.calls n → h.pad.Sounding n

theorem accounted_new : Accounted ⟨.new, [], []⟩ where
  alternating := by decide
  sane := ⟨[], rfl, .new⟩
  pending _ h := absurd h not_pending_nil

/-- What one operation leaves of a motion that is some ticks from its end. -/
def Nears (h : PadHistory) (ticks : Nat) (h' : PadHistory) : Prop :=
  ∀ number < h.pad.made, ∀ f k n, h.pad.Tracks h.pad.padEventQueue number f k n →
    h'.pad.Plays number f k →
      ∃ n', n = n' + ticks ∧ h'.pad.Tracks h'.pad.padEventQueue number f k n'

theorem Nears.of_tracks {h h' : PadHistory} (hqueue : h'.pad.padEventQueue = h.pad.padEventQueue)
    (htracks : ∀ rest number f k n, h.pad.Tracks rest number f k n →
      h'.pad.Tracks rest number f k n) : h.Nears 0 h' := by
  intro number _ f k n hn _
  refine ⟨n, rfl, ?_⟩
  rw [hqueue]
  exact htracks _ number f k n hn

theorem Accounted.process {h : PadHistory} (ha : h.Accounted) (mute : Bool) (tick : Int)
    {around : PadSurroundings} (hcares : h.cares (.process mute tick around) = true) :
    Accounted ⟨(h.pad.process mute tick around).2, h.events,
        h.calls ++ (h.pad.process mute tick around).1⟩ ∧
      h.Nears 1 ⟨(h.pad.process mute tick around).2, h.events,
        h.calls ++ (h.pad.process mute tick around).1⟩ := by
  have hconfig : ∀ pe ∈ h.pad.padEventQueue, pe.t = .msPadPress →
      PadMotion.inTune around.scales h.pad.config = true := by
    intro pe hpe ht
    have hall := List.all_eq_true.mp hcares pe hpe
    simpa [ht] using hall
  obtain ⟨handled, hevents, hsane⟩ := ha.sane
  obtain ⟨hlater, haccounts, hnears⟩ := (hsane around.scales).process
    (hevents ▸ ha.alternating) hconfig mute tick
  have hqueue := h.pad.padEventQueue_process mute tick around
  refine ⟨⟨ha.alternating, ⟨h.events, ?_, ?_⟩, haccounts.pending ha.pending⟩, ?_⟩
  · rw [hqueue, List.append_nil]
  · rw [hevents]
    exact hlater
  · intro number hnumber f k n htracks hplays
    rw [hqueue]
    exact hnears number hnumber f k n htracks hplays

/-- Sessions do not depend on the rest of the pad. -/
theorem Accounted.of_sessions {h h' : PadHistory} (ha : h.Accounted) {events : List PadEvent}
    (halternating : Alternating (h.events ++ events)) (hevents : h'.events = h.events ++ events)
    (hqueue : h'.pad.padEventQueue = h.pad.padEventQueue ++ events)
    (hsessions : h'.pad.sessions = h.pad.sessions)
    (hcurrent : h'.pad.currentSession = h.pad.currentSession) (hmade : h'.pad.made = h.pad.made)
    (hcalls : h'.calls = h.calls) : h'.Accounted := by
  have hrecorded : h'.pad.recordedSessions = h.pad.recordedSessions := by
    rw [Pad.recordedSessions, hsessions, hcurrent, Pad.recordedSessions]
  have hfinger : ∀ f, h'.pad.fingerOf f = h.pad.fingerOf f := by
    intro f
    rw [Pad.fingerOf, hcurrent, Pad.fingerOf]
  obtain ⟨handled, heq, hsane⟩ := ha.sane
  refine ⟨hevents ▸ halternating, ⟨handled, ?_, fun scales ↦ ?_⟩, ?_⟩
  · rw [hevents, hqueue, heq, List.append_assoc]
  · obtain ⟨hnumbers, hfew, hothers, hnow, halive, hdown⟩ := hsane scales
    refine ⟨?_, ?_, ?_, ?_, fun f ↦ ?_, fun f ↦ ?_⟩
    · rwa [hrecorded]
    · rwa [hrecorded, hmade]
    · rwa [hsessions]
    · rwa [hcurrent]
    · rw [hfinger]
      exact halive f
    · rw [hfinger]
      exact hdown f
  · rintro n hn
    obtain ⟨s, hs, hsounding⟩ := ha.pending n (hcalls ▸ hn)
    exact ⟨s, hrecorded ▸ hs, hsounding⟩

theorem Accounted.step {h h' : PadHistory} {op : PadOp} {calls : List PadCall} (ha : h.Accounted)
    (hok : h.Careful op calls) (hstep : h.step op = some (calls, h')) :
    h'.Accounted ∧ h.Nears op.ticks h' := by
  obtain ⟨-, rfl⟩ := Prod.mk.inj (Option.some.inj hstep)
  obtain ⟨halternating, hcares⟩ := hok
  obtain ⟨handled, hevents, hsane⟩ := ha.sane
  cases op with
  | enqueueEvent fingerId t x y z =>
    refine ⟨ha.of_sessions halternating rfl rfl rfl rfl rfl (List.append_nil _), ?_⟩
    intro number _ f k n htracks _
    exact ⟨n, rfl, htracks.enqueue rfl _⟩
  | process mute tick around =>
    have hboth := ha.process mute tick hcares
    rw [← List.append_nil h.events] at hboth
    exact hboth
  | internalSetRecord doRecord =>
    obtain ⟨hsane', hsounding, htracks⟩ := Pad.Sane.internalSetRecord hsane
      (by simpa [cares] using hcares)
    have hqueue : (h.pad.internalSetRecord doRecord).padEventQueue = h.pad.padEventQueue := by
      rw [Pad.internalSetRecord]
      split <;> rfl
    refine ⟨⟨halternating, ⟨handled, ?_, hsane'⟩, ?_⟩, .of_tracks hqueue htracks⟩
    · simpa [PadOp.events, Pad.perform, hqueue] using hevents
    · intro n hn
      exact hsounding n (ha.pending n (List.append_nil h.calls ▸ hn))
  | internalClearPad =>
    obtain ⟨hsane', hsounding, htracks⟩ := Pad.Sane.internalClearPad hsane hcares
    refine ⟨⟨halternating, ⟨handled, ?_, hsane'⟩, ?_⟩, .of_tracks rfl htracks⟩
    · exact (List.append_nil _).trans hevents
    · intro n hn
      exact hsounding n (ha.pending n (List.append_nil h.calls ▸ hn))
  | setQuantize doQuantize =>
    refine ⟨ha.of_sessions halternating rfl (List.append_nil _).symm rfl rfl rfl
      (List.append_nil _), .of_tracks rfl fun _ _ _ _ _ h ↦ h⟩
  | configure config =>
    refine ⟨ha.of_sessions halternating rfl (List.append_nil _).symm rfl rfl rfl
      (List.append_nil _), .of_tracks rfl fun _ _ _ _ _ h ↦ h⟩

/-- A run with more ticks than a motion has to go passes through a state in which it is not
played. -/
theorem Accounted.ends {h h' : PadHistory} {ops : List PadOp} (ha : h.Accounted)
    (hrun : Run PadHistory.step Careful h ops h') {number : Nat} {f : PadFingerId} {k n : Nat}
    (hnumber : number < h.pad.made)
    (htracks : h.pad.Tracks h.pad.padEventQueue number f k n) (hn : n < (ops.map PadOp.ticks).sum) :
    ∃ first rest h₁, ops = first ++ rest ∧ Run PadHistory.step Careful h first h₁ ∧
      ¬ h₁.pad.Plays number f k := by
  induction hrun generalizing n with
  | nil h => exact absurd hn (by simp)
  | @cons h h₁ h₂ op calls ops hst hok hrest ih =>
    obtain ⟨ha₁, hnears⟩ := ha.step hok hst
    by_cases hplays : h₁.pad.Plays number f k
    · obtain ⟨n', rfl, htracks'⟩ := hnears number hnumber f k n htracks hplays
      have hmade : number < h₁.pad.made := by
        obtain ⟨s, hs, rfl, -⟩ := hplays
        obtain ⟨_, _, hsane⟩ := ha₁.sane
        exact (hsane none).made s hs
      rw [List.map_cons, List.sum_cons] at hn
      obtain ⟨first, rest, h₃, rfl, hfirst, hnot⟩ := ih ha₁ hmade htracks' (by omega)
      exact ⟨op :: first, rest, h₃, rfl, .cons hst hok hfirst, hnot⟩
    · exact ⟨[op], ops, h₁, rfl, .cons hst hok (.nil h₁), hplays⟩

/-- In every run in which fingers press, slide and release with care: when no motion is played,
every note that has been started has been ended since; and when all fingers are up, every motion
that is played ends after a number of ticks, whatever else is done. -/
theorem notes_end {h : PadHistory} {ops : List PadOp}
    (hrun : Run step Careful ⟨.new, [], []⟩ ops h) :
    (h.pad.silent = true → ∀ before note velocity after,
      h.calls = before ++ .queueNoteOn note velocity :: after →
        ∃ release, .queueNoteOff note release ∈ after) ∧
      (AllReleased h.events → ∀ number f k, h.pad.Plays number f k → ∃ n, ∀ more h',
        Run step Careful h more h' → n ≤ (more.map PadOp.ticks).sum →
          ∃ first rest h₁, more = first ++ rest ∧ Run step Careful h first h₁ ∧
            ¬ h₁.pad.Plays number f k) := by
  have ha : h.Accounted := by
    refine hrun.invariant Accounted ?_ accounted_new
    intro _ _ _ _ ha hok hst
    exact (ha.step hok hst).1
  constructor
  · intro hsilent before note velocity after heq
    by_contra hnone
    refine Pad.not_sounding_of_silent hsilent note (ha.pending note ⟨before, _, after, heq, ?_, ?_⟩)
    · exact ⟨velocity, rfl⟩
    · rintro c hc ⟨release, rfl⟩
      exact hnone ⟨release, hc⟩
  · intro hup number f k hplays
    obtain ⟨handled, hevents, hsane⟩ := ha.sane
    obtain ⟨hnumber, n, htracks⟩ := (hsane none).exists_tracks (hevents ▸ hup) hplays
    exact ⟨n + 1, fun more h' hmore hn ↦ ha.ends hmore hnumber htracks hn⟩

/-- A stroke and three ticks: the note of its motion has ended. -/
theorem notes_end_tap : ∃ h, Run step Careful ⟨.new, [], []⟩ (tap 0 ++ ticks 3) h ∧
    h.calls = [.queueNoteOn 48 0, .queueNoteOff 48 127] ∧
    ∃ release, PadCall.queueNoteOff 48 release ∈ [PadCall.queueNoteOff 48 127] := by
  have hsome : ((runAll step (fun h op calls ↦ decide (h.Careful op calls)) ⟨.new, [], []⟩
      (tap 0 ++ ticks 3)).map fun h ↦ (h.pad.silent, h.calls)) =
      some (true, [.queueNoteOn 48 0, .queueNoteOff 48 127]) := by
    decide +kernel
  obtain ⟨h, hh, heq⟩ := Option.map_eq_some_iff.mp hsome
  obtain ⟨hsilent, hcalls⟩ := Prod.mk.inj heq
  have hrun := (Run.of_runAll hh).mono fun _ _ _ ↦ of_decide_eq_true
  exact ⟨h, hrun, hcalls, (notes_end hrun).1 hsilent [] 48 0 _ hcalls⟩

/-- Recording is switched off under a finger that is down: its motion stops and leaves its note
on. -/
theorem note_left_on : ¬ ∀ (h : PadHistory) (ops : List PadOp),
    Run step (fun h op _ ↦ Alternating (h.events ++ op.events)) ⟨.new, [], []⟩ ops h →
      AllReleased h.events → h.pad.silent = true → ∀ before note velocity after,
        h.calls = before ++ .queueNoteOn note velocity :: after →
          ∃ release, .queueNoteOff note release ∈ after := by
  intro hall
  have hsome : ((runAll step (fun h op _ ↦ decide (Alternating (h.events ++ op.events)))
      ⟨.new, [], []⟩ ([.internalSetRecord true, .enqueueEvent 0 .msPadPress 0 0 0] ++ ticks 1 ++
        [.internalSetRecord false] ++ ticks 2 ++ [.enqueueEvent 0 .msPadRelease 0 0 0] ++
          ticks 1)).map fun h ↦ (decide (AllReleased h.events), h.pad.silent, h.calls)) =
      some (true, true, [.queueNoteOn 48 0]) := by
    decide +kernel
  obtain ⟨h, hh, heq⟩ := Option.map_eq_some_iff.mp hsome
  simp only [Prod.mk.injEq, decide_eq_true_eq] at heq
  obtain ⟨hup, hsilent, hcalls⟩ := heq
  have hrun := (Run.of_runAll hh).mono fun _ _ _ ↦ of_decide_eq_true
  obtain ⟨release, hmem⟩ := hall h _ hrun hup hsilent [] 48 0 [] hcalls
  cases hmem

end PadHistory

end Vuknob
