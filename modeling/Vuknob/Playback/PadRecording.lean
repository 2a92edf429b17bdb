import Mathlib.Data.List.Induction
import Vuknob.Playback.Pad

/-!
# Recording motions

While a session is recorded, every stroke of a finger, from its press to its release, is to become
one recorded motion. The motion that a finger is making is the one in `current`, which is cleared
when the motion has been played to its end, `src_jni/engine_code/pad.cc:949–957`, and not when the
finger is released: a press before that puts another motion there.
-/

namespace Vuknob

/-- A place on the pad. -/
abbrev PadPlace := BitVec 14 × BitVec 14 × BitVec 14

/-- Where an event is. -/
def PadEvent.place (pe : PadEvent) : PadPlace := (pe.x, pe.y, pe.z)

/-- The places of a motion. -/
def PadMotion.places (m : PadMotion) : List PadPlace := m.positions.map fun p ↦ (p.x, p.y, p.z)

/-- The strokes a finger has made, and the one it is making. -/
structure Strokes where
  made : List (List PadPlace)
  making : Option (List PadPlace)

/-- One more event of the finger. -/
def Strokes.next (S : Strokes) (pe : PadEvent) : Strokes :=
  match pe.t, S.making with
  | .msPadPress, none => { S with making := some [pe.place] }
  | .msPadSlide, some stroke => { S with making := some (stroke ++ [pe.place]) }
  | .msPadRelease, some stroke => ⟨S.made ++ [stroke ++ [pe.place]], none⟩
  | _, _ => S

/-- The strokes of the events of one finger. -/
def strokes (events : List PadEvent) : Strokes := events.foldl Strokes.next ⟨[], none⟩

theorem strokes_append_singleton (events : List PadEvent) (pe : PadEvent) :
    strokes (events ++ [pe]) = (strokes events).next pe := by
  simp [strokes]

/-- A finger is making a stroke while it is down. -/
theorem isSome_making_strokes {events : List PadEvent} (h : alternates false events = true) :
    (strokes events).making.isSome = heldAfter events := by
  induction events using List.reverseRecOn with
  | nil => rfl
  | append_singleton events pe ih =>
    rw [alternates_append, Bool.and_eq_true] at h
    have hheld := ih h.1
    have hallowed : pe.t.allowed (heldAfter events) = true := by
      simpa [alternates, heldAfter] using h.2
    rw [strokes_append_singleton, heldAfter_append_singleton, ← hheld]
    rw [← hheld] at hallowed
    cases hm : (strokes events).making <;> cases ht : pe.t <;>
      simp_all [Strokes.next, PadEventType.hold, PadEventType.allowed]

/-! ### Motions -/

namespace PadMotion

theorem places_stopLater (positions : List PadPosition) :
    (stopLater positions).map (fun p ↦ (p.x, p.y, p.z)) =
      positions.map fun p ↦ (p.x, p.y, p.z) := by
  rw [stopLater]
  split
  · apply List.ext_getElem?
    intro i
    simp only [List.getElem?_map, List.getElem?_modify]
    split
    · cases positions[i]? <;> rfl
    · simp
  · rfl

@[simp]
theorem places_terminate (m : PadMotion) : m.terminate.places = m.places :=
  places_stopLater m.positions

@[simp]
theorem terminated_terminate (m : PadMotion) : m.terminate.terminated = true := rfl

theorem places_addPosition {m : PadMotion} (h : m.terminated = false) (x y z : BitVec 14) :
    (m.addPosition x y z).places = m.places ++ [(x, y, z)] := by
  simp [addPosition, h, places]

theorem places_processMotion (mute : Bool) (scales : Scales) (m : PadMotion) :
    (m.processMotion mute scales).2.2.places = m.places := by
  rw [places, positions_processMotion, places]

end PadMotion

/-! ### Fingers -/

namespace PadFinger

/-- The places of the motion at `k`. -/
def placesOf (F : PadFinger) (k : Nat) : List PadPlace := (F.motions k).places

/-- The motion the finger is making. -/
def making (F : PadFinger) : Option Nat := F.current.filter fun k ↦ !(F.motions k).terminated

/-- The motion the finger has made that is still to be played to its end. -/
def ending (F : PadFinger) : Option Nat := F.current.filter fun k ↦ (F.motions k).terminated

/-- The finger has all strokes: those that were made are recorded, or one is about to be, and the
one being made is the current motion. -/
structure Records (F : PadFinger) (S : Strokes) : Prop where
  alive : F.toBeDeleted = false
  upcoming : F.nextMotionToPlay = none
  playing : F.playingMotions = F.current.toList
  known : ∀ k ∈ F.recorded ++ F.current.toList, k < F.fresh
  apart : ∀ k ∈ F.current, k ∉ F.recorded
  made : ((F.recorded ++ F.ending.toList).map F.placesOf).Perm S.made
  making : S.making = F.making.map F.placesOf

theorem Records.new : Records .new ⟨[], none⟩ where
  alive := rfl
  upcoming := rfl
  playing := rfl
  known := by simp [PadFinger.new]
  apart := by simp [PadFinger.new]
  made := .nil
  making := rfl

/-- A motion that is not recorded may be written to. -/
theorem map_placesOf_write {F : PadFinger} {k : Nat} (m : PadMotion) {l : List Nat} (h : k ∉ l) :
    l.map (F.write k m).placesOf = l.map F.placesOf := by
  apply List.map_congr_left
  intro j hj
  have hne : j ≠ k := fun heq ↦ h (heq ▸ hj)
  simp [placesOf, write, Function.update_of_ne hne]

@[simp]
theorem placesOf_write_self (F : PadFinger) (k : Nat) (m : PadMotion) :
    (F.write k m).placesOf k = m.places := by
  simp [placesOf, write]

theorem Records.making_none {F : PadFinger} {S : Strokes} (h : F.Records S)
    (hnone : F.current = none) : S.making = none := by
  rw [h.making, PadFinger.making, hnone]
  rfl

/-- The current motion of a finger that is making a stroke. -/
theorem Records.exists_making {F : PadFinger} {S : Strokes} (h : F.Records S)
    (hsome : S.making.isSome = true) : ∃ k, F.current = some k ∧ (F.motions k).terminated = false ∧
      S.making = some (F.placesOf k) := by
  rw [h.making, Option.isSome_map] at hsome
  obtain ⟨k, hk⟩ := Option.isSome_iff_exists.mp hsome
  have hfilter := Option.filter_eq_some_iff.mp hk
  refine ⟨k, hfilter.1, by simpa using hfilter.2, ?_⟩
  rw [h.making, hk]
  rfl

theorem Records.press {F : PadFinger} {S : Strokes} (h : F.Records S) (hnone : F.current = none)
    (config : PadConfiguration) (pe : PadEvent) (ht : pe.t = .msPadPress) (position : Int) :
    (F.press config pe position).Records (S.next pe) := by
  obtain ⟨m, hstart, hpositions, hterminated⟩ :=
    PadMotion.startMotion_new config position pe.x pe.y pe.z
  have hplaces : m.places = [pe.place] := by
    rw [PadMotion.places, hpositions]
    rfl
  have hfresh : F.fresh ∉ F.recorded := by
    intro hmem
    exact Nat.lt_irrefl _ (h.known _ (List.mem_append_left _ hmem))
  have hnext : S.next pe = ⟨S.made, some [pe.place]⟩ := by
    rw [Strokes.next, ht, h.making_none hnone]
  rw [PadFinger.press, hstart, hnext]
  refine ⟨h.alive, h.upcoming, ?_, ?_, ?_, ?_, ?_⟩
  · simp [h.playing, hnone]
  · intro k hk
    rcases List.mem_append.mp hk with hk | hk
    · exact Nat.lt_succ_of_lt (h.known k (List.mem_append_left _ hk))
    · rw [show k = F.fresh by simpa using hk]
      exact Nat.lt_succ_self _
  · intro k hk
    rw [← Option.some.inj hk]
    exact hfresh
  · have hmade := h.made
    rw [ending, hnone] at hmade
    have hending : ending { F.write F.fresh m with
        fresh := F.fresh + 1, playingMotions := F.playingMotions ++ [F.fresh]
        current := some F.fresh } = none := by
      simp [ending, write, hterminated]
    rw [hending]
    simp only [Option.filter_none, Option.toList_none, List.append_nil] at hmade ⊢
    change (F.recorded.map (F.write F.fresh m).placesOf).Perm S.made
    rw [map_placesOf_write m hfresh]
    exact hmade
  · simp [PadFinger.making, write, hterminated, placesOf, hplaces, PadEvent.place]

/-- A motion that is being made gets one more position, and may be terminated then. -/
theorem Records.extend {F : PadFinger} {S : Strokes} (h : F.Records S) {k : Nat} {m : PadMotion}
    {place : PadPlace} (hk : F.current = some k) (hopen : (F.motions k).terminated = false)
    (hplaces : m.places = F.placesOf k ++ [place]) :
    (F.write k m).Records (if m.terminated then ⟨S.made ++ [F.placesOf k ++ [place]], none⟩
      else ⟨S.made, some (F.placesOf k ++ [place])⟩) := by
  have hrecorded := h.apart k hk
  have hmade := h.made
  have hending : F.ending = none := by simp [ending, hk, hopen]
  rw [hending, Option.toList_none, List.append_nil] at hmade
  have hkept : F.recorded.map (F.write k m).placesOf = F.recorded.map F.placesOf :=
    map_placesOf_write m hrecorded
  cases hm : m.terminated with
  | true =>
    refine ⟨h.alive, h.upcoming, h.playing, h.known, h.apart, ?_, ?_⟩
    · have hnow : (F.write k m).ending = some k := by simp [ending, write, hk, hm]
      rw [hnow, if_pos rfl]
      simp only [Option.toList_some, List.map_append, List.map_cons, List.map_nil,
        placesOf_write_self, hplaces]
      exact (hkept ▸ hmade).append_right _
    · simp [PadFinger.making, write, hk, hm]
  | false =>
    refine ⟨h.alive, h.upcoming, h.playing, h.known, h.apart, ?_, ?_⟩
    · have hnow : (F.write k m).ending = none := by simp [ending, write, hk, hm]
      rw [hnow, Option.toList_none, List.append_nil]
      exact hkept ▸ hmade
    · have hnow : (F.write k m).making = some k := by simp [PadFinger.making, write, hk, hm]
      rw [hnow, Option.map_some, placesOf_write_self, hplaces]
      rfl

/-- An event of a finger that was up or down as it has to be; a press comes when the motion before
it has finished. -/
theorem Records.processFingerEvents {F : PadFinger} {S : Strokes} (h : F.Records S)
    {pe : PadEvent} (hallowed : pe.t.allowed S.making.isSome = true)
    (hpress : pe.t = .msPadPress → F.current = none) (config : PadConfiguration) (position : Int) :
    (F.processFingerEvents config pe position).Records (S.next pe) := by
  rw [PadFinger.processFingerEvents, if_neg (by simp [h.alive])]
  cases ht : pe.t with
  | msPadPress => exact h.press (hpress ht) config pe ht _
  | msPadNoEvent =>
    have hnext : S.next pe = S := by
      rw [Strokes.next, ht]
    rw [hnext]
    exact h
  | msPadSlide =>
    rw [ht] at hallowed
    obtain ⟨k, hk, hopen, hmaking⟩ := h.exists_making hallowed
    have hplaces := PadMotion.places_addPosition hopen pe.x pe.y pe.z
    have hextended := h.extend hk hopen hplaces
    rw [PadMotion.terminated_addPosition, hopen, if_neg Bool.false_ne_true] at hextended
    rw [Strokes.next, ht, hmaking]
    simpa only [onCurrent, hk, PadEvent.place] using hextended
  | msPadRelease =>
    rw [ht] at hallowed
    obtain ⟨k, hk, hopen, hmaking⟩ := h.exists_making hallowed
    have hplaces : ((F.motions k).addPosition pe.x pe.y pe.z).terminate.places =
        F.placesOf k ++ [pe.place] := by
      rw [PadMotion.places_terminate, PadMotion.places_addPosition hopen]
      rfl
    have hextended := h.extend hk hopen hplaces
    rw [PadMotion.terminated_terminate, if_pos rfl] at hextended
    rw [Strokes.next, ht, hmaking]
    simpa only [onCurrent, hk] using hextended

theorem perm_recordMotion (motions : Nat → PadMotion) (k : Nat) (l : List Nat) :
    (recordMotion motions k l).Perm (k :: l) := by
  induction l with
  | nil => exact .refl _
  | cons top rest ih =>
    rw [recordMotion]
    split
    · exact .refl _
    · exact (ih.cons top).trans (.swap k top rest)

/-- No recorded motion is started while nothing is to be played. -/
theorem startRecorded_of_none {F : PadFinger} (h : F.nextMotionToPlay = none) (mute : Bool)
    (position : Int) : F.startRecorded mute position = F := by
  rw [startRecorded, if_neg (by simp [h])]
  split
  · rw [← h]
  · rfl

/-- The current motion has come to its end and is recorded. -/
theorem Records.finish {F : PadFinger} {S : Strokes} (h : F.Records S) {k : Nat} {m : PadMotion}
    (hk : F.current = some k) (hdone : (F.motions k).terminated = true)
    (hplaces : m.places = F.placesOf k) (quantize : Bool) :
    ((F.write k m).finish true quantize k).Records S := by
  have hrecorded := h.apart k hk
  have hperm := perm_recordMotion (F.write k m).motions k F.recorded
  have hplaying : F.playingMotions.erase k = [] := by simp [h.playing, hk]
  rw [PadFinger.finish, if_pos (by simp [write, hk]), if_pos rfl]
  refine ⟨h.alive, h.upcoming, hplaying, ?_, ?_, ?_, ?_⟩
  · intro j hj
    apply h.known j
    rw [Option.toList_none, List.append_nil] at hj
    rcases List.mem_cons.mp (hperm.mem_iff.mp hj) with rfl | hj
    · simp [hk]
    · exact List.mem_append_left _ hj
  · exact fun j hj ↦ nomatch hj
  · have hmade := h.made
    have hending : F.ending = some k := by simp [ending, hk, hdone]
    rw [hending, Option.toList_some, List.map_append] at hmade
    have hlast : (if quantize then m.quantize else m).places = F.placesOf k := by
      rw [← hplaces]
      split <;> rfl
    have hkept : F.recorded.map
        ((F.write k m).write k (if quantize then m.quantize else m)).placesOf =
          F.recorded.map F.placesOf :=
      (map_placesOf_write _ hrecorded).trans (map_placesOf_write m hrecorded)
    have hmap := hperm.map ((F.write k m).write k (if quantize then m.quantize else m)).placesOf
    rw [List.map_cons, placesOf_write_self, hlast, hkept] at hmap
    have hself : (F.write k m).motions k = m := Function.update_self ..
    simp only [ending, Option.filter_none, Option.toList_none, List.append_nil, hself]
    exact (hmap.trans (List.perm_append_singleton _ _).symm).trans hmade
  · rw [h.making, PadFinger.making, PadFinger.making, hk]
    simp [hdone]

/-- Playing a motion does not change what the finger has. -/
theorem Records.write {F : PadFinger} {S : Strokes} (h : F.Records S) {k : Nat} {m : PadMotion}
    (hplaces : m.places = F.placesOf k) (hterminated : m.terminated = (F.motions k).terminated) :
    (F.write k m).Records S := by
  have hsame : (F.write k m).placesOf = F.placesOf := by
    funext j
    by_cases hj : j = k
    · rw [hj, placesOf_write_self, hplaces]
    · simp [placesOf, PadFinger.write, Function.update_of_ne hj]
  have hends : ∀ j, ((F.write k m).motions j).terminated = (F.motions j).terminated := by
    intro j
    by_cases hj : j = k
    · simp [hj, PadFinger.write, hterminated]
    · simp [PadFinger.write, Function.update_of_ne hj]
  have hending : (F.write k m).ending = F.ending := by
    simp only [ending, hends]
    rfl
  have hmaking : (F.write k m).making = F.making := by
    simp only [PadFinger.making, hends]
    rfl
  refine ⟨h.alive, h.upcoming, h.playing, h.known, h.apart, ?_, ?_⟩
  · rw [hending, hsame]
    exact h.made
  · rw [hmaking, hsame]
    exact h.making

/-- A tick while recording. -/
theorem Records.processFingerMotions {F : PadFinger} {S : Strokes} (h : F.Records S) (mute : Bool)
    (position : Int) (quantize : Bool) (scales : Scales) :
    (F.processFingerMotions true mute position quantize scales).2.Records S := by
  rw [PadFinger.processFingerMotions, startRecorded_of_none h.upcoming, h.playing]
  cases hk : F.current with
  | none => exact h
  | some k =>
    have hplaces := PadMotion.places_processMotion mute scales (F.motions k)
    have hterminated := PadMotion.terminated_processMotion mute scales (F.motions k)
    have hresult := PadMotion.snd_processMotion mute scales (F.motions k)
    simp only [Option.toList_some, playMotions, playMotion, hresult]
    generalize (F.motions k).processMotion mute scales = played at *
    split
    · next hfinished =>
      rw [PadMotion.finished, Bool.and_eq_true] at hfinished
      exact h.finish hk hfinished.1 hplaces quantize
    · exact h.write hplaces hterminated

/-- Without a press there is no new motion. -/
theorem current_processFingerEvents {F : PadFinger} (h : F.current = none) {pe : PadEvent}
    (ht : pe.t ≠ .msPadPress) (config : PadConfiguration) (position : Int) :
    (F.processFingerEvents config pe position).current = none := by
  rw [PadFinger.processFingerEvents]
  split
  · exact h
  · split
    · next hpress => exact absurd hpress ht
    · simp [PadFinger.onCurrent, h]
    · simp [PadFinger.onCurrent, h]
    · exact h

end PadFinger

/-! ### Runs -/

namespace Pad

/-- What is recorded of a finger in the current session. -/
def recordedPlaces (p : Pad) (f : PadFingerId) : List (List PadPlace) :=
  (p.fingerOf f).recorded.map (p.fingerOf f).placesOf

/-- No finger is pressed before its last motion has finished: of those that have one there is no
press among the events, and of the others at most one. -/
def pressesApart (p : Pad) (events : List PadEvent) : Bool :=
  (List.finRange 5).all fun f ↦
    (eventsOf f events).countP (fun pe ↦ pe.t = .msPadPress) ≤
      if (p.fingerOf f).current.isNone then 1 else 0

/-- The strokes of the events are with the current session, which is being recorded. -/
structure Records (p : Pad) (events : List PadEvent) : Prop where
  recording : p.doRecord = true
  alive : ∀ s ∈ p.currentSession, s.toBeDeleted = false ∧ s.terminated = false ∧ s.inPlay = true
  strokes : ∀ f, (p.fingerOf f).Records (strokes (eventsOf f events))

/-- An event of a finger that was up or down as it has to be, and whose last motion has finished if
it is pressed. -/
theorem Records.processEvent {p : Pad} {events : List PadEvent} (h : p.Records events)
    (tick : Int) (loop : Option (Int × Int)) {pe : PadEvent}
    (halternating : Alternating (events ++ [pe]))
    (hpress : ∀ f, pe.fingerId = some f → pe.t = .msPadPress → (p.fingerOf f).current = none) :
    (Pad.processEvent tick loop p pe).Records (events ++ [pe]) := by
  cases hf : pe.fingerId with
  | none =>
    rw [Pad.processEvent, hf]
    refine ⟨h.recording, h.alive, ?_⟩
    intro f
    rw [eventsOf_append_singleton, hf, if_neg (Option.some_ne_none _).symm]
    exact h.strokes f
  | some f =>
    obtain ⟨s, made, hs, heq⟩ := p.processEvent_eq tick loop hf
    obtain ⟨position, hfinger⟩ := p.fingerOf_processEvent tick loop hf
    refine ⟨heq ▸ h.recording, ?_, ?_⟩
    · rw [heq]
      intro s' hs'
      obtain rfl := Option.some.inj hs'
      rcases hs with ⟨hs, -⟩ | ⟨hs, rfl, -⟩
      · exact h.alive s hs
      · exact ⟨rfl, rfl, rfl⟩
    · intro g
      rw [eventsOf_append_singleton, hf, hfinger g]
      by_cases hg : g = f
      · subst hg
        have hallowed := halternating.next hf
        rw [← isSome_making_strokes (halternating.init g)] at hallowed
        rw [if_pos rfl, if_pos rfl, strokes_append_singleton]
        exact (h.strokes g).processFingerEvents hallowed (hpress g hf) p.config position
      · rw [if_neg hg, if_neg fun hfg ↦ hg (Option.some.inj hfg).symm]
        exact h.strokes g

/-- Whether presses are apart is seen event by event. -/
theorem pressesApart_cons {p : Pad} {pe : PadEvent} {rest : List PadEvent}
    (h : p.pressesApart (pe :: rest) = true) (tick : Int) (loop : Option (Int × Int)) :
    (∀ f, pe.fingerId = some f → pe.t = .msPadPress → (p.fingerOf f).current = none) ∧
      (processEvent tick loop p pe).pressesApart rest = true := by
  simp only [pressesApart, List.all_eq_true, List.mem_finRange, true_implies,
    decide_eq_true_eq] at h ⊢
  constructor
  · intro f hf ht
    have hcount := h f
    rw [eventsOf, List.filter_cons, if_pos (by simpa using hf),
      List.countP_cons_of_pos (by simpa using ht)] at hcount
    split at hcount
    · next hcurrent => exact Option.isNone_iff_eq_none.mp hcurrent
    · omega
  · intro g
    have hcount := h g
    rw [eventsOf, List.filter_cons] at hcount
    cases hf : pe.fingerId with
    | none =>
      rw [processEvent, hf]
      rwa [if_neg (by simp [hf])] at hcount
    | some f =>
      obtain ⟨position, hfinger⟩ := p.fingerOf_processEvent tick loop hf
      rw [hfinger g]
      by_cases hg : g = f
      · subst hg
        rw [if_pos (by simpa using hf), List.countP_cons] at hcount
        change (eventsOf g rest).countP _ + _ ≤ _ at hcount
        rw [if_pos rfl]
        by_cases ht : pe.t = .msPadPress
        · rw [if_pos (by simpa using ht)] at hcount
          split at hcount <;> omega
        · rw [if_neg (by simpa using ht)] at hcount
          split at hcount
          · next hcurrent =>
            rw [PadFinger.current_processFingerEvents (Option.isNone_iff_eq_none.mp hcurrent) ht]
            exact hcount
          · omega
      · rw [if_neg hg]
        rwa [if_neg (by simpa [hf] using fun hfg ↦ hg hfg.symm)] at hcount

/-- The events of a tick. -/
theorem Records.foldl_processEvent {p : Pad} {events rest : List PadEvent} (h : p.Records events)
    (tick : Int) (loop : Option (Int × Int)) (halternating : Alternating (events ++ rest))
    (hapart : p.pressesApart rest = true) :
    (rest.foldl (Pad.processEvent tick loop) p).Records (events ++ rest) := by
  induction rest generalizing p events with
  | nil => simpa using h
  | cons pe rest ih =>
    obtain ⟨hpress, hrest⟩ := pressesApart_cons hapart tick loop
    have happend : events ++ pe :: rest = (events ++ [pe]) ++ rest := by simp
    rw [happend] at halternating ⊢
    exact ih (h.processEvent tick loop halternating.init hpress) halternating hrest

/-- A tick of the current session while it is recorded. -/
theorem Records.processSessions {p : Pad} {events : List PadEvent} (h : p.Records events)
    (mute : Bool) (tick : Int) (scales : Scales) :
    (p.processSessions mute tick scales).2.Records events := by
  rw [Pad.processSessions]
  cases hs : p.currentSession with
  | none =>
    refine ⟨h.recording, by simp, fun f ↦ ?_⟩
    have hfinger := h.strokes f
    rw [fingerOf, hs] at hfinger
    exact hfinger
  | some s =>
    obtain ⟨hdelete, hterminated, hplay⟩ := h.alive s hs
    have hstart : s.startPlay tick = s := by rw [PadSession.startPlay, if_pos hplay]
    have hplayed : (p.playSession false tick scales s).2 =
        some (s.processSession true false p.doQuantize scales).2.2 := by
      simp [playSession, PadSession.play, hstart, hplay, PadSession.processSession, hdelete,
        h.recording]
    simp only [Option.bind_some, hplayed]
    refine ⟨h.recording, ?_, fun f ↦ ?_⟩
    · intro s' hs'
      obtain rfl := Option.some.inj hs'
      exact ⟨hdelete, hterminated, by simp [PadSession.processSession, hterminated]⟩
    · have hfinger := h.strokes f
      rw [fingerOf, hs] at hfinger
      exact hfinger.processFingerMotions false (s.playbackPosition + 1) p.doQuantize scales

theorem Records.congr {p q : Pad} {events : List PadEvent} (h : p.Records events)
    (hrecord : q.doRecord = p.doRecord) (hcurrent : q.currentSession = p.currentSession) :
    q.Records events := by
  have hfinger : ∀ f, q.fingerOf f = p.fingerOf f := by
    intro f
    rw [fingerOf, hcurrent, fingerOf]
  refine ⟨hrecord.trans h.recording, ?_, fun f ↦ ?_⟩
  · rw [hcurrent]
    exact h.alive
  · rw [hfinger]
    exact h.strokes f

/-- All events have been processed, and no motion is played in the current session. -/
def allFinished (p : Pad) : Bool :=
  p.padEventQueue.isEmpty &&
    (List.finRange 5).all fun f ↦ (p.fingerOf f).playingMotions.isEmpty

end Pad

/-- Recording is neither ended, nor is the pad cleared. -/
def PadOp.keepsRecording : PadOp → Bool
  | .internalSetRecord doRecord => doRecord
  | .internalClearPad => false
  | _ => true

namespace PadHistory

/-- Recording has been switched on and there is no session yet. -/
structure StartsRecording (h : PadHistory) : Prop where
  recording : h.pad.doRecord = true
  session : h.pad.currentSession = none
  events : h.events = h.pad.padEventQueue
  alternating : Alternating h.events

/-- Recording goes on, and fingers press, slide and release. -/
def GoesOn (h : PadHistory) (op : PadOp) : Prop :=
  op.keepsRecording = true ∧ Alternating (h.events ++ op.events)

/-- A tick finds no press that comes before the last motion of its finger has finished. -/
def waits (h : PadHistory) : PadOp → Bool
  | .process .. => h.pad.pressesApart h.pad.padEventQueue
  | _ => true

instance (h : PadHistory) (op : PadOp) : Decidable (h.GoesOn op) :=
  inferInstanceAs (Decidable (_ ∧ _))

/-- The strokes of all events that have been processed are with the current session. -/
def Complete (h : PadHistory) : Prop :=
  Alternating h.events ∧
    ∃ handled, h.events = handled ++ h.pad.padEventQueue ∧ h.pad.Records handled

theorem StartsRecording.complete {h : PadHistory} (hstart : h.StartsRecording) : h.Complete := by
  refine ⟨hstart.alternating, [], hstart.events, hstart.recording, ?_, fun f ↦ ?_⟩
  · rw [hstart.session]
    exact nofun
  · rw [Pad.fingerOf, hstart.session]
    exact .new

theorem Complete.step {h h' : PadHistory} {op : PadOp} {calls : List PadCall} (hc : h.Complete)
    (hgoes : h.GoesOn op) (hwaits : h.waits op = true) (hstep : h.step op = some (calls, h')) :
    h'.Complete := by
  obtain ⟨halternating, handled, hevents, hrecords⟩ := hc
  have heq := Option.some.inj hstep
  obtain ⟨-, rfl⟩ := Prod.mk.inj heq
  refine ⟨hgoes.2, ?_⟩
  cases op with
  | enqueueEvent fingerId t x y z =>
    refine ⟨handled, ?_, hrecords.congr rfl rfl⟩
    simp [PadOp.events, hevents]
  | process mute tick around =>
    refine ⟨h.events, ?_, ?_⟩
    · simp [PadOp.events, Pad.padEventQueue_process]
    · rw [hevents] at halternating ⊢
      have hempty : Pad.Records { h.pad with padEventQueue := [] } handled :=
        hrecords.congr rfl rfl
      exact (hempty.foldl_processEvent tick around.loop halternating hwaits).processSessions mute
        tick around.scales
  | internalSetRecord doRecord =>
    have hon : doRecord = true := hgoes.1
    have hsame : h.pad.internalSetRecord doRecord = h.pad := by
      rw [Pad.internalSetRecord, if_pos (hrecords.recording.trans hon.symm)]
    refine ⟨handled, ?_, ?_⟩
    · simpa [PadOp.events, Pad.perform, hsame] using hevents
    · simpa [Pad.perform, hsame] using hrecords
  | internalClearPad => exact absurd hgoes.1 nofun
  | setQuantize doQuantize =>
    refine ⟨handled, ?_, hrecords.congr rfl rfl⟩
    simpa [PadOp.events, Pad.perform] using hevents
  | configure config =>
    refine ⟨handled, ?_, hrecords.congr rfl rfl⟩
    simpa [PadOp.events, Pad.perform] using hevents

/-- In every run in which recording goes on and no finger is pressed before its last motion has
finished: when all motions have finished, every finger has one recorded motion for each of its
strokes, with the places of this stroke. -/
theorem every_stroke_recorded {h h' : PadHistory} {ops : List PadOp} (hstart : h.StartsRecording)
    (hrun : Library.Run step (fun h op _ ↦ h.GoesOn op ∧ h.waits op = true) h ops h')
    (hfinished : h'.pad.allFinished = true) (f : PadFingerId) :
    (h'.pad.recordedPlaces f).Perm (strokes (eventsOf f h'.events)).made := by
  obtain ⟨-, handled, hevents, hrecords⟩ : h'.Complete := by
    refine hrun.invariant Complete ?_ hstart.complete
    intro _ _ _ _ hc hok hstep
    exact hc.step hok.1 hok.2 hstep
  rw [Pad.allFinished, Bool.and_eq_true, List.isEmpty_iff, List.all_eq_true] at hfinished
  have hplaying := List.isEmpty_iff.mp (hfinished.2 f (List.mem_finRange f))
  rw [hfinished.1, List.append_nil] at hevents
  have hfinger := hrecords.strokes f
  rw [hfinger.playing, Option.toList_eq_nil_iff] at hplaying
  have hmade := hfinger.made
  rw [PadFinger.ending, hplaying, Option.filter_none, Option.toList_none, List.append_nil,
    ← hevents] at hmade
  exact hmade

/-- A pad that is to record. -/
def recording : PadHistory := ⟨{ Pad.new with doRecord := true }, [], []⟩

theorem startsRecording_recording : recording.StartsRecording :=
  ⟨rfl, rfl, rfl, by decide⟩

/-- The first finger is pressed and released. -/
def tap (x : Int) : List PadOp :=
  [.enqueueEvent 0 .msPadPress x 0 0, .enqueueEvent 0 .msPadRelease x 0 0]

/-- Ticks of machines that do not loop. -/
def ticks (n : Nat) : List PadOp := List.replicate n (.process false 0 ⟨none, none⟩)

/-- Two strokes, the second of them when the motion of the first one has finished. -/
theorem every_stroke_recorded_apart : ∃ h',
    Library.Run step (fun h op _ ↦ h.GoesOn op ∧ h.waits op = true) recording
      (tap 0 ++ ticks 3 ++ tap 5000 ++ ticks 3) h' ∧
    (h'.pad.recordedPlaces 0).Perm [[(0, 0, 0), (0, 0, 0)], [(5000, 0, 0), (5000, 0, 0)]] := by
  have hsome : ((Library.runAll step (fun h op _ ↦ decide (h.GoesOn op ∧ h.waits op = true))
      recording (tap 0 ++ ticks 3 ++ tap 5000 ++ ticks 3)).map fun h' ↦
        (h'.pad.allFinished, (strokes (eventsOf 0 h'.events)).made)) =
      some (true, [[(0, 0, 0), (0, 0, 0)], [(5000, 0, 0), (5000, 0, 0)]]) := by
    decide +kernel
  obtain ⟨h', hh', heq⟩ := Option.map_eq_some_iff.mp hsome
  obtain ⟨hfinished, hmade⟩ := Prod.mk.inj heq
  have hrun := (Library.Run.of_runAll hh').mono fun _ _ _ ↦ of_decide_eq_true
  exact ⟨h', hrun, hmade ▸ every_stroke_recorded startsRecording_recording hrun hfinished 0⟩

/-- Of two strokes between two ticks only the second one is recorded. -/
theorem second_stroke_replaces_first : ¬ ∀ (h h' : PadHistory) (ops : List PadOp),
    h.StartsRecording → Library.Run step (fun h op _ ↦ h.GoesOn op) h ops h' →
      h'.pad.allFinished = true → ∀ f,
        (h'.pad.recordedPlaces f).Perm (strokes (eventsOf f h'.events)).made := by
  intro hall
  have hsome : ((Library.runAll step (fun h op _ ↦ decide (h.GoesOn op)) recording
      (tap 0 ++ tap 5000 ++ ticks 3)).map fun h' ↦
        (h'.pad.allFinished, (h'.pad.recordedPlaces 0).length,
          (strokes (eventsOf 0 h'.events)).made.length)) = some (true, 1, 2) := by
    decide +kernel
  obtain ⟨h', hh', heq⟩ := Option.map_eq_some_iff.mp hsome
  simp only [Prod.mk.injEq] at heq
  have hrun := (Library.Run.of_runAll hh').mono fun _ _ _ ↦ of_decide_eq_true
  have hlength := (hall recording h' _ startsRecording_recording hrun heq.1 0).length_eq
  omega

end PadHistory

end Vuknob
