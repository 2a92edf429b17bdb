import Vuknob.Library.Timetable
import Vuknob.Playback.PadExport
import Vuknob.Playback.PadOrder

/-!
# Sessions that are played again

A session begins where its first event is processed, `src_jni/engine_code/pad.cc:1162–1184`, and is
started again whenever the machines come to that tick, `src_jni/engine_code/pad.cc:1047–1088`.
-/

namespace Vuknob

open Library

/-! ### Where a session starts -/

/-- The line that is next to a tick, of those that `MACHINE_LINE_BITMASK` can tell apart. -/
def nearestLine (tick : Int) : Int := (tick % 2 ^ 28 + 7) / 16

theorem quantizeTick_eq (tick : Int) : quantizeTick tick = nearestLine tick * 16 := by
  have htick : machineTicksPerLine = 16 := rfl
  rw [quantizeTick, nearestLine, htick]
  split <;> omega

namespace Pad

/-- Where the session starts that the next event is for. -/
def nextStart (p : Pad) (tick : Int) (loop : Option (Int × Int)) : Int :=
  match p.currentSession with
  | some s => s.startAtTick
  | none => p.sessionStart tick loop

theorem nextStart_processEvent (p : Pad) (tick : Int) (loop : Option (Int × Int)) (pe : PadEvent) :
    (processEvent tick loop p pe).nextStart tick loop = p.nextStart tick loop := by
  cases hf : pe.fingerId with
  | none => rw [processEvent, hf]
  | some f =>
    obtain ⟨s, made, hs, heq⟩ := p.processEvent_eq tick loop hf
    rw [heq]
    rcases hs with ⟨hs, -⟩ | ⟨hs, rfl, -⟩
    · rw [nextStart, nextStart, hs]
    · rw [nextStart, nextStart, hs]
      rfl

theorem nextStart_foldl (tick : Int) (loop : Option (Int × Int)) (events : List PadEvent)
    (p : Pad) : (events.foldl (processEvent tick loop) p).nextStart tick loop =
      p.nextStart tick loop := by
  induction events generalizing p with
  | nil => rfl
  | cons pe events ih => rw [List.foldl_cons, ih, nextStart_processEvent]

/-- An event for one of the fingers leaves a session. -/
theorem isSome_currentSession_foldl (tick : Int) (loop : Option (Int × Int))
    (events : List PadEvent) (p : Pad)
    (h : p.currentSession.isSome = true ∨ ∃ pe ∈ events, pe.fingerId.isSome = true) :
    (events.foldl (processEvent tick loop) p).currentSession.isSome = true := by
  induction events generalizing p with
  | nil => exact h.resolve_right (by simp)
  | cons pe events ih =>
    rw [List.foldl_cons]
    refine ih _ ?_
    cases hf : pe.fingerId with
    | some f =>
      obtain ⟨s, made, -, heq⟩ := p.processEvent_eq tick loop hf
      rw [heq]
      exact .inl rfl
    | none =>
      rw [processEvent, hf]
      refine h.imp_right ?_
      rintro ⟨pe', hmem, hsome⟩
      rcases List.mem_cons.mp hmem with rfl | hmem
      · rw [hf] at hsome
        cases hsome
      · exact ⟨pe', hmem, hsome⟩

/-- The start that is computed for a tick inside the loop. -/
theorem sessionStart_inside_iff (p : Pad) {tick loopStart loopLength : Int}
    (hstart : 0 ≤ loopStart) (hin : loopStart * 16 ≤ tick ∧ tick < (loopStart + loopLength) * 16) :
    (loopStart * 16 ≤ p.sessionStart tick (some (loopStart, loopLength)) ∧
      p.sessionStart tick (some (loopStart, loopLength)) < (loopStart + loopLength) * 16) ↔
    p.doQuantize = false ∨
      (loopStart ≤ nearestLine tick ∧ nearestLine tick < loopStart + loopLength) ∨
      (nearestLine tick = loopStart + loopLength ∧ 0 < loopStart ∧ loopStart ≤ loopLength) := by
  have htick : machineTicksPerLine = 16 := rfl
  -- rounding goes up to the line behind the loop at most
  have hline : nearestLine tick ≤ loopStart + loopLength := by
    rw [nearestLine]
    omega
  rw [sessionStart, quantizeTick_eq, htick]
  cases p.doQuantize with
  | false =>
    rw [if_neg Bool.false_ne_true]
    simp only [true_or, iff_true]
    split <;> omega
  | true =>
    rw [if_pos rfl]
    simp only [Bool.true_eq_false, false_or]
    split <;> omega

/-- A pad that quantizes and has been pressed. -/
def pressed : Pad :=
  { Pad.new with doQuantize := true, padEventQueue := [⟨.msPadPress, 0, 0, 0, 0⟩] }

end Pad

/-! ### A finger from the top -/

namespace PadFinger

/-- The motions of a finger can be played from the top: they are complete and not being played. -/
structure Resting (F : PadFinger) : Prop where
  alive : F.toBeDeleted = false
  nodup : F.recorded.Nodup
  recorded : ∀ k ∈ F.recorded, (F.motions k).terminated = true ∧ 0 ≤ (F.motions k).startTick ∧
    (F.motions k).index = -1
  current : ∀ k, F.current = some k → k ∉ F.recorded

/-- When a recorded motion starts. -/
def timeOf (F : PadFinger) (k : Nat) : Int := (F.motions k).startTick

/-- The finger is played from the top: the motions of `left` are yet to start, the others have been
played for as many of `n` ticks as there were since. None has a position behind `bound`. -/
structure Replaying (F₀ : PadFinger) (bound n : Nat) (left : List Nat) (F : PadFinger) : Prop where
  alive : F.toBeDeleted = false
  recorded : F.recorded = F₀.recorded
  current : F.current = F₀.current
  same : ∀ k ∈ F₀.recorded, (F.motions k).startTick = F₀.timeOf k ∧
    (F.motions k).terminated = true ∧ ∀ p ∈ (F.motions k).positions, p.t ≤ bound
  next : F.nextMotionToPlay = left.head?
  upcoming : F.upcoming = left
  waiting : ∀ k ∈ left, (F.motions k).index = -1
  nodup : F.playingMotions.Nodup
  playing : ∀ k ∈ F.playingMotions, k ∈ F₀.recorded ∧ k ∉ left ∧
    0 ≤ (F.motions k).index ∧ (F.motions k).crntTick + F₀.timeOf k + 1 = n ∧
    (F.motions k).crntTick ≤ bound ∧
    ((F.motions k).crntTick = bound → (F.motions k).finished = true)

/-- The pointer to the next motion is at the head of what is left. -/
theorem upcoming_eq {F : PadFinger} {front rest : List Nat} (hnodup : F.recorded.Nodup)
    (hrecorded : F.recorded = front ++ rest) (hnext : F.nextMotionToPlay = rest.head?) :
    F.upcoming = rest := by
  rw [upcoming, hnext]
  cases rest with
  | nil => rfl
  | cons k rest =>
    rw [hrecorded] at hnodup ⊢
    have hfront : ∀ j ∈ front, decide (j ≠ k) = true := by
      intro j hj
      refine decide_eq_true fun he ↦ ?_
      exact (List.nodup_append'.mp hnodup).2.2 hj (he ▸ List.mem_cons_self ..)
    dsimp only [List.head?_cons]
    rw [List.dropWhile_append_of_pos hfront, List.dropWhile_cons_of_neg (by simp)]

theorem exists_append_upcoming (F : PadFinger) : ∃ front, F.recorded = front ++ F.upcoming := by
  rw [upcoming]
  split
  · exact ⟨_, (List.takeWhile_append_dropWhile ..).symm⟩
  · exact ⟨F.recorded, (List.append_nil _).symm⟩

/-- Motions are started while the finger is not muted. -/
theorem exists_started {F : PadFinger} (halive : F.toBeDeleted = false) (position : Int) :
    ∃ first rest, Started position F.upcoming first rest F (F.startRecorded false position) := by
  cases hnext : F.nextMotionToPlay with
  | some k =>
    have hstart : F.startRecorded false position = F.startMotions position F.upcoming := by
      rw [startRecorded, halive, hnext]
      rfl
    rw [hstart]
    exact exists_started_startMotions position F.upcoming F
  | none =>
    have hsame : F.startRecorded false position = F := by
      rw [startRecorded, halive, hnext]
      rfl
    have hnil : F.upcoming = [] := by rw [upcoming, hnext]
    rw [hsame, hnil]
    refine ⟨[], [], rfl, .nil, ?_, fun _ _ ↦ rfl, List.forall_mem_nil _, fun j hj ↦ by cases hj⟩
    rw [List.append_nil, List.head?_nil, ← hnext]

/-- The first motions that are due start, and the others are left. -/
theorem Started.eq_takeWhile {F F' : PadFinger} {position : Int} {first rest : List Nat}
    (h : Started position F.upcoming first rest F F') (hnodup : F.recorded.Nodup)
    {time : Nat → Int} (hwaiting : ∀ k ∈ F.upcoming, (F.motions k).index = -1 ∧
      (F.motions k).startTick = time k) :
    (F.upcoming.takeWhile fun k ↦ time k = position) = first ∧
      (F.upcoming.dropWhile fun k ↦ time k = position) = rest := by
  have hfirst : ∀ k ∈ first, decide (time k = position) = true := by
    intro k hk
    have htime := (hwaiting k (h.list ▸ List.mem_append_left _ hk)).2
    have hnow := (PadMotion.startMotion_eq_some_iff.mp (h.started k hk)).1.2
    exact decide_eq_true (htime.symm.trans hnow.symm)
  obtain ⟨front, hfront⟩ := F.exists_append_upcoming
  have hupcoming : F.upcoming.Nodup := (List.nodup_append'.mp (hfront ▸ hnodup)).2.1
  have hrest : ∀ k, rest.head? = some k → decide (time k = position) = false := by
    intro k hk
    have hmem : k ∈ rest := List.mem_of_mem_head? hk
    have hnot : k ∉ first := fun hin ↦ (List.nodup_append'.mp (h.list ▸ hupcoming)).2.2 hin hmem
    have hwait := h.waiting k hk
    rw [h.others k hnot] at hwait
    refine decide_eq_false fun heq ↦ ?_
    obtain ⟨hindex, htime⟩ := hwaiting k (h.list ▸ List.mem_append_right _ hmem)
    exact absurd hwait (by simp [PadMotion.startMotion, hindex, htime, heq])
  rw [h.list, List.takeWhile_append_of_pos hfirst, List.dropWhile_append_of_pos hfirst]
  cases rest with
  | nil => exact ⟨List.append_nil _, rfl⟩
  | cons k rest =>
    have hk := hrest k rfl
    rw [List.takeWhile_cons_of_neg (by simp only [hk]; exact Bool.false_ne_true),
      List.dropWhile_cons_of_neg (by simp only [hk]; exact Bool.false_ne_true)]
    exact ⟨List.append_nil _, rfl⟩

/-- The motions that the next tick starts. -/
def starting (F : PadFinger) (position : Int) : List Nat :=
  (F.startRecorded false position).playingMotions.drop F.playingMotions.length

theorem Started.starting {F : PadFinger} {position : Int} {first rest : List Nat}
    (h : Started position F.upcoming first rest F (F.startRecorded false position)) :
    F.starting position = first := by
  rw [PadFinger.starting, h.finger]
  exact List.drop_left

/-- Playing the recorded motions records nothing. -/
theorem recorded_playMotions (doRecord mute quantize : Bool) (scales : Scales) {F : PadFinger}
    {l : List Nat} (hnodup : F.playingMotions.Nodup) (hl : ∀ k ∈ l, F.current ≠ some k) :
    (F.playMotions doRecord mute quantize scales l).2.recorded = F.recorded ∧
      (∀ i, ((F.playMotions doRecord mute quantize scales l).2.motions i).startTick =
        (F.motions i).startTick) ∧
      (F.playMotions doRecord mute quantize scales l).2.current = F.current := by
  induction l generalizing F with
  | nil => exact ⟨rfl, fun _ ↦ rfl, rfl⟩
  | cons k rest ih =>
    have hk := hl k (List.mem_cons_self ..)
    have hticked := ticked_playMotion doRecord mute quantize scales hnodup k
    obtain ⟨hrecorded, hstart⟩ := recorded_playMotion doRecord mute quantize scales hk
    have hcurrent : (F.playMotion doRecord mute quantize scales k).2.current = F.current := by
      refine Option.ext fun j ↦ ?_
      rw [hticked.current]
      refine ⟨fun hj ↦ hj.1, fun hj ↦ ⟨hj, .inl ?_⟩⟩
      rw [List.mem_singleton]
      rintro rfl
      exact hk hj
    have hnodup' : (F.playMotion doRecord mute quantize scales k).2.playingMotions.Nodup := by
      rw [hticked.playing]
      exact hnodup.filter _
    obtain ⟨hrecorded', hstart', hcurrent'⟩ := ih hnodup' fun j hj ↦ by
      rw [hcurrent]
      exact hl j (List.mem_cons_of_mem k hj)
    exact ⟨hrecorded'.trans hrecorded, fun i ↦ (hstart' i).trans (hstart i),
      hcurrent'.trans hcurrent⟩

/-- From the top, nothing has been played. -/
theorem Resting.replaying {F : PadFinger} (h : F.Resting) {bound : Nat}
    (hbound : ∀ k ∈ F.recorded, ∀ p ∈ (F.motions k).positions, p.t ≤ bound) :
    Replaying F bound 0 F.recorded F.startFromTheTop :=
  ⟨h.alive, rfl, rfl, fun k hk ↦ ⟨rfl, (h.recorded k hk).1, hbound k hk⟩, rfl,
    upcoming_eq h.nodup (List.nil_append _).symm rfl, fun k hk ↦ (h.recorded k hk).2.2, .nil, nofun⟩

/-- The first motions that are due start. -/
theorem Replaying.startRecorded {F₀ F : PadFinger} {bound n : Nat} {left : List Nat}
    (h : Replaying F₀ bound n left F) (h₀ : F₀.Resting) :
    Replaying F₀ bound n (left.dropWhile fun k ↦ F₀.timeOf k = n) (F.startRecorded false n) ∧
      F.starting n = left.takeWhile fun k ↦ F₀.timeOf k = n := by
  have hnodup : F.recorded.Nodup := h.recorded ▸ h₀.nodup
  obtain ⟨front, hfront⟩ := F.exists_append_upcoming
  have hmem : ∀ k ∈ F.upcoming, k ∈ F₀.recorded := by
    intro k hk
    rw [← h.recorded, hfront]
    exact List.mem_append_right _ hk
  obtain ⟨first, rest, hstarted⟩ := exists_started h.alive (n : Int)
  obtain ⟨htake, hdrop⟩ := hstarted.eq_takeWhile hnodup fun k hk ↦
    ⟨h.waiting k (h.upcoming ▸ hk), (h.same k (hmem k hk)).1⟩
  rw [hstarted.starting, ← h.upcoming, htake, hdrop]
  refine ⟨?_, rfl⟩
  have hlist := hstarted.list
  have hapart : ∀ k ∈ rest, k ∉ first := by
    intro k hk hin
    have hupcoming := (List.nodup_append'.mp (hfront ▸ hnodup)).2.1
    exact (List.nodup_append'.mp (hlist ▸ hupcoming)).2.2 hin hk
  generalize F.startRecorded false n = F' at hstarted
  have hplaying : F'.playingMotions = F.playingMotions ++ first := by rw [hstarted.finger]
  have hrecorded : F'.recorded = F.recorded := by rw [hstarted.finger]
  have hnow : ∀ k ∈ first, F'.motions k = { F.motions k with
      index := 0, crntTick := -1, lastX := -1
      arperator := ((F.motions k).arperator.reset.setDirection
        (F.motions k).arpDirection).setPattern (F.motions k).arpeggioPattern } :=
    fun k hk ↦ (PadMotion.startMotion_eq_some_iff.mp (hstarted.started k hk)).2
  have hnew : ∀ k ∈ F.playingMotions, k ∉ first := by
    intro k hk hin
    refine (h.playing k hk).2.1 (h.upcoming ▸ ?_)
    rw [hlist]
    exact List.mem_append_left _ hin
  have hnext : F'.nextMotionToPlay = rest.head? := by rw [hstarted.finger]
  refine ⟨?_, hrecorded.trans h.recorded, ?_, fun k hk ↦ ?_, hnext, ?_, fun k hk ↦ ?_, ?_,
    fun k hk ↦ ?_⟩
  · rw [hstarted.finger]
    exact h.alive
  · rw [hstarted.finger]
    exact h.current
  · by_cases hin : k ∈ first
    · rw [hnow k hin]
      exact h.same k hk
    · rw [hstarted.others k hin]
      exact h.same k hk
  · have hall : F'.recorded = (front ++ first) ++ rest := by
      rw [hrecorded, hfront, hlist, List.append_assoc]
    exact upcoming_eq (hrecorded ▸ hnodup) hall hnext
  · rw [hstarted.others k (hapart k hk)]
    exact h.waiting k (h.upcoming ▸ hlist ▸ List.mem_append_right _ hk)
  · rw [hplaying]
    exact List.nodup_append'.mpr ⟨h.nodup, hstarted.nodup, fun k hk hin ↦ hnew k hk hin⟩
  · rw [hplaying] at hk
    rcases List.mem_append.mp hk with hk | hk
    · obtain ⟨hin, hleft, hrest⟩ := h.playing k hk
      rw [hstarted.others k (hnew k hk)]
      refine ⟨hin, fun hmem ↦ hleft (h.upcoming ▸ ?_), hrest⟩
      rw [hlist]
      exact List.mem_append_right _ hmem
    · have hin := hmem k (hlist ▸ List.mem_append_left _ hk)
      have hdue := (PadMotion.startMotion_eq_some_iff.mp (hstarted.started k hk)).1.2
      rw [(h.same k hin).1] at hdue
      rw [hnow k hk]
      refine ⟨hin, fun hmem ↦ hapart k hmem hk, Int.le_refl 0, ?_, ?_, ?_⟩
      · dsimp only
        omega
      · dsimp only
        omega
      · dsimp only
        omega

/-- The motions that have started are played. -/
theorem Replaying.playMotions {F₀ F : PadFinger} {bound n : Nat} {left : List Nat}
    (h : Replaying F₀ bound n left F) (h₀ : F₀.Resting) (doRecord quantize : Bool)
    (scales : Scales) : Replaying F₀ bound (n + 1) left
      (F.playMotions doRecord false quantize scales F.playingMotions).2 := by
  have hcurrent : ∀ k ∈ F.playingMotions, F.current ≠ some k := by
    intro k hk he
    exact h₀.current k (h.current ▸ he) (h.playing k hk).1
  have ht := ticked_playMotions doRecord false quantize scales h.nodup h.nodup
  obtain ⟨hrecorded, hstart, hsame⟩ :=
    recorded_playMotions doRecord false quantize scales h.nodup hcurrent
  generalize (F.playMotions doRecord false quantize scales F.playingMotions).2 = F' at *
  have hplaying : ∀ k, k ∈ F'.playingMotions ↔
      k ∈ F.playingMotions ∧ (F.motions k).finished = false := by
    intro k
    rw [ht.playing, List.mem_filter]
    simp only [decide_eq_true_eq]
    exact ⟨fun hk ↦ ⟨hk.1, hk.2.resolve_left (not_not_intro hk.1)⟩, fun hk ↦ ⟨hk.1, .inr hk.2⟩⟩
  refine ⟨ht.toBeDeleted.trans h.alive, hrecorded.trans h.recorded, hsame.trans h.current,
    fun k hk ↦ ⟨(hstart k).trans (h.same k hk).1, ?_⟩, ht.nextMotionToPlay.trans h.next, ?_,
    fun k hk ↦ ?_, ?_, fun k hk ↦ ?_⟩
  · obtain ⟨-, hterminated, hbound⟩ := h.same k hk
    by_cases hmem : k ∈ F.playingMotions
    · cases hfinished : (F.motions k).finished with
      | false =>
        rw [ht.going k hmem hfinished, PadMotion.terminated_processMotion,
          PadMotion.positions_processMotion]
        exact ⟨hterminated, hbound⟩
      | true =>
        obtain ⟨startTick, heq⟩ := ht.gone k hmem hfinished
        rw [heq]
        exact ⟨(PadMotion.terminated_processMotion ..).trans hterminated,
          (PadMotion.positions_processMotion ..).symm ▸ hbound⟩
    · rw [ht.others k hmem]
      exact ⟨hterminated, hbound⟩
  · have hupcoming := h.upcoming
    unfold PadFinger.upcoming at hupcoming ⊢
    rwa [ht.nextMotionToPlay, hrecorded]
  · rw [ht.others k fun hmem ↦ (h.playing k hmem).2.1 hk]
    exact h.waiting k hk
  · rw [ht.playing]
    exact h.nodup.filter _
  · obtain ⟨hk, hgoing⟩ := (hplaying k).mp hk
    obtain ⟨hin, hleft, hindex, htick, hle, hend⟩ := h.playing k hk
    obtain ⟨-, hterminated, hbound⟩ := h.same k hin
    have hcrnt := PadMotion.crntTick_processMotion hgoing false scales
    -- a motion at the bound has finished, so this one is before it
    have hlt : (F.motions k).crntTick ≠ bound := fun he ↦
      absurd (hgoing.symm.trans (hend he)) nofun
    rw [ht.going k hk hgoing, hcrnt]
    refine ⟨hin, hleft, ?_, by omega, by omega, fun he ↦ ?_⟩
    · rw [PadMotion.index_processMotion hgoing]
      omega
    · refine PadMotion.finished_processMotion hgoing hterminated hindex (fun p hp ↦ ?_) _ _
      have := hbound p hp
      omega

/-- One tick of a finger that is played from the top. -/
theorem Replaying.processFingerMotions {F₀ F : PadFinger} {bound n : Nat}
    (h : Replaying F₀ bound n (leftAt F₀.timeOf F₀.recorded n) F) (h₀ : F₀.Resting)
    (doRecord quantize : Bool) (scales : Scales) :
    Replaying F₀ bound (n + 1) (leftAt F₀.timeOf F₀.recorded (n + 1))
        (F.processFingerMotions doRecord false n quantize scales).2 ∧
      F.starting n = takenAt F₀.timeOf F₀.recorded n := by
  obtain ⟨hstarted, hstarting⟩ := h.startRecorded h₀
  exact ⟨hstarted.playMotions h₀ doRecord quantize scales, hstarting⟩

/-- Motions are played for `bound + 1` ticks at most. -/
theorem Replaying.playingMotions_eq_nil {F₀ F : PadFinger} {bound n : Nat} {left : List Nat}
    (h : Replaying F₀ bound n left F) {last : Nat}
    (hlast : ∀ k ∈ F₀.recorded, F₀.timeOf k < last) (hn : last + bound < n) :
    F.playingMotions = [] := by
  refine List.eq_nil_iff_forall_not_mem.mpr fun k hk ↦ ?_
  obtain ⟨hin, -, -, htick, hle, -⟩ := h.playing k hk
  have := hlast k hin
  omega

/-- The finger is complete when nothing is left and nothing is played. -/
theorem Replaying.completed_iff {F₀ F : PadFinger} {bound n : Nat} {left : List Nat}
    (h : Replaying F₀ bound n left F) :
    F.completed = true ↔ F.playingMotions = [] ∧ left = [] := by
  rw [completed, Bool.and_eq_true, List.isEmpty_iff, Option.isNone_iff_eq_none, h.next,
    List.head?_eq_none_iff]

end PadFinger

/-! ### A session from the top -/

/-- What `process_session` is called with at a tick, besides that it is not muted. -/
structure TickSetting where
  doRecord : Bool
  quantize : Bool
  scales : Scales

namespace PadSession

/-- The session can be started. -/
structure Resting (s : PadSession) : Prop where
  inPlay : s.inPlay = false
  terminated : s.terminated = true
  fingers : ∀ f, (s.finger f).Resting

/-- The session when it has been started and processed for `n` ticks. -/
def replay (settings : Nat → TickSetting) (s : PadSession) : Nat → PadSession
  | 0 => s.startPlay s.startAtTick
  | n + 1 =>
    ((replay settings s n).processSession (settings n).doRecord false (settings n).quantize
      (settings n).scales).2.2

/-- At every tick the motions start whose start it is, and the session goes on until all have been
started and have ended. -/
def PlaysThrough (settings : Nat → TickSetting) (s : PadSession) : Prop :=
  (∀ f (n : Nat), ((s.replay settings n).finger f).starting
      ((s.replay settings n).playbackPosition + 1) =
    (s.finger f).recorded.filter fun k ↦ ((s.finger f).motions k).startTick = n) ∧
  ∃ last : Nat, (∀ n < last, (s.replay settings n).inPlay = true) ∧
    (s.replay settings last).inPlay = false ∧
    ∀ f, ∀ k ∈ (s.finger f).recorded, ((s.finger f).motions k).startTick < last

variable {s : PadSession} (settings : Nat → TickSetting)

/-- All fingers are played from the top. -/
theorem Resting.replaying (h : s.Resting) {bound : Nat}
    (hbound : ∀ f, ∀ k ∈ (s.finger f).recorded, ∀ p ∈ ((s.finger f).motions k).positions,
      p.t ≤ bound) (n : Nat) :
    (s.replay settings n).playbackPosition = n - 1 ∧ (s.replay settings n).terminated = true ∧
      ∀ f, (s.finger f).Replaying bound n (leftAt (s.finger f).timeOf (s.finger f).recorded n)
        ((s.replay settings n).finger f) := by
  induction n with
  | zero =>
    have hstart : s.startPlay s.startAtTick = { s with
        inPlay := true
        playbackPosition := -1
        finger := fun f ↦ (s.finger f).startFromTheTop } := by
      rw [PadSession.startPlay, if_neg (by simp [h.inPlay]), if_pos rfl]
    rw [replay, hstart]
    exact ⟨rfl, h.terminated, fun f ↦ (h.fingers f).replaying (hbound f)⟩
  | succ n ih =>
    obtain ⟨hposition, hterminated, hfingers⟩ := ih
    rw [replay]
    refine ⟨?_, hterminated, fun f ↦ ?_⟩
    · dsimp only [PadSession.processSession]
      rw [hposition]
      omega
    · have hnext : (s.replay settings n).playbackPosition + 1 = n := by omega
      dsimp only [PadSession.processSession]
      rw [hnext]
      exact ((hfingers f).processFingerMotions (h.fingers f) _ _ _).1

theorem exists_bound_positions (s : PadSession) : ∃ bound : Nat, ∀ f, ∀ k ∈ (s.finger f).recorded,
    ∀ p ∈ ((s.finger f).motions k).positions, p.t ≤ bound := by
  obtain ⟨bound, hbound⟩ := exists_bound PadPosition.t ((List.finRange 5).flatMap fun f ↦
    (s.finger f).recorded.flatMap fun k ↦ ((s.finger f).motions k).positions)
  refine ⟨bound, fun f k hk p hp ↦ ?_⟩
  exact (hbound p (List.mem_flatMap.mpr ⟨f, List.mem_finRange f,
    List.mem_flatMap.mpr ⟨k, hk, hp⟩⟩)).le

/-- The session is over after a tick if nothing is left of any finger. -/
theorem Resting.inPlay_replay_succ (h : s.Resting) {bound : Nat}
    (hbound : ∀ f, ∀ k ∈ (s.finger f).recorded, ∀ p ∈ ((s.finger f).motions k).positions,
      p.t ≤ bound) (n : Nat) :
    (s.replay settings (n + 1)).inPlay = false ↔
      ∀ f, ((s.replay settings (n + 1)).finger f).playingMotions = [] ∧
        leftAt (s.finger f).timeOf (s.finger f).recorded (n + 1) = [] := by
  obtain ⟨-, hterminated, hfingers⟩ := h.replaying settings hbound (n + 1)
  have hplay : (s.replay settings (n + 1)).inPlay =
      !((s.replay settings (n + 1)).completed && (s.replay settings (n + 1)).terminated) := rfl
  rw [hplay, hterminated, Bool.and_true, Bool.not_eq_false', completed, List.all_eq_true]
  constructor
  · exact fun hall f ↦ (hfingers f).completed_iff.mp (hall f (List.mem_finRange f))
  · exact fun hall f _ ↦ (hfingers f).completed_iff.mpr (hall f)

theorem inPlay_replay_zero (s : PadSession) : (s.replay settings 0).inPlay = true := by
  rw [replay, PadSession.startPlay]
  split
  · next hplay => exact hplay
  · rw [if_pos rfl]

/-- What starts at a tick is what is taken at that time. -/
theorem Resting.starting_replay (h : s.Resting) (f : PadFingerId) (n : Nat) :
    ((s.replay settings n).finger f).starting ((s.replay settings n).playbackPosition + 1) =
      takenAt (s.finger f).timeOf (s.finger f).recorded n := by
  obtain ⟨bound, hbound⟩ := s.exists_bound_positions
  obtain ⟨hposition, -, hfingers⟩ := h.replaying settings hbound n
  have hnext : (s.replay settings n).playbackPosition + 1 = n := by omega
  rw [hnext]
  exact ((hfingers f).processFingerMotions (h.fingers f) false false none).2

/-- The motions are all started in time, and the session comes to its end, if and only if they are in
order. -/
theorem Resting.playsThrough_iff (h : s.Resting) : s.PlaysThrough settings ↔ s.Ordered := by
  have htimes : ∀ f, ∀ k ∈ (s.finger f).recorded, 0 ≤ (s.finger f).timeOf k :=
    fun f k hk ↦ ((h.fingers f).recorded k hk).2.1
  constructor
  · intro hplays f
    refine (takenAt_eq_filter_iff (h.fingers f).nodup (htimes f)).mp fun n ↦ ?_
    rw [← h.starting_replay settings f n]
    exact hplays.1 f n
  · intro hordered
    refine ⟨fun f n ↦ ?_, ?_⟩
    · rw [h.starting_replay settings f n]
      exact (takenAt_eq_filter_iff (h.fingers f).nodup (htimes f)).mpr (hordered f) n
    · obtain ⟨bound, hbound⟩ := s.exists_bound_positions
      obtain ⟨late, hlate⟩ := exists_bound (fun k ↦ (s.finger k.1).timeOf k.2)
        ((List.finRange 5).flatMap fun f ↦ (s.finger f).recorded.map fun k ↦ (f, k))
      have hstarts : ∀ f, ∀ k ∈ (s.finger f).recorded, (s.finger f).timeOf k < late :=
        fun f k hk ↦ hlate (f, k) (List.mem_flatMap.mpr ⟨f, List.mem_finRange f,
          List.mem_map_of_mem hk⟩)
      have hleft : ∀ f n, leftAt (s.finger f).timeOf (s.finger f).recorded n =
          (s.finger f).recorded.filter fun k ↦ n ≤ (s.finger f).timeOf k :=
        fun f n ↦ leftAt_eq_filter (hordered f) (htimes f) n
      -- when all have started and been played to the bound, nothing is left
      have hend : ∃ n, (s.replay settings n).inPlay = false := by
        refine ⟨late + bound + 1, (h.inPlay_replay_succ settings hbound _).mpr fun f ↦ ⟨?_, ?_⟩⟩
        · obtain ⟨-, -, hfingers⟩ := h.replaying settings hbound (late + bound + 1)
          exact (hfingers f).playingMotions_eq_nil (hstarts f) (by omega)
        · rw [hleft]
          refine List.filter_eq_nil_iff.mpr fun k hk ↦ ?_
          have := hstarts f k hk
          simp only [decide_eq_true_eq]
          omega
      have hfirst := Nat.find_spec hend
      refine ⟨Nat.find hend, fun n hn ↦ ?_, hfirst, fun f k hk ↦ ?_⟩
      · rw [← Bool.not_eq_false]
        exact Nat.find_min hend hn
      · generalize Nat.find hend = last at hfirst
        cases last with
        | zero => exact absurd (hfirst.symm.trans (s.inPlay_replay_zero settings)) nofun
        | succ last =>
          have hnil := ((h.inPlay_replay_succ settings hbound last).mp hfirst f).2
          rw [hleft] at hnil
          have hnot := List.filter_eq_nil_iff.mp hnil k hk
          simp only [decide_eq_true_eq, not_le] at hnot
          exact hnot

/-- A session whose motions are not in order stays in play for ever. -/
theorem Resting.inPlay_of_not_ordered (h : s.Resting) (hnot : ¬ s.Ordered) (n : Nat) :
    (s.replay settings n).inPlay = true := by
  obtain ⟨bound, hbound⟩ := s.exists_bound_positions
  cases n with
  | zero => exact s.inPlay_replay_zero settings
  | succ n =>
    by_contra hplay
    rw [Bool.not_eq_true] at hplay
    refine hnot fun f ↦ ?_
    have hnil := ((h.inPlay_replay_succ settings hbound n).mp hplay f).2
    have hall := takenBefore_append_leftAt (s.finger f).timeOf (s.finger f).recorded (n + 1)
    rw [hnil, List.append_nil] at hall
    rw [PadFinger.Ordered, ← hall]
    exact pairwise_takenBefore (n + 1)

theorem startAtTick_replay (s : PadSession) (n : Nat) :
    (s.replay settings n).startAtTick = s.startAtTick := by
  induction n with
  | zero =>
    rw [replay, PadSession.startPlay]
    split
    · rfl
    · rw [if_pos rfl]
  | succ n ih => exact ih

theorem Resting.startPlay (h : s.Resting) (tick : Int) :
    s.startPlay tick = if s.startAtTick = tick then s.replay settings 0 else s := by
  have hidle : ¬ s.inPlay = true := by
    rw [h.inPlay]
    exact Bool.false_ne_true
  rw [replay, PadSession.startPlay, PadSession.startPlay, if_neg hidle, if_neg hidle, if_pos rfl]

end PadSession

/-! ### The export of sessions -/

namespace PadExport

/-- The sessions are exported tick by tick, as they would be played. -/
def setting (scales : Scales) : Nat → TickSetting := fun _ ↦ ⟨false, false, scales⟩

variable {scales : Scales}

/-- A session that is exported goes on or is erased. -/
theorem processSession_replay {s : PadSession} (hstart : 0 ≤ s.startAtTick) (n : Nat) :
    (processSession scales (s.replay (setting scales) n)).2 =
      if (s.replay (setting scales) (n + 1)).inPlay then some (s.replay (setting scales) (n + 1))
      else none := by
  have hnext : ((s.replay (setting scales) n).processSession false false false scales).2.2 =
      s.replay (setting scales) (n + 1) := rfl
  have hsame : (s.replay (setting scales) (n + 1)).startPlay (-1) =
      s.replay (setting scales) (n + 1) := by
    have htick := s.startAtTick_replay (setting scales) (n + 1)
    rw [PadSession.startPlay]
    split
    · rfl
    · rw [if_neg (by omega)]
  rw [processSession]
  dsimp only
  rw [hnext, hsame]

/-- Every active session is one of those that are exported, and has been in play since its start. -/
structure Exporting (scales : Scales) (sessions : List PadSession) (E : PadExport) : Prop where
  remaining : ∀ s ∈ E.remainingSessions, s ∈ sessions ∧ E.currentTick ≤ s.startAtTick
  active : ∀ t ∈ E.activeSessions, ∃ s ∈ sessions, ∃ n, t = s.replay (setting scales) n ∧
    E.currentTick = s.startAtTick + n ∧ ∀ i ≤ n, (s.replay (setting scales) i).inPlay = true

/-- A session is exported at last, and does not end. -/
def Stuck (scales : Scales) (s : PadSession) (E : PadExport) : Prop :=
  s ∈ E.remainingSessions ∧ E.currentTick ≤ s.startAtTick ∨
    ∃ n, s.replay (setting scales) n ∈ E.activeSessions

section

variable {sessions : List PadSession} {E : PadExport}
  (hsessions : ∀ s ∈ sessions, s.Resting ∧ 0 ≤ s.startAtTick)

include hsessions

theorem Exporting.round (h : Exporting scales sessions E) :
    Exporting scales sessions (E.round scales).2 := by
  have hstarted : ∀ t ∈ E.startSessions.activeSessions, ∃ s ∈ sessions, ∃ n,
      t = s.replay (setting scales) n ∧ E.currentTick = s.startAtTick + n ∧
        ∀ i ≤ n, (s.replay (setting scales) i).inPlay = true := by
    intro t ht
    rcases List.mem_append.mp ht with ht | ht
    · exact h.active t ht
    · obtain ⟨ht, hplay⟩ := List.mem_filter.mp ht
      obtain ⟨s, hs, rfl⟩ := List.mem_map.mp ht
      obtain ⟨hs, -⟩ := h.remaining s hs
      have hrest := (hsessions s hs).1
      rw [hrest.startPlay (setting scales)] at hplay ⊢
      split
      · next htick =>
        refine ⟨s, hs, 0, rfl, by omega, fun i hi ↦ ?_⟩
        rw [Nat.le_zero.mp hi]
        exact s.inPlay_replay_zero _
      · next htick =>
        rw [if_neg htick, hrest.inPlay] at hplay
        cases hplay
  refine ⟨fun s hs ↦ ?_, fun t ht ↦ ?_⟩
  · obtain ⟨hs, hidle⟩ := List.mem_filter.mp hs
    obtain ⟨s', hs', rfl⟩ := List.mem_map.mp hs
    obtain ⟨hmem, htick⟩ := h.remaining s' hs'
    have hrest := (hsessions s' hmem).1
    rw [hrest.startPlay (setting scales)] at hidle ⊢
    split
    · next heq =>
      rw [if_pos heq, s'.inPlay_replay_zero] at hidle
      cases hidle
    · next hne =>
      refine ⟨hmem, ?_⟩
      show E.currentTick + 1 ≤ s'.startAtTick
      omega
  · obtain ⟨played, hplayed, heq⟩ := List.mem_filterMap.mp ht
    obtain ⟨t', ht', rfl⟩ := List.mem_map.mp hplayed
    obtain ⟨s, hs, n, rfl, htick, hall⟩ := hstarted t' ht'
    rw [processSession_replay (hsessions s hs).2] at heq
    split at heq
    · next hplay =>
      obtain rfl := Option.some.inj heq
      refine ⟨s, hs, n + 1, rfl, ?_, fun i hi ↦ ?_⟩
      · show E.currentTick + 1 = s.startAtTick + (n + 1 : Nat)
        omega
      · rcases Nat.lt_or_eq_of_le hi with hi | rfl
        · exact hall i (by omega)
        · exact hplay
    · cases heq

/-- A session that never ends keeps the loop going. -/
theorem Stuck.round {s : PadSession} (h : Stuck scales s E) (hs : s ∈ sessions)
    (hplay : ∀ n, (s.replay (setting scales) n).inPlay = true) :
    Stuck scales s (E.round scales).2 := by
  obtain ⟨hrest, hstart⟩ := hsessions s hs
  have hgoes : ∀ n, s.replay (setting scales) n ∈ E.startSessions.activeSessions →
      Stuck scales s (E.round scales).2 := by
    intro n hn
    refine .inr ⟨n + 1, List.mem_filterMap.mpr
      ⟨_, List.mem_map_of_mem (f := processSession scales) hn, ?_⟩⟩
    rw [processSession_replay hstart, if_pos (hplay (n + 1))]
  rcases h with ⟨hmem, htick⟩ | ⟨n, hn⟩
  · have hmap := List.mem_map_of_mem (f := PadSession.startPlay E.currentTick) hmem
    rw [hrest.startPlay (setting scales)] at hmap
    split at hmap
    · refine hgoes 0 (List.mem_append_right _ (List.mem_filter.mpr ⟨hmap, hplay 0⟩))
    · next hne =>
      refine .inl ⟨List.mem_filter.mpr ⟨hmap, by simp [hrest.inPlay]⟩, ?_⟩
      show E.currentTick + 1 ≤ s.startAtTick
      omega
  · exact hgoes n (List.mem_append_left _ hn)

/-- The export of sessions that are in order ends. -/
theorem Exporting.exists_rounds (h : Exporting scales sessions E)
    (hordered : ∀ s ∈ sessions, s.Ordered) (stopTick : Int) :
    ∃ fuel, (rounds scales stopTick fuel E).isSome = true := by
  have hlast : ∀ s ∈ sessions, ∃ last : Nat, (s.replay (setting scales) last).inPlay = false := by
    intro s hs
    obtain ⟨-, last, -, hend, -⟩ :=
      ((hsessions s hs).1.playsThrough_iff (setting scales)).mpr (hordered s hs)
    exact ⟨last, hend⟩
  -- from some tick on no session is active
  have hbound : ∃ bound : Int, stopTick ≤ bound ∧ ∀ s ∈ sessions, ∃ last : Nat,
      (s.replay (setting scales) last).inPlay = false ∧ s.startAtTick + last ≤ bound := by
    clear h hsessions hordered
    induction sessions with
    | nil => exact ⟨stopTick, Int.le_refl _, nofun⟩
    | cons s sessions ih =>
      obtain ⟨bound, hstop, hall⟩ := ih fun t ht ↦ hlast t (List.mem_cons_of_mem s ht)
      obtain ⟨last, hend⟩ := hlast s (List.mem_cons_self ..)
      refine ⟨max bound (s.startAtTick + last), by omega, fun t ht ↦ ?_⟩
      rcases List.mem_cons.mp ht with rfl | ht
      · exact ⟨last, hend, by omega⟩
      · obtain ⟨last', hend', hle⟩ := hall t ht
        exact ⟨last', hend', by omega⟩
  obtain ⟨bound, hstop, hall⟩ := hbound
  suffices hrounds : ∀ (n : Nat) (E : PadExport), Exporting scales sessions E →
      bound - E.currentTick < n → (rounds scales stopTick (n + 1) E).isSome = true from
    ⟨_, hrounds (bound - E.currentTick + 1).toNat E h (by omega)⟩
  intro n
  induction n with
  | zero =>
    intro E hE hn
    have hnone : E.activeSessions = [] := by
      refine List.eq_nil_iff_forall_not_mem.mpr fun t ht ↦ ?_
      obtain ⟨s, hs, n, -, htick, hplay⟩ := hE.active t ht
      obtain ⟨last, hend, hle⟩ := hall s hs
      exact absurd (hend.symm.trans (hplay last (by omega))) nofun
    rw [rounds, hnone, if_neg]
    · rfl
    · simp
      omega
  | succ n ih =>
    intro E hE hn
    rw [rounds]
    split
    · rw [Option.isSome_map]
      refine ih _ (hE.round hsessions) ?_
      show bound - (E.currentTick + 1) < n
      omega
    · rfl

/-- The export of a session that does not end does not end. -/
theorem Stuck.rounds_eq_none {s : PadSession} (h : Stuck scales s E) (hs : s ∈ sessions)
    (hplay : ∀ n, (s.replay (setting scales) n).inPlay = true) {stopTick : Int}
    (hstop : s.startAtTick < stopTick) (fuel : Nat) : rounds scales stopTick fuel E = none := by
  induction fuel generalizing E with
  | zero => rfl
  | succ fuel ih =>
    have hgoes : (E.currentTick < stopTick || !E.activeSessions.isEmpty) = true := by
      rcases h with ⟨-, htick⟩ | ⟨n, hn⟩
      · rw [decide_eq_true (by omega : E.currentTick < stopTick), Bool.true_or]
      · cases hactive : E.activeSessions with
        | nil =>
          rw [hactive] at hn
          cases hn
        | cons t rest => simp
    rw [rounds, if_pos hgoes]
    dsimp only
    rw [ih (h.round hsessions hs hplay), Option.map_none]

end

end PadExport

/-! ### Sessions of a run -/

namespace PadFinger

theorem Stored.resting_reset {F : PadFinger} (h : F.Stored) (halive : F.toBeDeleted = false) :
    F.reset.Resting := by
  refine ⟨halive, h.linked.nodup, fun k hk ↦ ?_, fun k hk ↦ (h.current k hk).2⟩
  obtain ⟨-, hterminated, hpos, hidle⟩ := h.recorded k hk
  dsimp only [PadFinger.reset]
  split
  · exact ⟨hterminated, hpos, rfl⟩
  · next hnot => exact ⟨hterminated, hpos, hidle hnot⟩

theorem Stored.resting {F : PadFinger} (h : F.Stored) (halive : F.toBeDeleted = false)
    (hnil : F.playingMotions = []) : F.Resting := by
  refine ⟨halive, h.linked.nodup, fun k hk ↦ ?_, fun k hk ↦ (h.current k hk).2⟩
  obtain ⟨-, hterminated, hpos, hidle⟩ := h.recorded k hk
  exact ⟨hterminated, hpos, hidle (hnil ▸ List.not_mem_nil)⟩

/-- Where a finger is, its motions start when they start. -/
theorem ordered_reset_iff (F : PadFinger) : F.reset.Ordered ↔ F.Ordered := by
  have hstart : ∀ k, (F.reset.motions k).startTick = (F.motions k).startTick := by
    intro k
    dsimp only [PadFinger.reset]
    split <;> rfl
  rw [Ordered, Ordered]
  simp only [hstart]
  rfl

instance (F : PadFinger) : Decidable F.Ordered :=
  inferInstanceAs (Decidable (F.recorded.Pairwise fun j k ↦
    (F.motions j).startTick ≤ (F.motions k).startTick))

end PadFinger

namespace PadSession

theorem Stored.resting_reset {s : PadSession} (h : s.Stored) (hterminated : s.terminated = true)
    (halive : s.toBeDeleted = false) : s.reset.Resting :=
  ⟨rfl, hterminated, fun f ↦ (h.fingers f).resting_reset ((h.alive f).trans halive)⟩

theorem Stored.resting {s : PadSession} (h : s.Stored) (hidle : s.inPlay = false)
    (halive : s.toBeDeleted = false) : s.Resting :=
  ⟨hidle, (h.idle hidle).1, fun f ↦
    (h.fingers f).resting ((h.alive f).trans halive) ((h.idle hidle).2 f)⟩

theorem ordered_reset_iff (s : PadSession) : s.reset.Ordered ↔ s.Ordered :=
  forall_congr' fun f ↦ (s.finger f).ordered_reset_iff

instance (s : PadSession) : Decidable s.Ordered :=
  inferInstanceAs (Decidable (∀ f, (s.finger f).Ordered))

end PadSession

/-- The export of sessions that are complete ends if and only if they are in order. -/
theorem Pad.Stored.exports_iff {p : Pad} (h : p.Stored)
    (hcomplete : ∀ s ∈ p.sessions, s.terminated = true ∧ s.toBeDeleted = false)
    {startTick : Int} (hstart : 0 ≤ startTick) (stopTick : Int) (scales : Scales) :
    (∃ fuel, (p.exportToLoop fuel startTick stopTick scales).isSome = true) ↔
      ∀ s ∈ p.sessions, startTick ≤ s.startAtTick → s.startAtTick < exportStop startTick stopTick →
        s.Ordered := by
  have hsessions : ∀ t ∈ p.exported startTick stopTick, t.Resting ∧ 0 ≤ t.startAtTick := by
    intro t ht
    obtain ⟨ht, hrange⟩ := List.mem_filter.mp ht
    obtain ⟨s, hs, rfl⟩ := List.mem_map.mp ht
    rw [Bool.and_eq_true, decide_eq_true_eq, decide_eq_true_eq] at hrange
    obtain ⟨hterminated, halive⟩ := hcomplete s hs
    exact ⟨(h.sessions s (List.mem_append_left _ hs)).resting_reset hterminated halive,
      Int.le_trans hstart hrange.1⟩
  have hexported : ∀ s ∈ p.sessions, startTick ≤ s.startAtTick →
      s.startAtTick < exportStop startTick stopTick → s.reset ∈ p.exported startTick stopTick := by
    intro s hs hlow hhigh
    refine List.mem_filter.mpr ⟨List.mem_map_of_mem hs, ?_⟩
    rw [Bool.and_eq_true, decide_eq_true_eq, decide_eq_true_eq]
    exact ⟨hlow, hhigh⟩
  constructor
  · rintro ⟨fuel, hfuel⟩ s hs hlow hhigh
    by_contra hnot
    have hmem := hexported s hs hlow hhigh
    have hplay : ∀ n, (s.reset.replay (PadExport.setting scales) n).inPlay = true :=
      (hsessions _ hmem).1.inPlay_of_not_ordered _ fun ho ↦ hnot (s.ordered_reset_iff.mp ho)
    have hstuck : PadExport.Stuck scales s.reset ⟨p.exported startTick stopTick, [], startTick⟩ :=
      .inl ⟨hmem, hlow⟩
    rw [Pad.exportToLoop, hstuck.rounds_eq_none hsessions hmem hplay hhigh fuel] at hfuel
    cases hfuel
  · intro hordered
    have hexport : PadExport.Exporting scales (p.exported startTick stopTick)
        ⟨p.exported startTick stopTick, [], startTick⟩ := by
      refine ⟨fun t ht ↦ ⟨ht, ?_⟩, nofun⟩
      exact of_decide_eq_true (Bool.and_eq_true_iff.mp (List.mem_filter.mp ht).2).1
    refine hexport.exists_rounds hsessions (fun t ht ↦ ?_) _
    obtain ⟨ht, hrange⟩ := List.mem_filter.mp ht
    obtain ⟨s, hs, rfl⟩ := List.mem_map.mp ht
    rw [Bool.and_eq_true, decide_eq_true_eq, decide_eq_true_eq] at hrange
    exact s.ordered_reset_iff.mpr (hordered s hs hrange.1 hrange.2)

namespace PadHistory

theorem stored_of_run {ok : PadHistory → PadOp → List PadCall → Prop} {h : PadHistory}
    {ops : List PadOp} (hrun : Run step ok ⟨.new, [], []⟩ ops h) : h.pad.Stored := by
  refine hrun.invariant (fun h ↦ h.pad.Stored) ?_ Pad.stored_new
  intro h op calls h' hstored _ hstep
  obtain ⟨-, rfl⟩ := Prod.mk.inj (Option.some.inj hstep)
  exact hstored.perform op

/-- A session of any run that has been terminated plays all its motions in time and ends, when it is
started again, if and only if the motions of each finger are in the order of their start; and the
export of such sessions ends if and only if this is true of all of them. -/
theorem session_plays_through_iff {h : PadHistory} {ops : List PadOp}
    (hrun : Run step (fun _ _ _ ↦ True) ⟨.new, [], []⟩ ops h) :
    (∀ s ∈ h.pad.sessions, s.terminated = true → s.toBeDeleted = false → ∀ settings,
      (s.reset.PlaysThrough settings ↔ s.Ordered) ∧
        (s.inPlay = false → (s.PlaysThrough settings ↔ s.Ordered))) ∧
      ((∀ s ∈ h.pad.sessions, s.terminated = true ∧ s.toBeDeleted = false) →
        ∀ startTick stopTick scales, 0 ≤ startTick →
          ((∃ fuel, (h.pad.exportToLoop fuel startTick stopTick scales).isSome = true) ↔
            ∀ s ∈ h.pad.sessions, startTick ≤ s.startAtTick →
              s.startAtTick < Pad.exportStop startTick stopTick → s.Ordered)) := by
  have hstored := stored_of_run hrun
  refine ⟨fun s hs hterminated halive settings ↦ ⟨?_, fun hidle ↦ ?_⟩, ?_⟩
  · have hsession := hstored.sessions s (List.mem_append_left _ hs)
    rw [(hsession.resting_reset hterminated halive).playsThrough_iff settings]
    exact s.ordered_reset_iff
  · have hsession := hstored.sessions s (List.mem_append_left _ hs)
    exact (hsession.resting hidle halive).playsThrough_iff settings
  · intro hcomplete startTick stopTick scales hstart
    exact hstored.exports_iff hcomplete hstart stopTick scales

/-- What the sessions of a history are like, for runs of which this is computed. -/
def outline (h : PadHistory) : List (Bool × Bool × Bool × Bool) :=
  h.pad.sessions.map fun s ↦ (s.terminated, s.toBeDeleted, s.inPlay, decide s.Ordered)

/-- Two strokes, and the session is terminated. -/
theorem session_plays_through_two : ∃ h s,
    Run step (fun _ _ _ ↦ True) ⟨.new, [], []⟩ ([.internalSetRecord true] ++ tap 0 ++ ticks 4 ++
      tap 0 ++ ticks 4 ++ [.internalSetRecord false] ++ ticks 1) h ∧
    s ∈ h.pad.sessions ∧ s.PlaysThrough fun _ ↦ ⟨false, false, none⟩ := by
  have hsome : ((runAll step (fun _ _ _ ↦ true) ⟨.new, [], []⟩ ([.internalSetRecord true] ++ tap 0 ++
      ticks 4 ++ tap 0 ++ ticks 4 ++ [.internalSetRecord false] ++ ticks 1)).map outline) =
      some [(true, false, false, true)] := by
    decide +kernel
  obtain ⟨h, hh, heq⟩ := Option.map_eq_some_iff.mp hsome
  obtain ⟨s, hs, hflags⟩ := List.mem_map.mp (heq ▸ List.mem_singleton_self _ :
    (true, false, false, true) ∈ h.outline)
  simp only [Prod.mk.injEq, decide_eq_true_eq] at hflags
  obtain ⟨hterminated, halive, hidle, hordered⟩ := hflags
  have hrun := (Run.of_runAll hh).mono fun _ _ _ _ ↦ trivial
  refine ⟨h, s, hrun, hs, ?_⟩
  exact (((session_plays_through_iff hrun).1 s hs hterminated halive _).2 hidle).mpr hordered

/-- A stroke that has been quantized past another one is never started. -/
theorem session_does_not_play_through : ¬ ∀ (h : PadHistory) (ops : List PadOp),
    Run step (fun _ _ _ ↦ True) ⟨.new, [], []⟩ ops h → ∀ s ∈ h.pad.sessions,
      s.terminated = true → s.toBeDeleted = false → s.inPlay = false →
        ∀ settings, s.PlaysThrough settings := by
  intro hall
  have hsome : ((runAll step (fun _ _ _ ↦ true) ⟨.new, [], []⟩ ([.internalSetRecord true] ++ tap 0 ++
      ticks 4 ++ tap 0 ++ ticks 4 ++ [.setQuantize true] ++ tap 0 ++ ticks 4 ++
        [.internalSetRecord false] ++ ticks 1)).map outline) =
      some [(true, false, false, false)] := by
    decide +kernel
  obtain ⟨h, hh, heq⟩ := Option.map_eq_some_iff.mp hsome
  obtain ⟨s, hs, hflags⟩ := List.mem_map.mp (heq ▸ List.mem_singleton_self _ :
    (true, false, false, false) ∈ h.outline)
  simp only [Prod.mk.injEq, decide_eq_false_iff_not] at hflags
  obtain ⟨hterminated, halive, hidle, hnot⟩ := hflags
  have hrun := (Run.of_runAll hh).mono fun _ _ _ _ ↦ trivial
  have hresting :=
    ((stored_of_run hrun).sessions s (List.mem_append_left _ hs)).resting hidle halive
  have hplays := hall h _ hrun s hs hterminated halive hidle fun _ ↦ ⟨false, false, none⟩
  exact hnot ((hresting.playsThrough_iff _).mp hplays)

end PadHistory

end Vuknob
