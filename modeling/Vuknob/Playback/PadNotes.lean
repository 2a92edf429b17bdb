import Vuknob.Playback.MotionNotes
import Vuknob.Playback.PadTick

/-!
# Notes of the pad end

Every note that is on is on in a motion that is played, and a motion that is played to its last
position ends what it has on. A motion is left without an end if its session is deleted while the
finger is down, and without a last position if recording is ended while it is down,
`src_jni/engine_code/pad.cc:1306–1346`.
-/

namespace Vuknob

open Library

/-- Two states of a motion agree in where it is and when it ends. -/
structure PadMotion.SameTime (m' m : PadMotion) : Prop where
  positions : m'.positions = m.positions
  terminated : m'.terminated = m.terminated
  crntTick : m'.crntTick = m.crntTick
  index : m'.index = m.index

theorem PadMotion.SameTime.near {m m' : PadMotion} (h : m'.SameTime m) {release later : Bool}
    {n : Nat} (hnear : m.Near release n) (hterminated : m.terminated = true) :
    m'.Near later n := by
  cases n with
  | zero =>
    rw [PadMotion.Near, PadMotion.finished, h.terminated, h.positions, h.index]
    exact hnear
  | succ n =>
    rcases hnear with hends | ⟨-, hopen, -⟩
    · left
      rw [PadMotion.EndsWithin, h.terminated, h.positions, h.crntTick]
      exact hends
    · exact absurd (hopen.symm.trans hterminated) Bool.false_ne_true

/-! ### Fingers -/

namespace PadFinger

/-- A note that one of the motions of the finger has on. -/
def Sounding (F : PadFinger) (n : Int) : Prop :=
  ∃ k ∈ F.playingMotions, (F.motions k).Sounding n

/-- All motions of the finger are in order; only the current one may still get positions. -/
structure Sane (scales : Scales) (F : PadFinger) : Prop where
  nodup : F.playingMotions.Nodup
  known : ∀ k ∈ F.playingMotions, k < F.fresh
  current : ∀ k, F.current = some k → k ∈ F.playingMotions
  ready : ∀ k ∈ F.playingMotions, (F.motions k).Ready scales
  rested : ∀ k ∈ F.recorded, k < F.fresh ∧ (F.motions k).Rested
  closed : ∀ k ∈ F.playingMotions, (F.motions k).terminated = true ∨ F.current = some k

theorem Sane.new (scales : Scales) : Sane scales .new where
  nodup := .nil
  known := by simp [PadFinger.new]
  current := by simp [PadFinger.new]
  ready := by simp [PadFinger.new]
  rested := by simp [PadFinger.new]
  closed := by simp [PadFinger.new]

theorem not_sounding_of_nil {F : PadFinger} (h : F.playingMotions = []) (n : Int) :
    ¬ F.Sounding n := by
  rintro ⟨k, hk, -⟩
  rw [h] at hk
  cases hk

/-- Starting recorded motions. -/
theorem Sane.startRecorded {F : PadFinger} {scales : Scales} (h : F.Sane scales) (mute : Bool)
    (position : Int) : (F.startRecorded mute position).Sane scales ∧
      (F.startRecorded mute position).current = F.current ∧
      ∀ k ∈ F.playingMotions, k ∈ (F.startRecorded mute position).playingMotions ∧
        (F.startRecorded mute position).motions k = F.motions k := by
  rcases startRecorded_cases mute position F with ⟨first, rest, hstarted⟩ | heq
  · generalize F.startRecorded mute position = F' at hstarted
    have hrecorded : ∀ k ∈ first, k ∈ F.recorded := by
      intro k hk
      refine mem_recorded_of_mem_upcoming ?_
      rw [hstarted.list]
      exact List.mem_append_left _ hk
    -- a motion that is played has an index and does not start
    have hapart : ∀ k ∈ F.playingMotions, k ∉ first := by
      intro k hk hfirst
      have hindex := (PadMotion.startMotion_eq_some_iff.mp (hstarted.started k hfirst)).1.1
      have := (h.ready k hk).healthy.index
      omega
    have hplaying : F'.playingMotions = F.playingMotions ++ first := by rw [hstarted.finger]
    have hcurrent : F'.current = F.current := by rw [hstarted.finger]
    have hfresh : F'.fresh = F.fresh := by rw [hstarted.finger]
    have hnow : ∀ k ∈ first, (F'.motions k).Ready scales ∧ (F'.motions k).terminated = true :=
      fun k hk ↦ (h.rested k (hrecorded k hk)).2.ready (hstarted.started k hk) scales
    refine ⟨⟨?_, ?_, ?_, ?_, ?_, ?_⟩, hcurrent, ?_⟩
    · rw [hplaying, List.nodup_append']
      exact ⟨h.nodup, hstarted.nodup, fun k hk hfirst ↦ hapart k hk hfirst⟩
    · rw [hplaying, hfresh]
      intro k hk
      rcases List.mem_append.mp hk with hk | hk
      · exact h.known k hk
      · exact (h.rested k (hrecorded k hk)).1
    · intro k hk
      rw [hplaying]
      exact List.mem_append_left _ (h.current k (hcurrent ▸ hk))
    · rw [hplaying]
      intro k hk
      rcases List.mem_append.mp hk with hk | hk
      · rw [hstarted.others k (hapart k hk)]
        exact h.ready k hk
      · exact (hnow k hk).1
    · have hsame : F'.recorded = F.recorded := by rw [hstarted.finger]
      rw [hsame, hfresh]
      intro k hk
      refine ⟨(h.rested k hk).1, ?_⟩
      by_cases hfirst : k ∈ first
      · have hrested := (h.rested k hk).2
        rw [(PadMotion.startMotion_eq_some_iff.mp (hstarted.started k hfirst)).2]
        exact ⟨hrested.settled, hrested.chord, hrested.terminated, hrested.stopped⟩
      · rw [hstarted.others k hfirst]
        exact (h.rested k hk).2
    · rw [hplaying, hcurrent]
      intro k hk
      rcases List.mem_append.mp hk with hk | hk
      · rw [hstarted.others k (hapart k hk)]
        exact h.closed k hk
      · exact .inl (hnow k hk).2
    · intro k hk
      rw [hplaying]
      exact ⟨List.mem_append_left _ hk, hstarted.others k (hapart k hk)⟩
  · rw [heq]
    exact ⟨⟨h.nodup, h.known, h.current, h.ready, h.rested, h.closed⟩, rfl, fun k hk ↦ ⟨hk, rfl⟩⟩

/-- Playing the motions. -/
theorem Sane.ticked {F F' : PadFinger} {scales : Scales} {mute : Bool} {calls : List PadCall}
    (h : F.Sane scales) (ht : Ticked mute scales F.playingMotions F F' calls) :
    (∀ later, F'.Sane later) ∧
      Accounts PadCall.Starts PadCall.Ends F.Sounding calls F'.Sounding := by
  have hplaying : ∀ k, k ∈ F'.playingMotions ↔
      k ∈ F.playingMotions ∧ (F.motions k).finished = false := by
    intro k
    rw [ht.playing, List.mem_filter]
    simp only [decide_eq_true_eq]
    exact ⟨fun hk ↦ ⟨hk.1, hk.2.resolve_left (not_not_intro hk.1)⟩, fun hk ↦ ⟨hk.1, .inr hk.2⟩⟩
  have hmotion : ∀ k ∈ F'.playingMotions,
      F'.motions k = ((F.motions k).processMotion mute scales).2.2 := by
    intro k hk
    obtain ⟨hk, hgoing⟩ := (hplaying k).mp hk
    exact ht.going k hk hgoing
  constructor
  · intro later
    refine ⟨?_, ?_, ?_, ?_, ?_, ?_⟩
    · rw [ht.playing]
      exact h.nodup.filter _
    · rw [ht.fresh]
      exact fun k hk ↦ h.known k ((hplaying k).mp hk).1
    · intro k hk
      obtain ⟨hcurrent, hor⟩ := (ht.current k).mp hk
      have hmem := h.current k hcurrent
      exact (hplaying k).mpr ⟨hmem, hor.resolve_left (not_not_intro hmem)⟩
    · intro k hk
      rw [hmotion k hk]
      obtain ⟨hk, hgoing⟩ := (hplaying k).mp hk
      exact (h.ready k hk).processMotion mute hgoing later
    · rw [ht.fresh]
      intro k hk
      by_cases hmem : k ∈ F.playingMotions
      · refine ⟨h.known k hmem, ?_⟩
        have hready := h.ready k hmem
        cases hgone : (F.motions k).finished with
        | true =>
          obtain ⟨startTick, heq⟩ := ht.gone k hmem hgone
          rw [heq]
          exact hready.rested mute hgone startTick
        | false =>
          rcases ht.recorded k hk with hk | ⟨-, hgone'⟩
          · rw [ht.going k hmem hgone]
            exact (h.rested k hk).2.processMotion hready mute hgone
          · rw [hgone] at hgone'
            cases hgone'
      · rw [ht.others k hmem]
        rcases ht.recorded k hk with hk | ⟨hk, -⟩
        · exact h.rested k hk
        · exact absurd hk hmem
    · intro k hk
      rw [hmotion k hk, PadMotion.terminated_processMotion, ht.current]
      obtain ⟨hk, hgoing⟩ := (hplaying k).mp hk
      exact (h.closed k hk).imp_right fun hcurrent ↦ ⟨hcurrent, .inr hgoing⟩
  · have hall := Accounts.flatMap (l := F.playingMotions) fun k hk ↦
      ((h.ready k hk).healthy.processMotion (h.ready k hk).tuned_atTick mute).2
    rw [ht.calls]
    refine hall.mono ?_
    rintro n ⟨k, hk, hgoing, hn⟩
    refine ⟨k, (hplaying k).mpr ⟨hk, hgoing⟩, ?_⟩
    rw [hmotion k ((hplaying k).mpr ⟨hk, hgoing⟩)]
    exact hn

/-- A tick of a finger. -/
theorem Sane.processFingerMotions {F : PadFinger} {scales : Scales} (h : F.Sane scales)
    (doRecord mute : Bool) (position : Int) (quantize : Bool) :
    (∀ later, (F.processFingerMotions doRecord mute position quantize scales).2.Sane later) ∧
      Accounts PadCall.Starts PadCall.Ends F.Sounding
        (F.processFingerMotions doRecord mute position quantize scales).1
        (F.processFingerMotions doRecord mute position quantize scales).2.Sounding := by
  obtain ⟨hsane, -, hkept⟩ := h.startRecorded mute position
  have ht := ticked_playMotions doRecord mute quantize scales hsane.nodup hsane.nodup
  obtain ⟨hlater, haccounts⟩ := hsane.ticked ht
  refine ⟨hlater, haccounts.anti ?_⟩
  rintro n ⟨k, hk, hn⟩
  exact ⟨k, (hkept k hk).1, (hkept k hk).2 ▸ hn⟩

/-- What is played after a tick and was played before it has been processed once. -/
theorem Sane.processFingerMotions_going {F : PadFinger} {scales : Scales} (h : F.Sane scales)
    (doRecord mute : Bool) (position : Int) (quantize : Bool) {k : Nat}
    (hk : k ∈ (F.processFingerMotions doRecord mute position quantize scales).2.playingMotions)
    (hbefore : k ∈ F.playingMotions) : (F.motions k).finished = false ∧
      (F.processFingerMotions doRecord mute position quantize scales).2.motions k =
        ((F.motions k).processMotion mute scales).2.2 := by
  obtain ⟨hsane, -, hkept⟩ := h.startRecorded mute position
  have ht := ticked_playMotions doRecord mute quantize scales hsane.nodup hsane.nodup
  obtain ⟨hin, hsame⟩ := hkept k hbefore
  rw [PadFinger.processFingerMotions, ht.playing, List.mem_filter] at hk
  have hgoing : ((F.startRecorded mute position).motions k).finished = false := by
    simpa [hin] using hk.2
  have hmotion := ht.going k hin hgoing
  rw [hsame] at hgoing hmotion
  exact ⟨hgoing, hmotion⟩

/-- The current motion after a tick was the current one before it. -/
theorem Sane.processFingerMotions_current {F : PadFinger} {scales : Scales} (h : F.Sane scales)
    (doRecord mute : Bool) (position : Int) (quantize : Bool) {k : Nat}
    (hk : (F.processFingerMotions doRecord mute position quantize scales).2.current = some k) :
    F.current = some k := by
  obtain ⟨hsane, hcurrent, -⟩ := h.startRecorded mute position
  have ht := ticked_playMotions doRecord mute quantize scales hsane.nodup hsane.nodup
  have hor := (ht.current k).mp hk
  rw [hcurrent] at hor
  exact hor.1

/-- The current motion is changed. -/
theorem Sane.write {F : PadFinger} {scales : Scales} (h : F.Sane scales) {k : Nat} {m : PadMotion}
    (hk : F.current = some k) (hready : m.Ready scales)
    (hsounding : ∀ n, (F.motions k).Sounding n → m.Sounding n)
    (hrested : k ∈ F.recorded → m.Rested) :
    (F.write k m).Sane scales ∧ ∀ n, F.Sounding n → (F.write k m).Sounding n := by
  have hself : (F.write k m).motions k = m := Function.update_self ..
  have hothers : ∀ j, j ≠ k → (F.write k m).motions j = F.motions j := by
    intro j hj
    exact Function.update_of_ne hj ..
  refine ⟨⟨h.nodup, h.known, h.current, ?_, ?_, ?_⟩, ?_⟩
  · intro j hj
    by_cases hjk : j = k
    · rw [hjk, hself]
      exact hready
    · rw [hothers j hjk]
      exact h.ready j hj
  · intro j hj
    refine ⟨(h.rested j hj).1, ?_⟩
    by_cases hjk : j = k
    · rw [hjk] at hj ⊢
      rw [hself]
      exact hrested hj
    · rw [hothers j hjk]
      exact (h.rested j hj).2
  · intro j hj
    by_cases hjk : j = k
    · exact .inr (hjk ▸ hk)
    · rw [hothers j hjk]
      exact h.closed j hj
  · rintro n ⟨j, hj, hn⟩
    refine ⟨j, hj, ?_⟩
    by_cases hjk : j = k
    · rw [hjk] at hn ⊢
      rw [hself]
      exact hsounding n hn
    · rw [hothers j hjk]
      exact hn

/-- What an operation between two ticks leaves of a finger: its notes are still on, no motion is
taken out, and one that is terminated goes on as it would have. -/
structure Kept (F F' : PadFinger) : Prop where
  sounding : ∀ n, F.Sounding n → F'.Sounding n
  playing : ∀ k ∈ F.playingMotions, k ∈ F'.playingMotions
  time : ∀ k ∈ F.playingMotions, (F.motions k).terminated = true →
    (F'.motions k).SameTime (F.motions k)

theorem Kept.refl (F : PadFinger) : Kept F F :=
  ⟨fun _ hn ↦ hn, fun _ hk ↦ hk, fun _ _ _ ↦ ⟨rfl, rfl, rfl, rfl⟩⟩

/-- The current motion gets a position or is released. -/
theorem Sane.onCurrent {F : PadFinger} {scales : Scales} (h : F.Sane scales)
    {change : PadMotion → PadMotion}
    (hready : ∀ k, F.current = some k → (change (F.motions k)).Ready scales)
    (hsounding : ∀ k, F.current = some k → ∀ n, (F.motions k).Sounding n →
      (change (F.motions k)).Sounding n)
    (hsame : ∀ k, F.current = some k → (F.motions k).terminated = true →
      change (F.motions k) = F.motions k) :
    (F.onCurrent change).Sane scales ∧ Kept F (F.onCurrent change) := by
  rw [PadFinger.onCurrent]
  cases hk : F.current with
  | none => exact ⟨h, .refl F⟩
  | some k =>
    obtain ⟨hsane, hsound⟩ := h.write hk (hready k hk) (hsounding k hk) fun hmem ↦ by
      have hrested := (h.rested k hmem).2
      rw [hsame k hk hrested.terminated]
      exact hrested
    refine ⟨hsane, hsound, fun j hj ↦ hj, fun j _ hterminated ↦ ?_⟩
    by_cases hjk : j = k
    · subst hjk
      have hself : (F.write j (change (F.motions j))).motions j = change (F.motions j) :=
        Function.update_self ..
      rw [hself, hsame j hk hterminated]
      exact ⟨rfl, rfl, rfl, rfl⟩
    · have hother : (F.write k (change (F.motions k))).motions j = F.motions j :=
        Function.update_of_ne hjk ..
      rw [hother]
      exact ⟨rfl, rfl, rfl, rfl⟩

/-- A press, when the finger has released the motion before. -/
theorem Sane.press {F : PadFinger} {scales : Scales} (h : F.Sane scales)
    {config : PadConfiguration} (hconfig : PadMotion.inTune scales config = true)
    (hclosed : ∀ k, F.current = some k → (F.motions k).terminated = true) (pe : PadEvent)
    (position : Int) :
    (F.press config pe position).Sane scales ∧ Kept F (F.press config pe position) := by
  obtain ⟨m, hstart, -, -⟩ := PadMotion.startMotion_new config position pe.x pe.y pe.z
  obtain ⟨hready, hopen⟩ := PadMotion.ready_new hconfig hstart
  have heq : F.press config pe position =
      { F with
        motions := Function.update F.motions F.fresh m
        fresh := F.fresh + 1
        playingMotions := F.playingMotions ++ [F.fresh]
        current := some F.fresh } := by
    rw [PadFinger.press, hstart]
    rfl
  have hself : Function.update F.motions F.fresh m F.fresh = m := Function.update_self ..
  have hothers : ∀ k, k < F.fresh → Function.update F.motions F.fresh m k = F.motions k := by
    intro k hk
    exact Function.update_of_ne hk.ne ..
  rw [heq]
  generalize Function.update F.motions F.fresh m = motions at hself hothers
  refine ⟨⟨?_, ?_, ?_, ?_, ?_, ?_⟩, ?_, ?_, ?_⟩
  · refine List.nodup_append'.mpr ⟨h.nodup, List.nodup_singleton _, ?_⟩
    intro k hk hnew
    have := h.known k hk
    rw [List.mem_singleton.mp hnew] at this
    exact Nat.lt_irrefl _ this
  · intro k hk
    rcases List.mem_append.mp hk with hk | hk
    · exact Nat.lt_succ_of_lt (h.known k hk)
    · rw [List.mem_singleton.mp hk]
      exact Nat.lt_succ_self _
  · intro k hk
    rw [← Option.some.inj hk]
    exact List.mem_append_right _ (List.mem_singleton_self _)
  · intro k hk
    dsimp only
    rcases List.mem_append.mp hk with hk | hk
    · rw [hothers k (h.known k hk)]
      exact h.ready k hk
    · rw [List.mem_singleton.mp hk, hself]
      exact hready
  · intro k hk
    obtain ⟨hlt, hrested⟩ := h.rested k hk
    dsimp only
    rw [hothers k hlt]
    exact ⟨Nat.lt_succ_of_lt hlt, hrested⟩
  · intro k hk
    dsimp only
    rcases List.mem_append.mp hk with hk | hk
    · rw [hothers k (h.known k hk)]
      exact .inl ((h.closed k hk).elim id (hclosed k))
    · exact .inr (congrArg some (List.mem_singleton.mp hk).symm)
  · rintro n ⟨k, hk, hn⟩
    refine ⟨k, List.mem_append_left _ hk, ?_⟩
    dsimp only
    rw [hothers k (h.known k hk)]
    exact hn
  · exact fun k hk ↦ List.mem_append_left _ hk
  · intro k hk _
    dsimp only
    rw [hothers k (h.known k hk)]
    exact ⟨rfl, rfl, rfl, rfl⟩

/-- An event of a finger. -/
theorem Sane.processFingerEvents {F : PadFinger} {scales : Scales} (h : F.Sane scales)
    {config : PadConfiguration} {pe : PadEvent}
    (hconfig : pe.t = .msPadPress → PadMotion.inTune scales config = true)
    (hclosed : pe.t = .msPadPress → ∀ k, F.current = some k → (F.motions k).terminated = true)
    (position : Int) : (F.processFingerEvents config pe position).Sane scales ∧
      Kept F (F.processFingerEvents config pe position) := by
  rw [PadFinger.processFingerEvents]
  split
  · exact ⟨h, .refl F⟩
  · split
    · next ht => exact h.press (hconfig ht) (hclosed ht) pe _
    · have hrelease : ∀ k, F.current = some k → _ := fun k hk ↦
        (h.ready k (h.current k hk)).release pe.x pe.y pe.z
      refine h.onCurrent (fun k hk ↦ (hrelease k hk).1) (fun k hk ↦ (hrelease k hk).2.1) ?_
      intro k hk hterminated
      have hready := h.ready k (h.current k hk)
      rw [PadMotion.addPosition, if_pos hterminated, PadMotion.terminate,
        hready.stopped hterminated, ← hterminated]
    · have hslide : ∀ k, F.current = some k → _ := fun k hk ↦
        (h.ready k (h.current k hk)).addPosition pe.x pe.y pe.z
      refine h.onCurrent (fun k hk ↦ (hslide k hk).1) (fun k hk ↦ (hslide k hk).2) ?_
      intro k hk hterminated
      rw [PadMotion.addPosition, if_pos hterminated]
    · exact ⟨h, .refl F⟩

/-- A session that is deleted. -/
theorem Sane.deletePadFinger {F : PadFinger} {scales : Scales} (h : F.Sane scales) :
    F.deletePadFinger.Sane scales ∧ Kept F F.deletePadFinger := by
  have hsame : ∀ k, F.deletePadFinger.motions k = F.motions k ∨
      F.deletePadFinger.motions k = { F.motions k with toBeDeleted := true } := by
    intro k
    rw [PadFinger.deletePadFinger]
    dsimp only
    split
    · exact .inr rfl
    · exact .inl rfl
  have htime : ∀ k, (F.deletePadFinger.motions k).SameTime (F.motions k) := by
    intro k
    rcases hsame k with heq | heq <;> rw [heq] <;> exact ⟨rfl, rfl, rfl, rfl⟩
  refine ⟨⟨h.nodup, h.known, h.current, ?_, ?_, ?_⟩, ?_, fun k hk ↦ hk, fun k _ _ ↦ htime k⟩
  · intro k hk
    rcases hsame k with heq | heq
    · rw [heq]
      exact h.ready k hk
    · rw [heq]
      exact (h.ready k hk).delete
  · exact nofun
  · intro k hk
    rw [(htime k).terminated]
    exact h.closed k hk
  · rintro n ⟨k, hk, hn⟩
    refine ⟨k, hk, ?_⟩
    rcases hsame k with heq | heq
    · rw [heq]
      exact hn
    · rw [heq]
      exact hn

/-- The current motion is over or has a position that is yet to be played. -/
def stoppable (F : PadFinger) : Bool :=
  F.current.all fun k ↦
    (F.motions k).terminated || (F.motions k).index < (F.motions k).positions.length

/-- The end of recording. -/
theorem Sane.terminate {F : PadFinger} {scales : Scales} (h : F.Sane scales)
    (hstop : F.stoppable = true) : F.terminate.Sane scales ∧ Kept F F.terminate ∧
      ∀ k ∈ F.playingMotions, (F.motions k).terminated = false →
        (F.terminate.motions k).EndsWithin 2 := by
  have hterminate : ∀ k, F.current = some k → _ := fun k hk ↦
    (h.ready k (h.current k hk)).terminate (by simpa [stoppable, hk] using hstop)
  have hboth := h.onCurrent (fun k hk ↦ (hterminate k hk).1) (fun k hk ↦ (hterminate k hk).2.1)
    (by
      intro k hk hterminated
      have hready := h.ready k (h.current k hk)
      rw [PadMotion.terminate, hready.stopped hterminated, ← hterminated])
  refine ⟨hboth.1, hboth.2, fun k hk hopen ↦ ?_⟩
  have hcurrent : F.current = some k := (h.closed k hk).resolve_left (by simp [hopen])
  have hself : F.terminate.motions k = (F.motions k).terminate := by
    simp [PadFinger.terminate, PadFinger.onCurrent, hcurrent, PadFinger.write]
  rw [hself]
  rcases (hterminate k hcurrent).2.2 with ⟨hterminated, -⟩ | hends
  · exact absurd (hopen.symm.trans hterminated) Bool.false_ne_true
  · exact hends

theorem Sane.startFromTheTop {F : PadFinger} {scales : Scales} (h : F.Sane scales)
    (hnil : F.playingMotions = []) : F.startFromTheTop.Sane scales where
  nodup := .nil
  known := nofun
  current k hk := by
    have hmem := h.current k hk
    rw [hnil] at hmem
    exact hmem
  ready := nofun
  rested := h.rested
  closed := nofun

/-- The finger is making the motion at `k`. -/
def Open (F : PadFinger) (k : Nat) : Prop :=
  F.current = some k ∧ (F.motions k).terminated = false

/-- While a motion is made, the finger is down. -/
theorem open_processFingerEvents {F : PadFinger} (halive : F.toBeDeleted = false) {held : Bool}
    (h : ∀ k, F.Open k → held = true) (config : PadConfiguration) (pe : PadEvent)
    (position : Int) :
    ∀ k, (F.processFingerEvents config pe position).Open k → pe.t.hold held = true := by
  intro k hk
  rw [PadFinger.processFingerEvents, if_neg (by simp [halive])] at hk
  cases ht : pe.t with
  | msPadPress => rfl
  | msPadNoEvent =>
    rw [ht] at hk
    exact h k hk
  | msPadSlide =>
    rw [ht] at hk
    refine h k ?_
    cases hcurrent : F.current with
    | none => simpa [PadFinger.onCurrent, hcurrent] using hk
    | some j =>
      simp only [PadFinger.onCurrent, hcurrent, PadFinger.Open, PadFinger.write,
        Option.some.injEq] at hk
      obtain ⟨rfl, hopen⟩ := hk
      rw [Function.update_self, PadMotion.terminated_addPosition] at hopen
      exact ⟨hcurrent, hopen⟩
  | msPadRelease =>
    rw [ht] at hk
    cases hcurrent : F.current with
    | none =>
      rw [PadFinger.onCurrent, hcurrent] at hk
      cases hcurrent.symm.trans hk.1
    | some j =>
      simp only [PadFinger.onCurrent, hcurrent, PadFinger.Open, PadFinger.write,
        Option.some.injEq] at hk
      obtain ⟨rfl, hopen⟩ := hk
      rw [Function.update_self] at hopen
      exact absurd hopen.symm Bool.false_ne_true

/-- An event brings the end of a motion nearer if it is the release. -/
theorem Sane.near_processFingerEvents {F : PadFinger} {scales : Scales} (h : F.Sane scales)
    (halive : F.toBeDeleted = false) {config : PadConfiguration} {pe : PadEvent}
    (hconfig : pe.t = .msPadPress → PadMotion.inTune scales config = true)
    (hclosed : pe.t = .msPadPress → ∀ k, F.current = some k → (F.motions k).terminated = true)
    (position : Int) {k n : Nat} {release : Bool} (hk : k ∈ F.playingMotions)
    (hnear : (F.motions k).Near (pe.t = .msPadRelease || release) n) :
    ((F.processFingerEvents config pe position).motions k).Near release n := by
  obtain ⟨-, hkept⟩ := h.processFingerEvents hconfig hclosed position
  cases hterminated : (F.motions k).terminated with
  | true => exact (hkept.time k hk hterminated).near hnear hterminated
  | false =>
    have hcurrent : F.current = some k := (h.closed k hk).resolve_left (by simp [hterminated])
    have hready := h.ready k hk
    cases n with
    | zero =>
      rw [PadMotion.Near, PadMotion.finished, hterminated] at hnear
      cases hnear
    | succ n =>
      rcases hnear with hends | ⟨hn, -, hrelease⟩
      · exact absurd (hterminated.symm.trans hends.1) Bool.false_ne_true
      · rw [PadFinger.processFingerEvents, if_neg (by simp [halive])]
        cases ht : pe.t with
        | msPadPress =>
          exact absurd (hterminated.symm.trans (hclosed ht k hcurrent)) Bool.false_ne_true
        | msPadNoEvent => exact .inr ⟨hn, hterminated, by simpa [ht] using hrelease⟩
        | msPadSlide =>
          have hself : (F.onCurrent fun m ↦ m.addPosition pe.x pe.y pe.z).motions k =
              (F.motions k).addPosition pe.x pe.y pe.z := by
            simp [PadFinger.onCurrent, hcurrent, PadFinger.write]
          dsimp only
          rw [hself]
          refine .inr ⟨hn, ?_, by simpa [ht] using hrelease⟩
          rw [PadMotion.terminated_addPosition]
          exact hterminated
        | msPadRelease =>
          have hself : (F.onCurrent fun m ↦ (m.addPosition pe.x pe.y pe.z).terminate).motions k =
              ((F.motions k).addPosition pe.x pe.y pe.z).terminate := by
            simp [PadFinger.onCurrent, hcurrent, PadFinger.write]
          dsimp only
          rw [hself]
          rcases (hready.release pe.x pe.y pe.z).2.2 with ⟨hover, -⟩ | hends
          · exact absurd (hterminated.symm.trans hover) Bool.false_ne_true
          · exact .inl (hends.mono (by omega))

end PadFinger

/-! ### Sessions -/

namespace PadSession

/-- A note that a motion of the session has on. -/
def Sounding (s : PadSession) (n : Int) : Prop := ∃ f, (s.finger f).Sounding n

/-- All motions of the session are in order, and none is played while the session is not. -/
structure Sane (scales : Scales) (s : PadSession) : Prop where
  fingers : ∀ f, (s.finger f).Sane scales
  idle : s.inPlay = false → ∀ f, (s.finger f).playingMotions = []

/-- What a tick leaves of a session. -/
structure Follows (s s' : PadSession) : Prop where
  sane : ∀ scales, s'.Sane scales
  number : s'.number = s.number
  toBeDeleted : s'.toBeDeleted = s.toBeDeleted
  terminated : s'.terminated = s.terminated
  alive : ∀ f, (s'.finger f).toBeDeleted = (s.finger f).toBeDeleted
  opened : ∀ f k, (s'.finger f).Open k → (s.finger f).Open k
  near : ∀ f k n, k ∈ (s.finger f).playingMotions → ((s.finger f).motions k).Near false n →
    k ∈ (s'.finger f).playingMotions → ∃ n', n = n' + 1 ∧ ((s'.finger f).motions k).Near false n'

theorem Follows.of_idle {s : PadSession} (h : ∀ scales, s.Sane scales) (hidle : s.inPlay = false) :
    s.Follows s where
  sane := h
  number := rfl
  toBeDeleted := rfl
  terminated := rfl
  alive _ := rfl
  opened _ _ hk := hk
  near f k n hk := by
    rw [(h none).idle hidle f] at hk
    cases hk

/-- A session that is in play plays its fingers. -/
theorem Sane.processSession {s : PadSession} {scales : Scales} (h : s.Sane scales)
    (doRecord mute quantize : Bool) :
    s.Follows (s.processSession doRecord mute quantize scales).2.2 ∧
      Accounts PadCall.Starts PadCall.Ends s.Sounding
        (s.processSession doRecord mute quantize scales).1
        (s.processSession doRecord mute quantize scales).2.2.Sounding ∧
      ((s.processSession doRecord mute quantize scales).2.1 = true →
        ∀ n, ¬ (s.processSession doRecord mute quantize scales).2.2.Sounding n) := by
  have hfinger : ∀ f, _ := fun f ↦
    (h.fingers f).processFingerMotions doRecord mute (s.playbackPosition + 1) quantize
  refine ⟨⟨fun later ↦ ⟨fun f ↦ (hfinger f).1 later, fun hidle ↦ ?_⟩, rfl, rfl, rfl, fun f ↦ ?_,
    fun f k hk ↦ ?_, fun f k n hk hnear hk' ↦ ?_⟩, ?_, fun hdelete n ↦ ?_⟩
  · rw [PadSession.processSession, Bool.not_eq_false', Bool.and_eq_true] at hidle
    exact playingMotions_of_completed hidle.1
  · have hsane := ((h.fingers f).startRecorded mute (s.playbackPosition + 1)).1
    exact (PadFinger.ticked_playMotions doRecord mute quantize scales hsane.nodup
      hsane.nodup).toBeDeleted.trans (PadFinger.toBeDeleted_startRecorded ..)
  · have hcurrent := (h.fingers f).processFingerMotions_current doRecord mute
      (s.playbackPosition + 1) quantize hk.1
    have hbefore := (h.fingers f).current k hcurrent
    have hafter := ((hfinger f).1 scales).current k hk.1
    obtain ⟨-, hmotion⟩ := (h.fingers f).processFingerMotions_going doRecord mute
      (s.playbackPosition + 1) quantize hafter hbefore
    refine ⟨hcurrent, ?_⟩
    have hopen := hk.2
    rw [PadSession.processSession, hmotion, PadMotion.terminated_processMotion] at hopen
    exact hopen
  · obtain ⟨hgoing, hmotion⟩ := (h.fingers f).processFingerMotions_going doRecord mute
      (s.playbackPosition + 1) quantize hk' hk
    obtain ⟨n', hn, hnear'⟩ :=
      hnear.processMotion ((h.fingers f).ready k hk).healthy hgoing mute scales
    refine ⟨n', hn, ?_⟩
    rw [PadSession.processSession, hmotion]
    exact hnear'
  · have hall := Accounts.flatMap (l := List.finRange 5) fun f _ ↦ (hfinger f).2
    refine (hall.anti ?_).mono ?_
    · rintro n ⟨f, hn⟩
      exact ⟨f, List.mem_finRange f, hn⟩
    · rintro n ⟨f, -, hn⟩
      exact ⟨f, hn⟩
  · rw [PadSession.processSession, Bool.and_eq_true] at hdelete
    rintro ⟨f, hn⟩
    exact PadFinger.not_sounding_of_nil (playingMotions_of_completed hdelete.1 f) n hn

/-- A session is started from the top when none of its motions is played. -/
theorem Sane.startPlay {s : PadSession} {scales : Scales} (h : s.Sane scales) (tick : Int)
    (hidle : s.inPlay = false) : (s.startPlay tick).Sane scales ∧
      (∀ f, ((s.startPlay tick).finger f).playingMotions = []) ∧
      ∀ f, ((s.startPlay tick).finger f).current = none := by
  have hnone : ∀ f, (s.finger f).current = none := by
    intro f
    cases hk : (s.finger f).current with
    | none => rfl
    | some k =>
      have hmem := (h.fingers f).current k hk
      rw [h.idle hidle f] at hmem
      cases hmem
  rw [PadSession.startPlay, if_neg (by simp [hidle])]
  split
  · refine ⟨⟨fun f ↦ (h.fingers f).startFromTheTop (h.idle hidle f), nofun⟩, fun f ↦ rfl, hnone⟩
  · exact ⟨h, h.idle hidle, hnone⟩

/-- A tick of a session, whether it is in play or not. -/
theorem Sane.play {s : PadSession} {scales : Scales} (h : s.Sane scales)
    (hidle : s.inPlay = false → ∀ later, s.Sane later)
    (doRecord noSound quantize : Bool) (tick : Int) :
    (∀ s', (s.play doRecord noSound quantize tick scales).2 = some s' → s.Follows s') ∧
      Accounts PadCall.Starts PadCall.Ends s.Sounding
        (s.play doRecord noSound quantize tick scales).1
        (fun n ↦ ∃ s', (s.play doRecord noSound quantize tick scales).2 = some s' ∧
          s'.Sounding n) := by
  cases hplay : s.inPlay with
  | true =>
    have hsame : s.startPlay tick = s := by rw [PadSession.startPlay, if_pos hplay]
    obtain ⟨hfollows, haccounts, hgone⟩ := h.processSession doRecord noSound quantize
    rw [PadSession.play, hsame, if_pos hplay]
    dsimp only
    cases hdelete : (s.processSession doRecord noSound quantize scales).2.1 with
    | true =>
      rw [if_pos rfl]
      exact ⟨nofun, haccounts.mono fun n hn ↦ absurd hn (hgone hdelete n)⟩
    | false =>
      rw [if_neg Bool.false_ne_true]
      refine ⟨?_, haccounts.mono fun n hn ↦ ⟨_, rfl, hn⟩⟩
      rintro s' ⟨⟩
      exact hfollows
  | false =>
    obtain ⟨hsane, hnil, hnone⟩ := h.startPlay tick hplay
    have hsilent : ∀ n, ¬ s.Sounding n := by
      rintro n ⟨f, hn⟩
      exact PadFinger.not_sounding_of_nil (h.idle hplay f) n hn
    rw [PadSession.play]
    dsimp only
    by_cases hstart : (s.startPlay tick).inPlay = true
    · have hsetting : (s.startPlay tick).number = s.number ∧
          (s.startPlay tick).toBeDeleted = s.toBeDeleted ∧
          (s.startPlay tick).terminated = s.terminated ∧
          ∀ f, ((s.startPlay tick).finger f).toBeDeleted = (s.finger f).toBeDeleted := by
        rw [PadSession.startPlay, if_neg (by simp [hplay])]
        split <;> exact ⟨rfl, rfl, rfl, fun _ ↦ rfl⟩
      obtain ⟨hfollows, haccounts, hgone⟩ := hsane.processSession doRecord noSound quantize
      rw [if_pos hstart]
      have hall : s.Follows
          ((s.startPlay tick).processSession doRecord noSound quantize scales).2.2 := by
        refine ⟨hfollows.sane, hfollows.number.trans hsetting.1,
          hfollows.toBeDeleted.trans hsetting.2.1, hfollows.terminated.trans hsetting.2.2.1,
          fun f ↦ (hfollows.alive f).trans (hsetting.2.2.2 f), fun f k hk ↦ ?_, fun f k n hk ↦ ?_⟩
        · have hopen := hfollows.opened f k hk
          exact absurd (hopen.1.symm.trans (hnone f)) nofun
        · rw [h.idle hplay f] at hk
          cases hk
      cases hdelete : ((s.startPlay tick).processSession doRecord noSound quantize scales).2.1 with
      | true =>
        rw [if_pos rfl]
        refine ⟨nofun, (haccounts.anti ?_).mono fun n hn ↦ absurd hn (hgone hdelete n)⟩
        exact fun n hn ↦ absurd hn (hsilent n)
      | false =>
        rw [if_neg Bool.false_ne_true]
        refine ⟨?_, (haccounts.anti ?_).mono fun n hn ↦ ⟨_, rfl, hn⟩⟩
        · rintro s' ⟨⟩
          exact hall
        · exact fun n hn ↦ absurd hn (hsilent n)
    · have hsame : s.startPlay tick = s := by
        rw [PadSession.startPlay, if_neg (by simp [hplay])] at hstart ⊢
        split at hstart
        · exact absurd rfl hstart
        · next hne => rw [if_neg hne]
      rw [if_neg hstart, hsame]
      refine ⟨?_, .nil fun n hn ↦ ⟨s, rfl, hn⟩⟩
      rintro s' ⟨⟩
      exact .of_idle (hidle hplay) hplay

end PadSession

end Vuknob
