import Vuknob.Playback.PadRecording
import Vuknob.Playback.PadTick

/-!
# The order of recorded motions

`process_finger_motions` starts the recorded motions of a finger one after the other, so they have
to be in the order in which they start. `record_motion` looks for the place of a motion, and
`quantize` moves its start afterwards, `src_jni/engine_code/pad.cc:949–953`.
-/

namespace Vuknob

open Library

namespace PadFinger

/-- What is true of a finger whatever is done with it: the motions that are played have an index,
the recorded ones are complete and linked, and the current one is not yet recorded. -/
structure Stored (F : PadFinger) : Prop where
  nodup : F.playingMotions.Nodup
  playing : ∀ k ∈ F.playingMotions, k < F.fresh ∧ 0 ≤ (F.motions k).startTick ∧
    0 ≤ (F.motions k).index ∧ (F.motions k).index ≤ (F.motions k).positions.length
  current : ∀ k, F.current = some k → k ∈ F.playingMotions ∧ k ∉ F.recorded
  recorded : ∀ k ∈ F.recorded, k < F.fresh ∧ (F.motions k).terminated = true ∧
    0 ≤ (F.motions k).startTick ∧ (k ∉ F.playingMotions → (F.motions k).index = -1)
  linked : F.links.Leads F.recorded

/-- The recorded motions are in the order of their start. -/
def Ordered (F : PadFinger) : Prop :=
  F.recorded.Pairwise fun j k ↦ (F.motions j).startTick ≤ (F.motions k).startTick

/-- A motion would keep its place among the recorded ones if its start were quantized. -/
def keepsPlace (F : PadFinger) (k : Nat) : Bool :=
  F.recorded.all fun j ↦
    if (F.motions k).startTick < (F.motions j).startTick then
      quantizeTick (F.motions k).startTick ≤ (F.motions j).startTick
    else (F.motions j).startTick ≤ quantizeTick (F.motions k).startTick

/-- The current motion has not come to its end, or it would keep its place. -/
def fits (F : PadFinger) : Bool :=
  F.current.all fun k ↦ !(F.motions k).finished || F.keepsPlace k

theorem stored_new : Stored .new where
  nodup := .nil
  playing := nofun
  current := nofun
  recorded := nofun
  linked := Links.leads_empty

theorem ordered_new : Ordered .new := .nil

/-! ### Events -/

/-- Between two ticks nothing is recorded, and no motion comes to its end. -/
structure Untouched (F F' : PadFinger) : Prop where
  recorded : F'.recorded = F.recorded
  startTick : ∀ k ∈ F.recorded, (F'.motions k).startTick = (F.motions k).startTick
  ended : ∀ k, F'.current = some k → (F'.motions k).finished = true →
    F.current = some k ∧ (F.motions k).finished = true ∧
      (F'.motions k).startTick = (F.motions k).startTick

theorem Untouched.refl (F : PadFinger) : Untouched F F :=
  ⟨rfl, fun _ _ ↦ rfl, fun _ hk hfinished ↦ ⟨hk, hfinished, rfl⟩⟩

/-- The order depends on the recorded motions only. -/
theorem Ordered.congr {F F' : PadFinger} (h : F.Ordered) (hrecorded : F'.recorded = F.recorded)
    (hstart : ∀ k ∈ F.recorded, (F'.motions k).startTick = (F.motions k).startTick) :
    F'.Ordered := by
  rw [Ordered, hrecorded]
  refine List.Pairwise.imp_of_mem ?_ h
  intro j k hj hk hle
  rw [hstart j hj, hstart k hk]
  exact hle

theorem Untouched.ordered {F F' : PadFinger} (h : Untouched F F') (hF : F.Ordered) :
    F'.Ordered :=
  hF.congr h.recorded h.startTick

theorem Untouched.fits {F F' : PadFinger} (h : Untouched F F') (hF : F.fits = true) :
    F'.fits = true := by
  cases hk : F'.current with
  | none => rw [PadFinger.fits, hk, Option.all_none]
  | some k =>
    rw [PadFinger.fits, hk, Option.all_some]
    cases hfinished : (F'.motions k).finished with
    | false => rfl
    | true =>
      obtain ⟨hcurrent, hended, hstart⟩ := h.ended k hk hfinished
      rw [PadFinger.fits, hcurrent, Option.all_some, hended, Bool.not_true, Bool.false_or,
        keepsPlace, List.all_eq_true] at hF
      rw [Bool.not_true, Bool.false_or, keepsPlace, List.all_eq_true, h.recorded, hstart]
      intro j hj
      rw [h.startTick j hj]
      exact hF j hj

/-- The current motion gets a position or is terminated. -/
theorem Stored.onCurrent {F : PadFinger} (h : F.Stored) {change : PadMotion → PadMotion}
    (hstart : ∀ m, (change m).startTick = m.startTick) (hindex : ∀ m, (change m).index = m.index)
    (hlength : ∀ m, m.positions.length ≤ (change m).positions.length) :
    (F.onCurrent change).Stored ∧ (F.onCurrent change).recorded = F.recorded ∧
      ∀ k ∈ F.recorded, ((F.onCurrent change).motions k).startTick = (F.motions k).startTick := by
  rw [PadFinger.onCurrent]
  cases hk : F.current with
  | none => exact ⟨h, rfl, fun _ _ ↦ rfl⟩
  | some k =>
    obtain ⟨hplaying, hnot⟩ := h.current k hk
    have hself : (F.write k (change (F.motions k))).motions k = change (F.motions k) :=
      Function.update_self ..
    have hothers : ∀ j, j ≠ k →
        (F.write k (change (F.motions k))).motions j = F.motions j := by
      intro j hj
      exact Function.update_of_ne hj ..
    have hne : ∀ j ∈ F.recorded, j ≠ k := fun j hj he ↦ hnot (he ▸ hj)
    refine ⟨⟨h.nodup, fun j hj ↦ ?_, h.current, fun j hj ↦ ?_, h.linked⟩, rfl, fun j hj ↦ ?_⟩
    · by_cases hjk : j = k
      · obtain ⟨hfresh, hpos, hlow, hhigh⟩ := h.playing k hplaying
        rw [hjk, hself, hstart, hindex]
        have := hlength (F.motions k)
        exact ⟨hfresh, hpos, hlow, by omega⟩
      · rw [hothers j hjk]
        exact h.playing j hj
    · rw [hothers j (hne j hj)]
      exact h.recorded j hj
    · rw [hothers j (hne j hj)]

/-- Changes of the current motion that do not bring it to its end. -/
theorem Stored.onCurrent_untouched {F : PadFinger} (h : F.Stored) {change : PadMotion → PadMotion}
    (hstart : ∀ m, (change m).startTick = m.startTick) (hindex : ∀ m, (change m).index = m.index)
    (hlength : ∀ m, m.positions.length ≤ (change m).positions.length)
    (hended : ∀ m : PadMotion, m.index ≤ m.positions.length → (change m).finished = true →
      m.finished = true) :
    (F.onCurrent change).Stored ∧ Untouched F (F.onCurrent change) := by
  obtain ⟨hstored, hrecorded, hsame⟩ := h.onCurrent hstart hindex hlength
  refine ⟨hstored, hrecorded, hsame, fun k hk hfinished ↦ ?_⟩
  rw [PadFinger.onCurrent] at hk hfinished ⊢
  cases hj : F.current with
  | none =>
    rw [hj] at hk
    exact absurd (hj.symm.trans hk) (Option.some_ne_none k).symm
  | some j =>
    rw [hj] at hk hfinished
    obtain rfl : j = k := Option.some.inj (hj.symm.trans hk)
    have hself : (F.write j (change (F.motions j))).motions j = change (F.motions j) :=
      Function.update_self ..
    dsimp only at hfinished ⊢
    rw [hself] at hfinished ⊢
    exact ⟨rfl, hended _ (h.playing j (h.current j hj).1).2.2.2 hfinished, hstart _⟩

/-- A press makes a new motion, which has a position to play. -/
theorem Stored.press {F : PadFinger} (h : F.Stored) (config : PadConfiguration) (pe : PadEvent)
    {position : Int} (hposition : 0 ≤ position) :
    (F.press config pe position).Stored ∧ Untouched F (F.press config pe position) := by
  obtain ⟨m, hm, hpositions, hopen⟩ := PadMotion.startMotion_new config position pe.x pe.y pe.z
  have hstarted := (PadMotion.startMotion_eq_some_iff.mp hm).2
  have hindex : m.index = 0 := by rw [hstarted]
  have hstart : m.startTick = position := by
    rw [hstarted]
    rfl
  rw [PadFinger.press, hm]
  have hself : Function.update F.motions F.fresh m F.fresh = m := Function.update_self ..
  have hothers : ∀ k, k < F.fresh → Function.update F.motions F.fresh m k = F.motions k := by
    intro k hk
    exact Function.update_of_ne hk.ne ..
  refine ⟨⟨?_, fun k hk ↦ ?_, fun k hk ↦ ?_, fun k hk ↦ ?_, h.linked⟩, rfl, fun k hk ↦ ?_, ?_⟩
  · refine List.nodup_append'.mpr ⟨h.nodup, List.nodup_singleton _, ?_⟩
    intro k hk hnew
    have := (h.playing k hk).1
    rw [List.mem_singleton.mp hnew] at this
    exact Nat.lt_irrefl _ this
  · dsimp only [write]
    rcases List.mem_append.mp hk with hk | hk
    · obtain ⟨hfresh, hrest⟩ := h.playing k hk
      rw [hothers k hfresh]
      exact ⟨Nat.lt_succ_of_lt hfresh, hrest⟩
    · rw [List.mem_singleton.mp hk, hself, hstart, hindex]
      exact ⟨Nat.lt_succ_self _, hposition, Int.le_refl 0, Int.natCast_nonneg _⟩
  · obtain rfl := Option.some.inj hk
    refine ⟨List.mem_append_right _ (List.mem_singleton_self _), fun hmem ↦ ?_⟩
    exact Nat.lt_irrefl _ (h.recorded _ hmem).1
  · dsimp only [write]
    obtain ⟨hfresh, hterminated, hpos, hrest⟩ := h.recorded k hk
    rw [hothers k hfresh]
    refine ⟨Nat.lt_succ_of_lt hfresh, hterminated, hpos, fun hnot ↦ hrest fun hmem ↦ ?_⟩
    exact hnot (List.mem_append_left _ hmem)
  · exact congrArg PadMotion.startTick (hothers k (h.recorded k hk).1)
  · intro k hk hfinished
    obtain rfl := Option.some.inj hk
    dsimp only [write] at hfinished
    rw [hself, PadMotion.finished, hopen, Bool.false_and] at hfinished
    cases hfinished

theorem Stored.processFingerEvents {F : PadFinger} (h : F.Stored) (config : PadConfiguration)
    (pe : PadEvent) {position : Int} (hposition : -1 ≤ position) :
    (F.processFingerEvents config pe position).Stored ∧
      Untouched F (F.processFingerEvents config pe position) := by
  rw [PadFinger.processFingerEvents]
  split
  · exact ⟨h, .refl F⟩
  · split
    · exact h.press config pe (by omega)
    · refine h.onCurrent_untouched ?_ ?_ ?_ ?_
      · intro m
        rw [PadMotion.terminate, PadMotion.addPosition]
        split <;> rfl
      · intro m
        rw [PadMotion.terminate, PadMotion.addPosition]
        split <;> rfl
      · intro m
        rw [PadMotion.terminate, PadMotion.length_stopLater, PadMotion.addPosition]
        split
        · exact Nat.le_refl _
        · exact (List.length_append ▸ Nat.le_add_right ..)
      · intro m hwithin hfinished
        cases hterminated : m.terminated with
        | true =>
          rw [PadMotion.addPosition, if_pos hterminated, PadMotion.finished,
            PadMotion.terminate, Bool.and_eq_true, decide_eq_true_eq,
            PadMotion.length_stopLater] at hfinished
          rw [PadMotion.finished, hterminated, Bool.true_and, decide_eq_true_eq]
          exact hfinished.2
        | false =>
          -- the release adds a position that has not been played
          rw [PadMotion.addPosition, if_neg (by simp [hterminated]), PadMotion.finished,
            PadMotion.terminate, Bool.and_eq_true, decide_eq_true_eq,
            PadMotion.length_stopLater] at hfinished
          have hlong := hfinished.2
          simp only [List.length_append, List.length_singleton] at hlong
          omega
    · refine h.onCurrent_untouched ?_ ?_ ?_ ?_
      · intro m
        rw [PadMotion.addPosition]
        split <;> rfl
      · intro m
        rw [PadMotion.addPosition]
        split <;> rfl
      · intro m
        rw [PadMotion.addPosition]
        split
        · exact Nat.le_refl _
        · exact (List.length_append ▸ Nat.le_add_right ..)
      · intro m _ hfinished
        cases hterminated : m.terminated with
        | true => rwa [PadMotion.addPosition, if_pos hterminated] at hfinished
        | false =>
          rw [PadMotion.finished, PadMotion.terminated_addPosition, hterminated] at hfinished
          cases hfinished
    · exact ⟨h, .refl F⟩

/-! ### Ticks -/

theorem recordMotion_eq (motions : Nat → PadMotion) (k : Nat) (l : List Nat) :
    recordMotion motions k l = l.orderedInsert
      (fun a b ↦ decide ((motions a).startTick < (motions b).startTick) = true) k := by
  induction l with
  | nil => rfl
  | cons top rest ih => simp [recordMotion, ih]

/-- Starting recorded motions. -/
theorem Stored.startRecorded {F : PadFinger} (h : F.Stored) (mute : Bool) (position : Int) :
    (F.startRecorded mute position).Stored ∧ Untouched F (F.startRecorded mute position) ∧
      (F.startRecorded mute position).current = F.current := by
  rcases startRecorded_cases mute position F with ⟨first, rest, hstarted⟩ | heq
  · generalize F.startRecorded mute position = F' at hstarted
    have hrecorded : ∀ k ∈ first, k ∈ F.recorded := by
      intro k hk
      refine mem_recorded_of_mem_upcoming ?_
      rw [hstarted.list]
      exact List.mem_append_left _ hk
    -- a motion that is played has an index and does not start
    have hapart : ∀ k ∈ F.playingMotions, k ∉ first := by
      intro k hk hfirst
      have hindex := (PadMotion.startMotion_eq_some_iff.mp (hstarted.started k hfirst)).1.1
      have := (h.playing k hk).2.2.1
      omega
    have hplaying : F'.playingMotions = F.playingMotions ++ first := by rw [hstarted.finger]
    have hcurrent : F'.current = F.current := by rw [hstarted.finger]
    have hfresh : F'.fresh = F.fresh := by rw [hstarted.finger]
    have hsame : F'.recorded = F.recorded := by rw [hstarted.finger]
    have hlinks : F'.links = F.links := by rw [hstarted.finger]
    have hnow : ∀ k ∈ first, F'.motions k = { F.motions k with
        index := 0, crntTick := -1, lastX := -1
        arperator := ((F.motions k).arperator.reset.setDirection
          (F.motions k).arpDirection).setPattern (F.motions k).arpeggioPattern } :=
      fun k hk ↦ (PadMotion.startMotion_eq_some_iff.mp (hstarted.started k hk)).2
    have hstart : ∀ k, (F'.motions k).startTick = (F.motions k).startTick ∧
        (F'.motions k).terminated = (F.motions k).terminated := by
      intro k
      by_cases hfirst : k ∈ first
      · rw [hnow k hfirst]
        exact ⟨rfl, rfl⟩
      · rw [hstarted.others k hfirst]
        exact ⟨rfl, rfl⟩
    refine ⟨⟨?_, ?_, ?_, ?_, ?_⟩, ⟨hsame, fun k _ ↦ (hstart k).1, ?_⟩, hcurrent⟩
    · rw [hplaying, List.nodup_append']
      exact ⟨h.nodup, hstarted.nodup, fun k hk hfirst ↦ hapart k hk hfirst⟩
    · rw [hplaying, hfresh]
      intro k hk
      rcases List.mem_append.mp hk with hk | hk
      · rw [hstarted.others k (hapart k hk)]
        exact h.playing k hk
      · obtain ⟨hlt, -, hpos, -⟩ := h.recorded k (hrecorded k hk)
        rw [(hstart k).1, hnow k hk]
        exact ⟨hlt, hpos, Int.le_refl 0, Int.natCast_nonneg _⟩
    · rw [hcurrent, hplaying, hsame]
      intro k hk
      exact ⟨List.mem_append_left _ (h.current k hk).1, (h.current k hk).2⟩
    · rw [hsame, hfresh, hplaying]
      intro k hk
      obtain ⟨hlt, hterminated, hpos, hrest⟩ := h.recorded k hk
      refine ⟨hlt, (hstart k).2.trans hterminated, (hstart k).1 ▸ hpos, fun hnot ↦ ?_⟩
      rw [List.mem_append, not_or] at hnot
      rw [hstarted.others k hnot.2]
      exact hrest hnot.1
    · rw [hlinks, hsame]
      exact h.linked
    · intro k hk hfinished
      rw [hcurrent] at hk
      rw [hstarted.others k (hapart k (h.current k hk).1)] at hfinished ⊢
      exact ⟨hk, hfinished, rfl⟩
  · rw [heq]
    exact ⟨⟨h.nodup, h.playing, h.current, h.recorded, h.linked⟩,
      ⟨rfl, fun _ _ ↦ rfl, fun _ hk hfinished ↦ ⟨hk, hfinished, rfl⟩⟩, rfl⟩

theorem quantizeTick_nonneg (t : Int) : 0 ≤ quantizeTick t := by
  have htick : machineTicksPerLine = 16 := rfl
  rw [quantizeTick, htick]
  split <;> omega

section

variable (doRecord mute quantize : Bool) (scales : Scales)

/-- A motion that goes on is written back. -/
theorem playMotion_of_going {F : PadFinger} {k : Nat} (h : (F.motions k).finished = false) :
    (F.playMotion doRecord mute quantize scales k).2 =
      F.write k ((F.motions k).processMotion mute scales).2.2 := by
  have hresult := PadMotion.snd_processMotion mute scales (F.motions k)
  rw [playMotion]
  dsimp only
  rw [hresult, h, if_neg Bool.false_ne_true]

/-- A motion that has come to its end is taken out. -/
theorem playMotion_of_gone {F : PadFinger} {k : Nat} (h : (F.motions k).finished = true) :
    (F.playMotion doRecord mute quantize scales k).2 =
      (F.write k ((F.motions k).processMotion mute scales).2.2).finish doRecord quantize k := by
  have hresult := PadMotion.snd_processMotion mute scales (F.motions k)
  rw [playMotion]
  dsimp only
  rw [hresult, h, if_pos rfl]

variable {doRecord mute quantize scales}

/-- A motion that is played goes on. -/
theorem Stored.write {F : PadFinger} (h : F.Stored) {k : Nat} (hk : k ∈ F.playingMotions)
    {m : PadMotion} (hstart : m.startTick = (F.motions k).startTick)
    (hterminated : m.terminated = (F.motions k).terminated)
    (hwithin : 0 ≤ m.index ∧ m.index ≤ m.positions.length) : (F.write k m).Stored := by
  have hself : (F.write k m).motions k = m := Function.update_self ..
  have hothers : ∀ j, j ≠ k → (F.write k m).motions j = F.motions j := by
    intro j hj
    exact Function.update_of_ne hj ..
  refine ⟨h.nodup, fun j hj ↦ ?_, h.current, fun j hj ↦ ?_, h.linked⟩
  · by_cases hjk : j = k
    · rw [hjk, hself, hstart]
      exact ⟨(h.playing k hk).1, (h.playing k hk).2.1, hwithin⟩
    · rw [hothers j hjk]
      exact h.playing j hj
  · by_cases hjk : j = k
    · rw [hjk] at hj ⊢
      obtain ⟨hlt, hended, hpos, -⟩ := h.recorded k hj
      rw [hself, hstart, hterminated]
      exact ⟨hlt, hended, hpos, fun hnot ↦ absurd hk hnot⟩
    · rw [hothers j hjk]
      exact h.recorded j hj

/-- A motion that has come to its end is taken out, and recorded if it is the current one. -/
theorem Stored.finish {F : PadFinger} (h : F.Stored) {k : Nat} (hk : k ∈ F.playingMotions)
    {m : PadMotion} (hstart : m.startTick = (F.motions k).startTick)
    (hterminated : m.terminated = true) (hindex : m.index = -1) :
    ((F.write k m).finish doRecord quantize k).Stored := by
  rw [finish_write]
  obtain ⟨hlt, hpos, -, -⟩ := h.playing k hk
  generalize hstart' : (if (doRecord ∧ F.current = some k) ∧ quantize then quantizeTick m.startTick
    else m.startTick) = startTick
  have hpos' : 0 ≤ startTick := by
    rw [← hstart', hstart]
    split
    · exact quantizeTick_nonneg _
    · exact hpos
  have hself : Function.update F.motions k { m with startTick := startTick } k =
      { m with startTick := startTick } := Function.update_self ..
  have hothers : ∀ j, j ≠ k →
      Function.update F.motions k { m with startTick := startTick } j = F.motions j := by
    intro j hj
    exact Function.update_of_ne hj ..
  have hmem : ∀ j, j ∈ F.playingMotions.erase k ↔ j ≠ k ∧ j ∈ F.playingMotions :=
    fun j ↦ h.nodup.mem_erase_iff
  have hcurrent : ∀ j, (if F.current = some k then none else F.current) = some j →
      F.current = some j ∧ j ≠ k := by
    intro j hj
    split at hj
    · cases hj
    · next hne => exact ⟨hj, fun he ↦ hne (he ▸ hj)⟩
  have hrecorded : ∀ j ∈ if doRecord ∧ F.current = some k then
      recordMotion (F.write k m).motions k F.recorded else F.recorded,
        j ∈ F.recorded ∨ j = k := by
    intro j hj
    split at hj
    · exact (mem_recordMotion hj).symm
    · exact .inl hj
  refine ⟨h.nodup.erase k, fun j hj ↦ ?_, fun j hj ↦ ?_, fun j hj ↦ ?_, ?_⟩
  · obtain ⟨hjk, hj⟩ := (hmem j).mp hj
    dsimp only [PadFinger.write]
    rw [hothers j hjk]
    exact h.playing j hj
  · obtain ⟨hj, hjk⟩ := hcurrent j hj
    obtain ⟨hplaying, hnot⟩ := h.current j hj
    exact ⟨(hmem j).mpr ⟨hjk, hplaying⟩, fun hin ↦ (hrecorded j hin).elim hnot hjk⟩
  · dsimp only [PadFinger.write]
    by_cases hjk : j = k
    · rw [hjk, hself]
      exact ⟨hlt, hterminated, hpos', fun _ ↦ hindex⟩
    · rw [hothers j hjk]
      obtain ⟨hlt, hended, hpos, hrest⟩ := h.recorded j ((hrecorded j hj).resolve_right hjk)
      exact ⟨hlt, hended, hpos, fun hnot ↦ hrest fun hj ↦ hnot ((hmem j).mpr ⟨hjk, hj⟩)⟩
  · dsimp only
    split
    · next hrecord =>
      rw [recordMotion_eq, recordLinks]
      refine h.linked.insert _ ?_ (h.current k hrecord.2).2
      exact length_le_of_nodup h.linked.nodup fun j hj ↦ (h.recorded j hj).1
    · exact h.linked

/-- Writing to a motion does not change when it starts. -/
theorem startTick_update {motions : Nat → PadMotion} {k : Nat} {m : PadMotion}
    (h : m.startTick = (motions k).startTick) (i : Nat) :
    (Function.update motions k m i).startTick = (motions i).startTick := by
  by_cases hik : i = k
  · rw [hik, Function.update_self, h]
  · rw [Function.update_of_ne hik]

/-- The order is kept if the motion is not quantized, or keeps its place. -/
theorem Ordered.finish {F : PadFinger} (h : F.Ordered) (hF : F.Stored) {k : Nat} {m : PadMotion}
    (hstart : m.startTick = (F.motions k).startTick)
    (hplace : doRecord = true → quantize = true → F.current = some k → F.keepsPlace k = true) :
    ((F.write k m).finish doRecord quantize k).Ordered := by
  rw [finish_write]
  by_cases hrecord : doRecord ∧ F.current = some k
  · have hnot := (hF.current k hrecord.2).2
    have hne : ∀ j ∈ F.recorded, j ≠ k := fun j hj he ↦ hnot (he ▸ hj)
    rw [Ordered, if_pos hrecord, recordMotion_eq]
    generalize hstart' : (if (doRecord ∧ F.current = some k) ∧ quantize then
      quantizeTick m.startTick else m.startTick) = startTick
    have hself : Function.update F.motions k { m with startTick := startTick } k =
        { m with startTick := startTick } := Function.update_self ..
    have hothers : ∀ n, ∀ j ∈ F.recorded, Function.update F.motions k n j = F.motions j := by
      intro n j hj
      exact Function.update_of_ne (hne j hj) ..
    have hraw : Function.update F.motions k m k = m := Function.update_self ..
    -- the place was found for the start as it was
    have hfits : ∀ j ∈ F.recorded,
        (m.startTick < (F.motions j).startTick → startTick ≤ (F.motions j).startTick) ∧
          (¬ m.startTick < (F.motions j).startTick → (F.motions j).startTick ≤ startTick) := by
      intro j hj
      rw [← hstart']
      split
      · next hquantize =>
        have hall := List.all_eq_true.mp (hplace hrecord.1 hquantize.2 hrecord.2) j hj
        rw [← hstart] at hall
        split at hall
        · next hlt => exact ⟨fun _ ↦ of_decide_eq_true hall, fun hle ↦ absurd hlt hle⟩
        · next hle => exact ⟨fun hlt ↦ absurd hlt hle, fun _ ↦ of_decide_eq_true hall⟩
      · omega
    dsimp only [PadFinger.write]
    refine pairwise_orderedInsert ?_ ?_ ?_ ?_
    · refine List.Pairwise.imp_of_mem ?_ h
      intro i j hi hj hle
      rw [hothers _ i hi, hothers _ j hj]
      exact hle
    · intro i hi j hj hle hlt
      rw [hothers _ i hi, hothers _ j hj] at hle
      replace hlt := of_decide_eq_true hlt
      rw [hraw, hothers m i hi] at hlt
      refine decide_eq_true ?_
      rw [hraw, hothers m j hj]
      omega
    · intro j hj hlt
      replace hlt := of_decide_eq_true hlt
      rw [hraw, hothers m j hj] at hlt
      rw [hself, hothers _ j hj]
      exact (hfits j hj).1 hlt
    · intro j hj hle
      replace hle := fun hlt ↦ hle (decide_eq_true hlt)
      rw [hraw, hothers m j hj] at hle
      rw [hself, hothers _ j hj]
      exact (hfits j hj).2 hle
  · rw [if_neg hrecord, if_neg hrecord, if_neg fun hboth ↦ hrecord hboth.1]
    exact h.congr rfl fun i _ ↦ startTick_update hstart i

variable (doRecord mute quantize scales)

/-- One motion is played. -/
theorem Stored.playMotion {F : PadFinger} (h : F.Stored) {k : Nat} (hk : k ∈ F.playingMotions) :
    (F.playMotion doRecord mute quantize scales k).2.Stored := by
  have hstart := PadMotion.startTick_processMotion mute scales (F.motions k)
  have hterminated := PadMotion.terminated_processMotion mute scales (F.motions k)
  cases hfinished : (F.motions k).finished with
  | false =>
    rw [playMotion_of_going _ _ _ _ hfinished]
    exact h.write hk hstart hterminated
      (PadMotion.within_processMotion hfinished (h.playing k hk).2.2 mute scales)
  | true =>
    rw [playMotion_of_gone _ _ _ _ hfinished]
    refine h.finish hk hstart ?_ ?_
    · rw [hterminated]
      exact (Bool.and_eq_true_iff.mp hfinished).1
    · rw [PadMotion.processMotion_of_finished hfinished]

theorem Ordered.playMotion {F : PadFinger} (h : F.Ordered) (hF : F.Stored) {k : Nat}
    (hplace : doRecord = true → quantize = true → F.current = some k →
      (F.motions k).finished = true → F.keepsPlace k = true) :
    (F.playMotion doRecord mute quantize scales k).2.Ordered := by
  have hstart := PadMotion.startTick_processMotion mute scales (F.motions k)
  cases hfinished : (F.motions k).finished with
  | false =>
    rw [playMotion_of_going _ _ _ _ hfinished]
    exact h.congr rfl fun i _ ↦ startTick_update hstart i
  | true =>
    rw [playMotion_of_gone _ _ _ _ hfinished]
    exact h.finish hF hstart fun hr hq hk ↦ hplace hr hq hk hfinished

/-- Playing another motion than the current one records nothing. -/
theorem recorded_playMotion {F : PadFinger} {k : Nat} (hk : F.current ≠ some k) :
    (F.playMotion doRecord mute quantize scales k).2.recorded = F.recorded ∧
      ∀ i, ((F.playMotion doRecord mute quantize scales k).2.motions i).startTick =
        (F.motions i).startTick := by
  have hstart := PadMotion.startTick_processMotion mute scales (F.motions k)
  cases hfinished : (F.motions k).finished with
  | false =>
    rw [playMotion_of_going _ _ _ _ hfinished]
    exact ⟨rfl, startTick_update hstart⟩
  | true =>
    rw [playMotion_of_gone _ _ _ _ hfinished, finish_write,
      if_neg fun hboth ↦ hk hboth.1.2, if_neg fun hboth ↦ hk hboth.2]
    exact ⟨rfl, startTick_update hstart⟩

/-- All motions are played. -/
theorem Stored.playMotions {F : PadFinger} (h : F.Stored) {l : List Nat} (hl : l.Nodup)
    (hsub : ∀ k ∈ l, k ∈ F.playingMotions) :
    (F.playMotions doRecord mute quantize scales l).2.Stored ∧
      (F.Ordered → (doRecord = true → quantize = true → ∀ k ∈ l, F.current = some k →
        (F.motions k).finished = true → F.keepsPlace k = true) →
          (F.playMotions doRecord mute quantize scales l).2.Ordered) := by
  induction l generalizing F with
  | nil => exact ⟨h, fun hordered _ ↦ hordered⟩
  | cons k rest ih =>
    obtain ⟨hk, hrest⟩ := List.nodup_cons.mp hl
    have hne : ∀ j ∈ rest, j ≠ k := fun j hj he ↦ hk (he ▸ hj)
    have hticked := ticked_playMotion doRecord mute quantize scales h.nodup k
    have hstored := h.playMotion doRecord mute quantize scales (hsub k (List.mem_cons_self ..))
    obtain ⟨hstored', hordered'⟩ := ih hstored hrest fun j hj ↦ by
      rw [hticked.playing, List.mem_filter]
      exact ⟨hsub j (List.mem_cons_of_mem k hj), by simp [hne j hj]⟩
    refine ⟨hstored', fun hordered hplace ↦
      hordered' (hordered.playMotion doRecord mute quantize scales h ?_) ?_⟩
    · exact fun hr hq ↦ hplace hr hq k (List.mem_cons_self ..)
    · intro hr hq j hj hcurrent hfinished
      rw [hticked.others j (by simpa using hne j hj)] at hfinished
      have hcurrent' := ((hticked.current j).mp hcurrent).1
      have hplace' := hplace hr hq j (List.mem_cons_of_mem k hj) hcurrent' hfinished
      have hother : F.current ≠ some k :=
        fun he ↦ hne j hj (Option.some.inj (hcurrent'.symm.trans he))
      have hsame := recorded_playMotion doRecord mute quantize scales hother
      rw [keepsPlace, hsame.1, hsame.2]
      simp only [hsame.2]
      exact hplace'

/-- A tick of a finger. -/
theorem Stored.processFingerMotions {F : PadFinger} (h : F.Stored) (doRecord mute : Bool)
    (position : Int) (quantize : Bool) (scales : Scales) :
    (F.processFingerMotions doRecord mute position quantize scales).2.Stored ∧
      (F.Ordered → (doRecord = true → quantize = true → F.fits = true) →
        (F.processFingerMotions doRecord mute position quantize scales).2.Ordered) := by
  obtain ⟨hstored, huntouched, -⟩ := h.startRecorded mute position
  obtain ⟨hstored', hordered⟩ :=
    hstored.playMotions doRecord mute quantize scales hstored.nodup fun k hk ↦ hk
  refine ⟨hstored', fun hF hfits ↦ hordered (huntouched.ordered hF) ?_⟩
  intro hr hq k _ hk hfinished
  have hall := huntouched.fits (hfits hr hq)
  rw [fits, hk, Option.all_some, hfinished, Bool.not_true, Bool.false_or] at hall
  exact hall

end

theorem Stored.deletePadFinger {F : PadFinger} (h : F.Stored) :
    F.deletePadFinger.Stored ∧ F.deletePadFinger.Ordered := by
  refine ⟨⟨h.nodup, fun k hk ↦ ?_, fun k hk ↦ ⟨(h.current k hk).1, nofun⟩, nofun, rfl, .nil,
    trivial⟩, .nil⟩
  rw [PadFinger.deletePadFinger]
  dsimp only
  split <;> exact h.playing k hk

theorem Stored.terminate {F : PadFinger} (h : F.Stored) :
    F.terminate.Stored ∧ (F.Ordered → F.terminate.Ordered) := by
  have hlength : ∀ m : PadMotion, m.positions.length ≤ m.terminate.positions.length :=
    fun m ↦ (PadMotion.length_stopLater m.positions).ge
  have hstart : ∀ m : PadMotion, m.terminate.startTick = m.startTick := fun _ ↦ rfl
  obtain ⟨hstored, hrecorded, hsame⟩ := h.onCurrent hstart (fun _ ↦ rfl) hlength
  exact ⟨hstored, fun hordered ↦ hordered.congr hrecorded hsame⟩

end PadFinger

/-! ### Sessions -/

namespace PadSession

/-- What is true of a session whatever is done with it. -/
structure Stored (s : PadSession) : Prop where
  fingers : ∀ f, (s.finger f).Stored
  idle : s.inPlay = false → s.terminated = true ∧ ∀ f, (s.finger f).playingMotions = []
  position : -1 ≤ s.playbackPosition
  alive : ∀ f, (s.finger f).toBeDeleted = s.toBeDeleted

/-- All recorded motions of the session are in the order of their start. -/
def Ordered (s : PadSession) : Prop := ∀ f, (s.finger f).Ordered

/-- Every finger may be quantized. -/
def fits (s : PadSession) : Bool := (List.finRange 5).all fun f ↦ (s.finger f).fits

/-- A tick of a session that is in play. -/
theorem Stored.processSession {s : PadSession} (h : s.Stored) (doRecord mute quantize : Bool)
    (scales : Scales) :
    (s.processSession doRecord mute quantize scales).2.2.Stored ∧
      (s.Ordered → (doRecord = true → quantize = true → s.fits = true) →
        (s.processSession doRecord mute quantize scales).2.2.Ordered) := by
  have hfinger : ∀ f, _ := fun f ↦ (h.fingers f).processFingerMotions doRecord mute
    (s.playbackPosition + 1) quantize scales
  refine ⟨⟨fun f ↦ (hfinger f).1, fun hidle ↦ ?_, ?_, fun f ↦ ?_⟩, fun hordered hfits f ↦ ?_⟩
  · rw [PadSession.processSession, Bool.not_eq_false', Bool.and_eq_true] at hidle
    exact ⟨hidle.2, playingMotions_of_completed hidle.1⟩
  · have := h.position
    dsimp only [PadSession.processSession]
    omega
  · have hstored := ((h.fingers f).startRecorded mute (s.playbackPosition + 1)).1
    refine Eq.trans ?_ (h.alive f)
    exact (PadFinger.ticked_playMotions doRecord mute quantize scales hstored.nodup
      hstored.nodup).toBeDeleted.trans (PadFinger.toBeDeleted_startRecorded ..)
  · refine (hfinger f).2 (hordered f) fun hr hq ↦ ?_
    exact List.all_eq_true.mp (hfits hr hq) f (List.mem_finRange f)

/-- A session is started from the top. -/
theorem Stored.startPlay {s : PadSession} (h : s.Stored) (tick : Int) :
    (s.startPlay tick).Stored ∧ (s.Ordered → (s.startPlay tick).Ordered) ∧
      (s.fits = true → (s.startPlay tick).fits = true) := by
  rw [PadSession.startPlay]
  split
  · exact ⟨h, id, id⟩
  · next hidle =>
    have hnil := (h.idle (Bool.eq_false_iff.mpr hidle)).2
    split
    · refine ⟨⟨fun f ↦ ?_, fun hidle ↦ absurd hidle.symm Bool.false_ne_true, Int.le_refl _, h.alive⟩,
        fun hordered f ↦ hordered f, id⟩
      have hsame : (s.finger f).startFromTheTop =
          { s.finger f with nextMotionToPlay := (s.finger f).recorded.head? } := by
        rw [PadFinger.startFromTheTop, ← hnil f]
      obtain ⟨hnodup, hplaying, hcurrent, hrecorded, hlinked⟩ := h.fingers f
      show (s.finger f).startFromTheTop.Stored
      rw [hsame]
      exact ⟨hnodup, hplaying, hcurrent, hrecorded, hlinked⟩
    · exact ⟨h, id, id⟩

/-- A tick of a session. -/
theorem Stored.play {s s' : PadSession} (h : s.Stored) {doRecord noSound quantize : Bool}
    {tick : Int} {scales : Scales}
    (hs' : (s.play doRecord noSound quantize tick scales).2 = some s') :
    s'.Stored ∧ (s.Ordered → (doRecord = true → quantize = true → s.fits = true) → s'.Ordered) := by
  obtain ⟨hstored, hordered, hfits⟩ := h.startPlay tick
  rw [PadSession.play] at hs'
  dsimp only at hs'
  split at hs'
  · obtain ⟨hstored', hordered'⟩ := hstored.processSession doRecord noSound quantize scales
    split at hs'
    · cases hs'
    · obtain rfl := Option.some.inj hs'
      exact ⟨hstored', fun hs hf ↦ hordered' (hordered hs) fun hr hq ↦ hfits (hf hr hq)⟩
  · obtain rfl := Option.some.inj hs'
    exact ⟨hstored, fun hs _ ↦ hordered hs⟩

theorem Stored.deleteSession {s : PadSession} (h : s.Stored) :
    s.deleteSession.Stored ∧ s.deleteSession.Ordered :=
  ⟨⟨fun f ↦ (h.fingers f).deletePadFinger.1, h.idle, h.position, fun _ ↦ rfl⟩,
    fun f ↦ (h.fingers f).deletePadFinger.2⟩

theorem Stored.terminate {s : PadSession} (h : s.Stored) :
    s.terminate.Stored ∧ (s.Ordered → s.terminate.Ordered) := by
  have hsame : ∀ f, (s.terminate.finger f).playingMotions = (s.finger f).playingMotions ∧
      (s.terminate.finger f).toBeDeleted = (s.finger f).toBeDeleted := by
    intro f
    show (s.finger f).terminate.playingMotions = (s.finger f).playingMotions ∧
      (s.finger f).terminate.toBeDeleted = (s.finger f).toBeDeleted
    rw [PadFinger.terminate, PadFinger.onCurrent]
    split <;> exact ⟨rfl, rfl⟩
  refine ⟨⟨fun f ↦ (h.fingers f).terminate.1, fun hidle ↦ ⟨rfl, fun f ↦ ?_⟩, h.position,
    fun f ↦ (hsame f).2.trans (h.alive f)⟩, fun hs f ↦ (h.fingers f).terminate.2 (hs f)⟩
  rw [(hsame f).1]
  exact (h.idle hidle).2 f

end PadSession

/-! ### The pad -/

namespace Pad

/-- What is true of a pad whatever is done with it. -/
structure Stored (p : Pad) : Prop where
  sessions : ∀ s ∈ p.recordedSessions, s.Stored
  current : ∀ s, p.currentSession = some s → s.inPlay = true ∧ s.terminated = false

/-- All recorded motions are in the order of their start. -/
def Ordered (p : Pad) : Prop := ∀ s ∈ p.recordedSessions, s.Ordered

/-- Every session may be quantized. -/
def fits (p : Pad) : Bool := p.recordedSessions.all PadSession.fits

theorem stored_newSession (p : Pad) (tick : Int) (loop : Option (Int × Int)) :
    (p.newSession tick loop).Stored where
  fingers _ := PadFinger.stored_new
  idle := nofun
  position := Int.le_refl _
  alive _ := rfl

theorem Stored.processEvent {p : Pad} (h : p.Stored) (tick : Int) (loop : Option (Int × Int))
    (pe : PadEvent) : (Pad.processEvent tick loop p pe).Stored ∧
      (p.Ordered → (Pad.processEvent tick loop p pe).Ordered) ∧
      (p.fits = true → (Pad.processEvent tick loop p pe).fits = true) := by
  cases hf : pe.fingerId with
  | none =>
    rw [Pad.processEvent, hf]
    exact ⟨h, id, id⟩
  | some f =>
    obtain ⟨s, made, hs, heq⟩ := p.processEvent_eq tick loop hf
    rw [heq]
    have hsession : s.Stored ∧ s.inPlay = true ∧ s.terminated = false ∧
        (p.Ordered → s.Ordered) ∧ (p.fits = true → s.fits = true) := by
      rcases hs with ⟨hs, -⟩ | ⟨hs, rfl, -⟩
      · have hmem : s ∈ p.recordedSessions :=
          List.mem_append_right _ (Option.mem_toList.mpr hs)
        exact ⟨h.sessions s hmem, (h.current s hs).1, (h.current s hs).2, fun ho ↦ ho s hmem,
          fun hfits ↦ List.all_eq_true.mp hfits s hmem⟩
      · refine ⟨p.stored_newSession tick loop, rfl, rfl, fun _ _ ↦ PadFinger.ordered_new, ?_⟩
        exact fun _ ↦ List.all_eq_true.mpr fun _ _ ↦ rfl
    obtain ⟨hstored, hplay, hopen, hordered, hfits⟩ := hsession
    obtain ⟨hfinger, huntouched⟩ :=
      (hstored.fingers f).processFingerEvents p.config pe hstored.position
    -- a property of all fingers is one of the finger of the event and of the others
    have hall : ∀ Q : PadFinger → Prop, (∀ g, Q (s.finger g)) →
        Q ((s.finger f).processFingerEvents p.config pe s.playbackPosition) → ∀ g,
          Q (Function.update s.finger f
            ((s.finger f).processFingerEvents p.config pe s.playbackPosition) g) := by
      intro Q hothers hself g
      rw [Function.update_apply]
      split
      · exact hself
      · exact hothers g
    refine ⟨⟨fun t ht ↦ ?_, fun t ht ↦ ?_⟩, fun ho t ht ↦ ?_, fun hfit ↦ ?_⟩
    · rcases List.mem_append.mp ht with ht | ht
      · exact h.sessions t (List.mem_append_left _ ht)
      · rw [List.mem_singleton.mp ht]
        refine ⟨hall _ hstored.fingers hfinger,
          fun hidle ↦ absurd (hidle.symm.trans hplay) Bool.false_ne_true, hstored.position,
          hall (fun F ↦ F.toBeDeleted = s.toBeDeleted) hstored.alive ?_⟩
        rw [PadFinger.toBeDeleted_processFingerEvents]
        exact hstored.alive f
    · obtain rfl := Option.some.inj ht
      exact ⟨hplay, hopen⟩
    · rcases List.mem_append.mp ht with ht | ht
      · exact ho t (List.mem_append_left _ ht)
      · rw [List.mem_singleton.mp ht]
        exact hall _ (hordered ho) (huntouched.ordered (hordered ho f))
    · refine List.all_eq_true.mpr fun t ht ↦ ?_
      rcases List.mem_append.mp ht with ht | ht
      · exact List.all_eq_true.mp hfit t (List.mem_append_left _ ht)
      · rw [List.mem_singleton.mp ht]
        have hone : ∀ g, (s.finger g).fits = true :=
          fun g ↦ List.all_eq_true.mp (hfits hfit) g (List.mem_finRange g)
        exact List.all_eq_true.mpr fun g _ ↦
          hall (fun F ↦ F.fits = true) hone (huntouched.fits (hone f)) g

theorem Stored.foldl_processEvent {p : Pad} (h : p.Stored) (tick : Int)
    (loop : Option (Int × Int)) (events : List PadEvent) :
    (events.foldl (Pad.processEvent tick loop) p).Stored ∧
      (p.Ordered → (events.foldl (Pad.processEvent tick loop) p).Ordered) ∧
      (p.fits = true → (events.foldl (Pad.processEvent tick loop) p).fits = true) := by
  induction events generalizing p with
  | nil => exact ⟨h, id, id⟩
  | cons pe events ih =>
    obtain ⟨hstored, hordered, hfits⟩ := h.processEvent tick loop pe
    obtain ⟨hstored', hordered', hfits'⟩ := ih hstored
    exact ⟨hstored', fun ho ↦ hordered' (hordered ho), fun hf ↦ hfits' (hfits hf)⟩

/-- A tick of all sessions. -/
theorem Stored.processSessions {p : Pad} (h : p.Stored) (mute : Bool) (tick : Int)
    (scales : Scales) : (p.processSessions mute tick scales).2.Stored ∧
      (p.Ordered → (p.doRecord = true → p.doQuantize = true → p.fits = true) →
        (p.processSessions mute tick scales).2.Ordered) := by
  have hplayed : ∀ s' ∈ (p.processSessions mute tick scales).2.recordedSessions,
      ∃ s ∈ p.recordedSessions, ∃ noSound, (p.playSession noSound tick scales s).2 = some s' := by
    intro s' hs'
    rw [Pad.recordedSessions, Pad.processSessions] at hs'
    rcases List.mem_append.mp hs' with hs' | hs'
    · obtain ⟨s, hs, heq⟩ := List.mem_filterMap.mp hs'
      exact ⟨s, List.mem_append_left _ hs, mute, heq⟩
    · obtain ⟨s, hs, heq⟩ := Option.bind_eq_some_iff.mp (Option.mem_toList.mp hs')
      exact ⟨s, List.mem_append_right _ (Option.mem_toList.mpr hs), false, heq⟩
  refine ⟨⟨fun s' hs' ↦ ?_, fun s' hs' ↦ ?_⟩, fun ho hfits s' hs' ↦ ?_⟩
  · obtain ⟨s, hs, noSound, heq⟩ := hplayed s' hs'
    exact ((h.sessions s hs).play heq).1
  · obtain ⟨s, hs, heq⟩ := Option.bind_eq_some_iff.mp hs'
    obtain ⟨hplay, hopen⟩ := h.current s hs
    have hsame : s.startPlay tick = s := by rw [PadSession.startPlay, if_pos hplay]
    rw [Pad.playSession, PadSession.play, hsame, if_pos hplay] at heq
    dsimp only at heq
    split at heq
    · cases heq
    · obtain rfl := Option.some.inj heq
      exact ⟨by simp [PadSession.processSession, hopen], hopen⟩
  · obtain ⟨s, hs, noSound, heq⟩ := hplayed s' hs'
    refine ((h.sessions s hs).play heq).2 (ho s hs) fun hr hq ↦ ?_
    exact List.all_eq_true.mp (hfits hr hq) s hs

/-- A tick, with the events that have been waiting for it. -/
theorem Stored.process {p : Pad} (h : p.Stored) (mute : Bool) (tick : Int)
    (around : PadSurroundings) : (p.process mute tick around).2.Stored ∧
      (p.Ordered → (p.doRecord = true → p.doQuantize = true → p.fits = true) →
        (p.process mute tick around).2.Ordered) := by
  have hempty : Stored { p with padEventQueue := [] } := ⟨h.sessions, h.current⟩
  obtain ⟨current, made, heq⟩ :=
    foldl_processEvent_eq tick around.loop p.padEventQueue { p with padEventQueue := [] }
  obtain ⟨hstored, hordered, hfits⟩ := hempty.foldl_processEvent tick around.loop p.padEventQueue
  obtain ⟨hstored', hordered'⟩ := hstored.processSessions mute tick around.scales
  refine ⟨hstored', fun ho hf ↦ hordered' (hordered ho) fun hr hq ↦ hfits (hf ?_ ?_)⟩
  · rwa [heq] at hr
  · rwa [heq] at hq

theorem Stored.internalSetRecord {p : Pad} (h : p.Stored) (doRecord : Bool) :
    (p.internalSetRecord doRecord).Stored ∧
      (p.Ordered → (p.internalSetRecord doRecord).Ordered) := by
  rw [Pad.internalSetRecord]
  split
  · exact ⟨h, id⟩
  · have hmem : ∀ s' ∈ p.sessions ++ (p.currentSession.map fun s ↦
        if p.doRecord then s.terminate else s.deleteSession).toList,
        s' ∈ p.sessions ∨ ∃ s ∈ p.recordedSessions, s' = s.terminate ∨ s' = s.deleteSession := by
      intro s' hs'
      rcases List.mem_append.mp hs' with hs' | hs'
      · exact .inl hs'
      · obtain ⟨s, hs, rfl⟩ := Option.map_eq_some_iff.mp (Option.mem_toList.mp hs')
        refine .inr ⟨s, List.mem_append_right _ (Option.mem_toList.mpr hs), ?_⟩
        split
        · exact .inl rfl
        · exact .inr rfl
    refine ⟨⟨fun s' hs' ↦ ?_, fun s hs ↦ by cases hs⟩, fun ho s' hs' ↦ ?_⟩
    · rw [Pad.recordedSessions, Option.toList_none, List.append_nil] at hs'
      rcases hmem s' hs' with hs' | ⟨s, hs, rfl | rfl⟩
      · exact h.sessions s' (List.mem_append_left _ hs')
      · exact (h.sessions s hs).terminate.1
      · exact (h.sessions s hs).deleteSession.1
    · rw [Pad.recordedSessions, Option.toList_none, List.append_nil] at hs'
      rcases hmem s' hs' with hs' | ⟨s, hs, rfl | rfl⟩
      · exact ho s' (List.mem_append_left _ hs')
      · exact (h.sessions s hs).terminate.2 (ho s hs)
      · exact (h.sessions s hs).deleteSession.2

theorem Stored.internalClearPad {p : Pad} (h : p.Stored) :
    p.internalClearPad.Stored ∧ p.internalClearPad.Ordered := by
  have hmem : ∀ s' ∈ p.internalClearPad.recordedSessions, s'.Stored ∧ s'.Ordered := by
    intro s' hs'
    rw [Pad.recordedSessions, Pad.internalClearPad, Option.toList_none, List.append_nil] at hs'
    obtain ⟨s, hs, rfl⟩ := List.mem_map.mp hs'
    exact (h.sessions s hs).deleteSession
  exact ⟨⟨fun s' hs' ↦ (hmem s' hs').1, nofun⟩, fun s' hs' ↦ (hmem s' hs').2⟩

theorem mem_recordedSessions {p : Pad} {s : PadSession} (h : p.currentSession = some s) :
    s ∈ p.recordedSessions :=
  List.mem_append_right _ (Option.mem_toList.mpr h)

theorem stored_new : Stored .new := ⟨nofun, nofun⟩

/-- Every operation. -/
theorem Stored.perform {p : Pad} (h : p.Stored) (op : PadOp) : (p.perform op).2.Stored := by
  cases op with
  | enqueueEvent => exact ⟨h.sessions, h.current⟩
  | process mute tick around => exact (h.process mute tick around).1
  | internalSetRecord doRecord => exact (h.internalSetRecord doRecord).1
  | internalClearPad => exact h.internalClearPad.1
  | setQuantize => exact ⟨h.sessions, h.current⟩
  | configure => exact ⟨h.sessions, h.current⟩

end Pad

namespace PadHistory

/-- A tick that quantizes what it records finds motions that keep their places. -/
def keepsOrder (h : PadHistory) : PadOp → Bool
  | .process .. => !(h.pad.doRecord && h.pad.doQuantize) || h.pad.fits
  | _ => true

/-- In every run in which no motion is quantized past another one of its finger, the recorded motions
of every finger are linked to and fro, in the order of their start. -/
theorem recorded_in_order {h : PadHistory} {ops : List PadOp}
    (hrun : Run step (fun h op _ ↦ h.keepsOrder op = true) ⟨.new, [], []⟩ ops h) :
    ∀ s ∈ h.pad.recordedSessions, ∀ f, (s.finger f).links.Leads (s.finger f).recorded ∧
      (s.finger f).Ordered := by
  have hinv : h.pad.Stored ∧ h.pad.Ordered := by
    refine hrun.invariant (fun h ↦ h.pad.Stored ∧ h.pad.Ordered) ?_ ⟨Pad.stored_new, nofun⟩
    rintro h op calls h' ⟨hstored, hordered⟩ hkeeps hstep
    obtain ⟨-, rfl⟩ := Prod.mk.inj (Option.some.inj hstep)
    refine ⟨hstored.perform op, ?_⟩
    cases op with
    | enqueueEvent => exact hordered
    | process mute tick around =>
      refine (hstored.process mute tick around).2 hordered fun hr hq ↦ ?_
      simpa [keepsOrder, hr, hq] using hkeeps
    | internalSetRecord doRecord => exact (hstored.internalSetRecord doRecord).2 hordered
    | internalClearPad => exact hstored.internalClearPad.2
    | setQuantize => exact hordered
    | configure => exact hordered
  intro s hs f
  exact ⟨((hinv.1.sessions s hs).fingers f).linked, hinv.2 s hs f⟩

/-- When the recorded motions of a finger of the current session start. -/
def starts (h : PadHistory) (f : PadFingerId) : List Int :=
  (h.pad.fingerOf f).recorded.map fun k ↦ ((h.pad.fingerOf f).motions k).startTick

/-- Two strokes that are quantized. -/
theorem recorded_in_order_quantized : ∃ h s,
    Run step (fun h op _ ↦ h.keepsOrder op = true) ⟨.new, [], []⟩
      ([.internalSetRecord true, .setQuantize true] ++ tap 0 ++ ticks 10 ++ tap 0 ++ ticks 3) h ∧
    h.starts 0 = [0, 16] ∧ h.pad.currentSession = some s ∧ (s.finger 0).Ordered := by
  have hsome : ((runAll step (fun h op _ ↦ h.keepsOrder op) ⟨.new, [], []⟩
      ([.internalSetRecord true, .setQuantize true] ++ tap 0 ++ ticks 10 ++ tap 0 ++ ticks 3)).map
        fun h ↦ (h.starts 0, h.pad.currentSession.isSome)) = some ([0, 16], true) := by
    decide +kernel
  obtain ⟨h, hh, heq⟩ := Option.map_eq_some_iff.mp hsome
  obtain ⟨hstarts, hcurrent⟩ := Prod.mk.inj heq
  obtain ⟨s, hs⟩ := Option.isSome_iff_exists.mp hcurrent
  have hrun := Run.of_runAll hh
  exact ⟨h, s, hrun, hstarts, hs,
    (recorded_in_order hrun s (Pad.mem_recordedSessions hs) 0).2⟩

/-- The third stroke is quantized, the second one is not: it comes to stand behind the second one
and starts before it. -/
theorem quantized_past_another : ¬ ∀ (h : PadHistory) (ops : List PadOp),
    Run step (fun _ _ _ ↦ True) ⟨.new, [], []⟩ ops h →
      ∀ s ∈ h.pad.recordedSessions, ∀ f, (s.finger f).Ordered := by
  intro hall
  have hsome : ((runAll step (fun _ _ _ ↦ true) ⟨.new, [], []⟩
      ([.internalSetRecord true] ++ tap 0 ++ ticks 4 ++ tap 0 ++ ticks 4 ++ [.setQuantize true] ++
        tap 0 ++ ticks 4)).map fun h ↦ (h.starts 0, h.pad.currentSession.isSome)) =
      some ([0, 4, 0], true) := by
    decide +kernel
  obtain ⟨h, hh, heq⟩ := Option.map_eq_some_iff.mp hsome
  obtain ⟨hstarts, hcurrent⟩ := Prod.mk.inj heq
  obtain ⟨s, hs⟩ := Option.isSome_iff_exists.mp hcurrent
  have hordered := hall h _ ((Run.of_runAll hh).mono fun _ _ _ _ ↦ trivial) s
    (Pad.mem_recordedSessions hs) 0
  have hsorted : (h.starts 0).Pairwise (· ≤ ·) := by
    rw [starts, List.pairwise_map, Pad.fingerOf, hs]
    exact hordered
  rw [hstarts] at hsorted
  exact absurd hsorted (by decide)

end PadHistory

end Vuknob
