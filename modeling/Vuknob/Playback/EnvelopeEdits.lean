import Vuknob.Playback.Envelope

/-!
# Edits of a range of an envelope

`set_control_point_line` and `delete_control_point_range`,
`src_jni/engine_code/controller_envelope.cc:102–144`. Both look for the first point that is not
before the first position and the first one that is behind the second position, and erase what is
between the two. The editor puts the positions in order before it calls them, except when a line is
drawn freehand, `src_jni/ui_code/envelope_editor.cc:337–383`.
-/

namespace Vuknob

open Library

namespace ControllerEnvelope

variable {m m' : OrderedMap Int Int} {firstX secondX : Int}

/-- Positions in order: what is between them is erased. -/
theorem erase_of_le (m : OrderedMap Int Int) (h : firstX ≤ secondX) :
    ∃ m', erase m firstX secondX = some m' ∧ ∀ x, m'.lookup x =
      if firstX ≤ x ∧ x ≤ secondX then none else m.lookup x := by
  rw [erase]
  cases hlower : m.lowerBound firstX with
  | none =>
    have hbefore := OrderedMap.lowerBound_eq_none_iff.mp hlower
    refine ⟨m, rfl, fun x ↦ ?_⟩
    split
    · next hbetween =>
      refine OrderedMap.lookup_eq_none_iff.mpr fun n hn heq ↦ ?_
      have := hbefore n hn
      omega
    · rfl
  | some k1 =>
    obtain ⟨-, hk1, hleast⟩ := OrderedMap.lowerBound_eq_some_iff.mp hlower
    have hvalid : (m.upperBound secondX).all (fun k2 ↦ k1.key ≤ k2.key) = true := by
      cases hupper : m.upperBound secondX with
      | none => rfl
      | some k2 =>
        obtain ⟨hk2, hlt, -⟩ := OrderedMap.upperBound_eq_some_iff.mp hupper
        exact decide_eq_true (hleast k2 hk2 (by omega))
    refine ⟨_, if_pos hvalid, fun x ↦ ?_⟩
    rw [m.lookup_keep (fun x ↦ x < firstX ∨ secondX < x)]
    by_cases hbetween : firstX ≤ x ∧ x ≤ secondX
    · rw [if_pos hbetween, if_neg (by simp; omega)]
    · rw [if_neg hbetween, if_pos (by simp; omega)]

/-- Positions in the wrong order: the range is not one if there are points on both sides of the
later position, and nothing is erased otherwise. -/
theorem erase_of_gt (m : OrderedMap Int Int) (h : secondX < firstX) :
    ((∃ n ∈ m.nodes, secondX < n.key ∧ n.key < firstX) ∧ (∃ n ∈ m.nodes, firstX ≤ n.key) ∧
        erase m firstX secondX = none) ∨
      ∃ m', erase m firstX secondX = some m' ∧ ∀ x, m'.lookup x = m.lookup x := by
  rw [erase]
  cases hlower : m.lowerBound firstX with
  | none => exact .inr ⟨m, rfl, fun x ↦ rfl⟩
  | some k1 =>
    obtain ⟨hmem, hk1, hleast⟩ := OrderedMap.lowerBound_eq_some_iff.mp hlower
    by_cases hvalid : (m.upperBound secondX).all (fun k2 ↦ k1.key ≤ k2.key) = true
    · refine .inr ⟨_, if_pos hvalid, fun x ↦ ?_⟩
      rw [m.lookup_keep (fun x ↦ x < firstX ∨ secondX < x), if_pos (by simp; omega)]
    · refine .inl ⟨?_, ⟨k1, hmem, hk1⟩, if_neg hvalid⟩
      cases hupper : m.upperBound secondX with
      | none => exact absurd (by rw [hupper]; rfl) hvalid
      | some k2 =>
        obtain ⟨hk2, hlt, -⟩ := OrderedMap.upperBound_eq_some_iff.mp hupper
        refine ⟨k2, hk2, hlt, ?_⟩
        by_contra hge
        refine hvalid ?_
        rw [hupper]
        exact decide_eq_true (hleast k2 hk2 (by omega))

/-- An edit with positions in the wrong order, seen through what it sets afterwards, leaves nothing
in a range exactly if there is nothing in it. -/
theorem erase_of_gt_iff (m : OrderedMap Int Int) (h : secondX < firstX) (removed : Int → Prop)
    [DecidablePred removed] (seen : Int → Option Int → Option Int)
    (hremoved : ∀ x, secondX < x → x < firstX → removed x)
    (hseen : ∀ x value, removed x → seen x value = value) :
    (∃ m', erase m firstX secondX = some m' ∧ ∀ x, seen x (m'.lookup x) =
        if removed x then none else seen x (m.lookup x)) ↔ ∀ n ∈ m.nodes, ¬ removed n.key := by
  rcases erase_of_gt m h with ⟨⟨n, hn, hlt, hgt⟩, -, hnone⟩ | ⟨m', hm', hlookup⟩
  · refine iff_of_false ?_ fun hempty ↦ hempty n hn (hremoved n.key hlt hgt)
    rintro ⟨m', hm', -⟩
    rw [hnone] at hm'
    cases hm'
  · constructor
    · rintro ⟨m₁, hm₁, hleft⟩ n hn hin
      obtain rfl := Option.some.inj (hm'.symm.trans hm₁)
      have hfound := hleft n.key
      rw [if_pos hin, hseen _ _ hin, hlookup] at hfound
      exact OrderedMap.lookup_eq_none_iff.mp hfound n hn rfl
    · intro hempty
      refine ⟨m', hm', fun x ↦ ?_⟩
      rw [hlookup]
      split
      · next hin =>
        rw [hseen _ _ hin]
        exact OrderedMap.lookup_eq_none_iff.mpr fun n hn heq ↦ hempty n hn (heq ▸ hin)
      · rfl

/-- `refresh_playback_data` moves the iterators only. -/
@[simp]
theorem refreshPlaybackData_controlPoint (e : ControllerEnvelope) :
    e.refreshPlaybackData.controlPoint = e.controlPoint := by
  rw [refreshPlaybackData]
  split
  · rfl
  · exact seat_controlPoint e e.t

variable (e : ControllerEnvelope) (firstLine firstTick firstY secondLine secondTick secondY : Int)

/-- The points outside the closed range between two positions are left. -/
def DeletesRange : Prop :=
  let a := padTime firstLine firstTick
  let b := padTime secondLine secondTick
  ∃ e', e.deleteControlPointRange firstLine firstTick secondLine secondTick = some e' ∧
    ∀ x, e'.controlPoint.lookup x =
      if min a b ≤ x ∧ x ≤ max a b then none else e.controlPoint.lookup x

/-- The points outside the closed range between two positions are left, and the two end points are
set, the second one last. -/
def SetsLine : Prop :=
  let a := padTime firstLine firstTick
  let b := padTime secondLine secondTick
  ∃ e', e.setControlPointLine firstLine firstTick firstY secondLine secondTick secondY = some e' ∧
    ∀ x, e'.controlPoint.lookup x =
      if x = b then some secondY
      else if x = a then some firstY
      else if min a b ≤ x ∧ x ≤ max a b then none else e.controlPoint.lookup x

/-- A range is deleted if its positions are in order, or if there is no point in it. -/
theorem deletesRange_iff :
    e.DeletesRange firstLine firstTick secondLine secondTick ↔
      padTime firstLine firstTick ≤ padTime secondLine secondTick ∨
        ∀ n ∈ e.controlPoint.nodes, ¬ (padTime secondLine secondTick ≤ n.key ∧
          n.key ≤ padTime firstLine firstTick) := by
  rw [DeletesRange, deleteControlPointRange]
  generalize padTime firstLine firstTick = a
  generalize padTime secondLine secondTick = b
  simp only [Option.map_eq_some_iff, exists_exists_and_eq_and, refreshPlaybackData_controlPoint]
  rcases lt_or_ge b a with hgt | hle
  · rw [or_iff_right (by omega), min_eq_right hgt.le, max_eq_left hgt.le]
    exact erase_of_gt_iff e.controlPoint hgt (fun x ↦ b ≤ x ∧ x ≤ a) (fun _ value ↦ value)
      (fun _ hlt hgt ↦ ⟨hlt.le, hgt.le⟩) fun _ _ _ ↦ rfl
  · rw [min_eq_left hle, max_eq_right hle]
    exact iff_of_true (erase_of_le e.controlPoint hle) (.inl hle)

/-- A line is set if its end points are in order, or if there is no point between them. -/
theorem setsLine_iff :
    e.SetsLine firstLine firstTick firstY secondLine secondTick secondY ↔
      padTime firstLine firstTick ≤ padTime secondLine secondTick ∨
        ∀ n ∈ e.controlPoint.nodes, ¬ (padTime secondLine secondTick < n.key ∧
          n.key < padTime firstLine firstTick) := by
  rw [SetsLine, setControlPointLine]
  generalize padTime firstLine firstTick = a
  generalize padTime secondLine secondTick = b
  simp only [Option.map_eq_some_iff, exists_exists_and_eq_and, refreshPlaybackData_controlPoint,
    OrderedMap.lookup_set]
  rcases lt_or_ge b a with hgt | hle
  · rw [or_iff_right (by omega), min_eq_right hgt.le, max_eq_left hgt.le]
    have hends : ∀ x, (if x = b then some secondY else if x = a then some firstY
          else if b ≤ x ∧ x ≤ a then none else e.controlPoint.lookup x) =
        if b < x ∧ x < a then none else if x = b then some secondY
          else if x = a then some firstY else e.controlPoint.lookup x := by
      intro x
      split_ifs <;> first | rfl | omega
    simp only [hends]
    refine erase_of_gt_iff e.controlPoint hgt (fun x ↦ b < x ∧ x < a)
      (fun x value ↦ if x = b then some secondY else if x = a then some firstY else value)
      (fun _ hlt hgt ↦ ⟨hlt, hgt⟩) fun x value hin ↦ ?_
    rw [if_neg (by omega), if_neg (by omega)]
  · rw [min_eq_left hle, max_eq_right hle]
    obtain ⟨m', hm', hlookup⟩ := erase_of_le e.controlPoint hle
    refine iff_of_true ⟨m', hm', fun x ↦ ?_⟩ (.inl hle)
    rw [hlookup]

/-- Both edits, for any points and any two positions. -/
theorem rangeEdits_iff :
    (e.DeletesRange firstLine firstTick secondLine secondTick ↔
      padTime firstLine firstTick ≤ padTime secondLine secondTick ∨
        ∀ n ∈ e.controlPoint.nodes, ¬ (padTime secondLine secondTick ≤ n.key ∧
          n.key ≤ padTime firstLine firstTick)) ∧
    (e.SetsLine firstLine firstTick firstY secondLine secondTick secondY ↔
      padTime firstLine firstTick ≤ padTime secondLine secondTick ∨
        ∀ n ∈ e.controlPoint.nodes, ¬ (padTime secondLine secondTick < n.key ∧
          n.key < padTime firstLine firstTick)) :=
  ⟨e.deletesRange_iff .., e.setsLine_iff ..⟩

/-- Points at the ticks 16 and 48. -/
def twoPoints : ControllerEnvelope :=
  ((new 0 none none).setControlPoint 1 0 5).setControlPoint 3 0 7

/-- A line that is drawn from right to left over a point, before another one: the range that is to
be erased leads from the last point to the first. Without the other one the point stays. -/
theorem line_to_the_left_is_undefined :
    (twoPoints.setControlPointLine 2 0 0 0 0 0).isNone = true ∧
      (twoPoints.deleteControlPointRange 2 0 0 0).isNone = true ∧
      (twoPoints.deleteControlPointRange 4 0 0 0).map (fun e ↦ e.controlPoint.entries) =
        some [(16, 5), (48, 7)] ∧
      ¬ ∀ (e : ControllerEnvelope) (firstLine firstTick firstY secondLine secondTick secondY : Int),
        e.DeletesRange firstLine firstTick secondLine secondTick ∧
          e.SetsLine firstLine firstTick firstY secondLine secondTick secondY := by
  refine ⟨by decide +kernel, by decide +kernel, by decide +kernel, fun h ↦ ?_⟩
  obtain ⟨e', he', -⟩ := (h twoPoints 2 0 0 0 0 0).2
  have hnone : (twoPoints.setControlPointLine 2 0 0 0 0 0).isNone = true := by decide +kernel
  rw [he'] at hnone
  cases hnone

end ControllerEnvelope

end Vuknob
