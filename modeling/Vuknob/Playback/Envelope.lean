import Vuknob.Base.CInt
import Vuknob.Library.OrderedMap
import Vuknob.Library.Runs
import Vuknob.Playback.Arpeggiator
import Vuknob.Playback.LoopEdit

/-!
# Controller envelopes

`ControllerEnvelope`, `src_jni/engine_code/controller_envelope.hh:28–77` and
`src_jni/engine_code/controller_envelope.cc:26–205`. An envelope has control points at some ticks; in
between it is played as the line from one to the next. The player keeps two iterators from call to
call. The member `t` is the tick from which edits seat them; playback does not set it, and the
constructor leaves it as it is. An iterator is a node of the map, or `none` for its end.
-/

namespace Vuknob

open Library

/-- `ControllerEnvelope`, `src_jni/engine_code/controller_envelope.hh:30–45`. -/
structure ControllerEnvelope where
  t : Int
  nextC : Option Nat
  previousC : Option Nat
  controlPoint : OrderedMap Int Int
  enabled : Bool
  controllerCoarse : Int
  controllerFine : Int

/-- An envelope in a project file; attributes and points where they are given. -/
structure EnvelopeXml where
  id : Option String
  enabled : Option String
  coarse : Option Int
  fine : Option Int
  points : List (Option Int × Option Int)

namespace ControllerEnvelope

/-- `ControllerEnvelope()`, `src_jni/engine_code/controller_envelope.cc:26–27`: the playback data is
what the memory holds. -/
def new (t : Int) (nextC previousC : Option Nat) : ControllerEnvelope where
  t := t
  nextC := nextC
  previousC := previousC
  controlPoint := .empty 0
  enabled := true
  controllerCoarse := -1
  controllerFine := -1

/-- Seat the iterators around a tick, `src_jni/engine_code/controller_envelope.cc:37–44` and `51–57`. -/
def seat (e : ControllerEnvelope) (t : Int) : ControllerEnvelope :=
  match e.controlPoint.lowerBound t with
  | none => { e with nextC := none, previousC := none }
  | some n =>
    { e with
      nextC := some n.node
      previousC :=
        if e.controlPoint.first = some n then some n.node
        else (e.controlPoint.before n.key).map MapNode.node }

/-- `refresh_playback_data`, `src_jni/engine_code/controller_envelope.cc:34–45`. -/
def refreshPlaybackData (e : ControllerEnvelope) : ControllerEnvelope :=
  if e.controlPoint.nodes = [] then e else e.seat e.t

/-- The calls for a value, `src_jni/engine_code/controller_envelope.cc:72–87`. -/
def calls (e : ControllerEnvelope) (y : Int) : List PadCall :=
  if 0 ≤ e.controllerCoarse && e.controllerCoarse < 128 then
    .queueController e.controllerCoarse (y / 128 % 128) ::
      if e.controllerFine ≠ -1 then [.queueController e.controllerFine (y % 128)] else []
  else if e.controllerCoarse = 1024 then [.queuePitchBend (y % 128) (y / 128 % 128)]
  else []

/-- The value on the line between two points, `src_jni/engine_code/controller_envelope.cc:70`. -/
def interpolate (previous next : MapNode Int Int) (t : Int) : Option Int := do
  let rise ← int (next.value - previous.value)
  let elapsed ← int (t - previous.key)
  let product ← int (rise * elapsed)
  let width ← int (next.key - previous.key)
  if width = 0 then none
  else
    let quotient ← int (product.tdiv width)
    int (previous.value + quotient)

/-- What a call of `process_envelope` comes to: it returns early, it reads `next_c` where that is no
element of the map, it finds a point at the tick, or it interpolates with `previous_c`. -/
inductive Found
  | nothing
  | stale
  | point (n : MapNode Int Int)
  | line (next : MapNode Int Int) (previousC : Option Nat)
  deriving DecidableEq

/-- The iterators are seated again if `next_c` is at the end. -/
def reseat (e : ControllerEnvelope) (t : Int) : ControllerEnvelope :=
  if e.nextC = none then e.seat t else e

/-- `src_jni/engine_code/controller_envelope.cc:49–71`. -/
def find (e : ControllerEnvelope) (t : Int) : Found :=
  if !e.enabled || e.controlPoint.nodes = [] then .nothing
  else
    match (e.reseat t).nextC with
    | none => .nothing
    | some node =>
      match e.controlPoint.get node with
      | none => .stale
      | some n =>
        if t < n.key && e.controlPoint.first = some n then .nothing
        else if n.key = t then .point n
        else .line n (e.reseat t).previousC

/-- `process_envelope`, `src_jni/engine_code/controller_envelope.cc:48–88`: the calls that are made,
`none` where that is undefined. -/
def processEnvelope (e : ControllerEnvelope) (t : Int) :
    Option (List PadCall) × ControllerEnvelope :=
  let after := if !e.enabled || e.controlPoint.nodes = [] then e else e.reseat t
  match e.find t with
  | .nothing => (some [], after)
  | .stale => (none, after)
  | .point n =>
    (some (e.calls n.value),
      { after with nextC := (e.controlPoint.upperBound n.key).map MapNode.node })
  | .line n previousC =>
    ((previousC.bind e.controlPoint.get).bind fun p ↦ (interpolate p n t).map e.calls, after)

/-- Erase the points from one tick to another, `src_jni/engine_code/controller_envelope.cc:111–117` and
`135–141`. A range that does not lead from its first to its second iterator is undefined. -/
def erase (m : OrderedMap Int Int) (firstX secondX : Int) : Option (OrderedMap Int Int) :=
  match m.lowerBound firstX, m.upperBound secondX with
  | none, _ => some m
  | some k1, k2 =>
    if k2.all fun k2 ↦ k1.key ≤ k2.key then
      some (m.keep fun n ↦ n.key < firstX ∨ secondX < n.key)
    else none

/-- `set_to`, `src_jni/engine_code/controller_envelope.cc:90–95`; the nodes of the copy are new. -/
def setTo (e original : ControllerEnvelope) : ControllerEnvelope :=
  refreshPlaybackData { e with
    controlPoint := (OrderedMap.empty e.controlPoint.fresh).setAll
      (original.controlPoint.nodes.map fun n ↦ (n.key, n.value))
    enabled := original.enabled }

/-- `set_control_point`, `src_jni/engine_code/controller_envelope.cc:97–100`. -/
def setControlPoint (e : ControllerEnvelope) (line tick y : Int) : ControllerEnvelope :=
  refreshPlaybackData { e with controlPoint := e.controlPoint.set (padTime line tick) y }

/-- `set_control_point_line`, `src_jni/engine_code/controller_envelope.cc:102–124`. -/
def setControlPointLine (e : ControllerEnvelope)
    (firstLine firstTick firstY secondLine secondTick secondY : Int) : Option ControllerEnvelope :=
  let firstX := padTime firstLine firstTick
  let secondX := padTime secondLine secondTick
  (erase e.controlPoint firstX secondX).map fun m ↦
    refreshPlaybackData { e with controlPoint := (m.set firstX firstY).set secondX secondY }

/-- `delete_control_point_range`, `src_jni/engine_code/controller_envelope.cc:126–143`. -/
def deleteControlPointRange (e : ControllerEnvelope)
    (firstLine firstTick secondLine secondTick : Int) : Option ControllerEnvelope :=
  (erase e.controlPoint (padTime firstLine firstTick) (padTime secondLine secondTick)).map fun m ↦
    refreshPlaybackData { e with controlPoint := m }

/-- `delete_control_point`, `src_jni/engine_code/controller_envelope.cc:146–155`. -/
def deleteControlPoint (e : ControllerEnvelope) (line tick : Int) : ControllerEnvelope :=
  refreshPlaybackData { e with
    controlPoint := e.controlPoint.keep fun n ↦ n.key ≠ padTime line tick }

/-- The points that are read, `src_jni/engine_code/controller_envelope.cc:182–198`. -/
def xmlPoints (x : EnvelopeXml) : List (Int × Int) :=
  (x.points.map fun p ↦ (p.1.getD (-1), p.2.getD (-1))).filter fun p ↦ !(p.1 = -1 || p.2 = -1)

/-- `read_from_xml`, `src_jni/engine_code/controller_envelope.cc:176–205`; it throws where there is
no `id` or no `enabled`, before it changes anything. -/
def readFromXml (e : ControllerEnvelope) (x : EnvelopeXml) : ControllerEnvelope :=
  match x.id, x.enabled with
  | some _, some enabled =>
    refreshPlaybackData { e with
      controllerCoarse := x.coarse.getD (-1)
      controllerFine := x.fine.getD (-1)
      controlPoint := e.controlPoint.setAll (xmlPoints x)
      enabled := enabled = "true" }
  | _, _ => e

end ControllerEnvelope

/-- What is done to an envelope. Its public members are assigned to in `create_controller_envelopes`,
`src_jni/machine_sequencer.cc:692`, and in the editor. -/
inductive EnvelopeOp
  | processEnvelope (t : Int)
  | setTo (original : ControllerEnvelope)
  | setControlPoint (line tick y : Int)
  | setControlPointLine (firstLine firstTick firstY secondLine secondTick secondY : Int)
  | deleteControlPointRange (firstLine firstTick secondLine secondTick : Int)
  | deleteControlPoint (line tick : Int)
  | readFromXml (x : EnvelopeXml)
  | setMembers (enabled : Bool) (controllerCoarse controllerFine : Int)

/-- One operation on an envelope, with the calls it makes. -/
def ControllerEnvelope.step (e : ControllerEnvelope) :
    EnvelopeOp → Option (Option (List PadCall) × ControllerEnvelope)
  | .processEnvelope t => some (e.processEnvelope t)
  | .setTo original => some (some [], e.setTo original)
  | .setControlPoint line tick y => some (some [], e.setControlPoint line tick y)
  | .setControlPointLine firstLine firstTick firstY secondLine secondTick secondY =>
    (e.setControlPointLine firstLine firstTick firstY secondLine secondTick secondY).map fun e ↦
      (some [], e)
  | .deleteControlPointRange firstLine firstTick secondLine secondTick =>
    (e.deleteControlPointRange firstLine firstTick secondLine secondTick).map fun e ↦ (some [], e)
  | .deleteControlPoint line tick => some (some [], e.deleteControlPoint line tick)
  | .readFromXml x => some (some [], e.readFromXml x)
  | .setMembers enabled controllerCoarse controllerFine =>
    some (some [], { e with
      enabled := enabled
      controllerCoarse := controllerCoarse
      controllerFine := controllerFine })

namespace ControllerEnvelope

/-! ## Where the iterators are -/

@[simp]
theorem seat_controlPoint (e : ControllerEnvelope) (t : Int) :
    (e.seat t).controlPoint = e.controlPoint := by
  rw [seat]
  split <;> rfl

/-- Where there are points: `next_c` is at the end, or both are points, `previous_c` before `next_c`
or both at the first one. -/
def Seated (e : ControllerEnvelope) : Prop :=
  e.controlPoint.nodes ≠ [] → e.nextC = none ∨
    ∃ n ∈ e.controlPoint.nodes, ∃ p ∈ e.controlPoint.nodes, e.nextC = some n.node ∧
      e.previousC = some p.node ∧ (p.key < n.key ∨ p = n ∧ e.controlPoint.first = some n)

/-- Seating the iterators at a tick: past the last point, at the first, or on both sides. -/
theorem seat_cases (e : ControllerEnvelope) (t : Int) :
    (e.controlPoint.lowerBound t = none ∧ (e.seat t).nextC = none) ∨
    ∃ n ∈ e.controlPoint.nodes, e.controlPoint.lowerBound t = some n ∧
      (e.seat t).nextC = some n.node ∧
      ((e.controlPoint.first = some n ∧ (e.seat t).previousC = some n.node) ∨
        ∃ p ∈ e.controlPoint.nodes, e.controlPoint.first ≠ some n ∧
          e.controlPoint.before n.key = some p ∧ (e.seat t).previousC = some p.node) := by
  rw [seat]
  split
  · next hlower => exact .inl ⟨hlower, rfl⟩
  · next n hlower =>
    have hn := (OrderedMap.lowerBound_eq_some_iff.mp hlower).1
    refine .inr ⟨n, hn, hlower, rfl, ?_⟩
    by_cases hfirst : e.controlPoint.first = some n
    · exact .inl ⟨hfirst, if_pos hfirst⟩
    · cases hbefore : e.controlPoint.before n.key with
      | none =>
        have hleast := OrderedMap.before_eq_none_iff.mp hbefore
        exact absurd (OrderedMap.first_eq_some_iff.mpr ⟨hn, hleast⟩) hfirst
      | some p =>
        have hp := (OrderedMap.before_eq_some_iff.mp hbefore).1
        exact .inr ⟨p, hp, hfirst, rfl, by simp only [if_neg hfirst, Option.map_some]⟩

theorem seated_seat (e : ControllerEnvelope) (t : Int) : (e.seat t).Seated := by
  intro _
  rw [seat_controlPoint]
  rcases e.seat_cases t with ⟨-, hnext⟩ | ⟨n, hn, -, hnext, ⟨hfirst, hprevious⟩ | ⟨p, hp, -, hbefore,
    hprevious⟩⟩
  · exact .inl hnext
  · exact .inr ⟨n, hn, n, hn, hnext, hprevious, .inr ⟨rfl, hfirst⟩⟩
  · have hlt := (OrderedMap.before_eq_some_iff.mp hbefore).2.1
    exact .inr ⟨n, hn, p, hp, hnext, hprevious, .inl hlt⟩

theorem seated_refreshPlaybackData (e : ControllerEnvelope) : e.refreshPlaybackData.Seated := by
  rw [refreshPlaybackData]
  split
  · next hempty => exact fun hne ↦ absurd hempty hne
  · exact seated_seat e e.t

theorem Seated.reseat {e : ControllerEnvelope} (h : e.Seated) (t : Int) : (e.reseat t).Seated := by
  rw [ControllerEnvelope.reseat]
  split
  · exact seated_seat e t
  · exact h

@[simp]
theorem reseat_controlPoint (e : ControllerEnvelope) (t : Int) :
    (e.reseat t).controlPoint = e.controlPoint := by
  rw [reseat]
  split
  · exact seat_controlPoint e t
  · rfl

/-- What a call comes to, by where the iterators are. -/
theorem Seated.find_cases {e : ControllerEnvelope} (h : e.Seated) (henabled : e.enabled = true)
    (hpoints : e.controlPoint.nodes ≠ []) (t : Int) :
    ((e.reseat t).nextC = none ∧ e.find t = .nothing) ∨
    ∃ n ∈ e.controlPoint.nodes, ∃ p ∈ e.controlPoint.nodes, (e.reseat t).nextC = some n.node ∧
      (e.reseat t).previousC = some p.node ∧
      (p.key < n.key ∨ p = n ∧ e.controlPoint.first = some n) ∧
      e.find t =
        if t < n.key ∧ e.controlPoint.first = some n then .nothing
        else if n.key = t then .point n
        else .line n (some p.node) := by
  have hseated := h.reseat t
  rw [Seated, reseat_controlPoint] at hseated
  rw [find, if_neg (by simp [henabled, hpoints])]
  rcases hseated hpoints with hnext | ⟨n, hn, p, hp, hnext, hprevious, hside⟩
  · exact .inl ⟨hnext, by rw [hnext]⟩
  · refine .inr ⟨n, hn, p, hp, hnext, hprevious, hside, ?_⟩
    rw [hnext, hprevious]
    simp only [OrderedMap.get_node hn, Bool.and_eq_true, decide_eq_true_eq]

theorem Seated.processEnvelope {e : ControllerEnvelope} (h : e.Seated) (t : Int) :
    (e.processEnvelope t).2.Seated := by
  rw [ControllerEnvelope.processEnvelope]
  by_cases hidle : (!e.enabled || e.controlPoint.nodes = []) = true
  · have hfind : e.find t = .nothing := by rw [find, if_pos hidle]
    simp only [hfind, if_pos hidle]
    exact h
  · simp only [if_neg hidle]
    obtain ⟨henabled, hpoints⟩ : e.enabled = true ∧ e.controlPoint.nodes ≠ [] := by
      simpa using hidle
    have hreseat := h.reseat t
    rcases h.find_cases henabled hpoints t with ⟨-, hfind⟩ | ⟨n, hn, p, hp, -, hprevious, hside, hfind⟩
    · rw [hfind]
      exact hreseat
    · rw [hfind]
      split_ifs
      · exact hreseat
      · -- the point is reached; `next_c` goes on to the one behind it
        intro _
        show (e.controlPoint.upperBound n.key).map MapNode.node = none ∨ _
        simp only [reseat_controlPoint]
        cases hnext : e.controlPoint.upperBound n.key with
        | none => exact .inl rfl
        | some n' =>
          obtain ⟨hn', hlt, -⟩ := OrderedMap.upperBound_eq_some_iff.mp hnext
          have hle : p.key ≤ n.key := by
            rcases hside with hlt | ⟨rfl, -⟩
            · omega
            · exact Int.le_refl _
          exact .inr ⟨n', hn', p, hp, rfl, hprevious, .inl (by omega)⟩
      · exact hreseat

theorem Seated.step {e e' : ControllerEnvelope} {op : EnvelopeOp} {r : Option (List PadCall)}
    (h : e.Seated) (hstep : e.step op = some (r, e')) : e'.Seated := by
  cases op with
  | processEnvelope t =>
    obtain ⟨-, rfl⟩ := Prod.mk.inj (Option.some.inj hstep)
    exact h.processEnvelope t
  | setTo original =>
    obtain ⟨-, rfl⟩ := Prod.mk.inj (Option.some.inj hstep)
    exact seated_refreshPlaybackData _
  | setControlPoint line tick y =>
    obtain ⟨-, rfl⟩ := Prod.mk.inj (Option.some.inj hstep)
    exact seated_refreshPlaybackData _
  | setControlPointLine firstLine firstTick firstY secondLine secondTick secondY =>
    obtain ⟨_, herased, heq⟩ := Option.map_eq_some_iff.mp hstep
    obtain ⟨-, rfl⟩ := Prod.mk.inj heq
    obtain ⟨m, -, rfl⟩ := Option.map_eq_some_iff.mp herased
    exact seated_refreshPlaybackData _
  | deleteControlPointRange firstLine firstTick secondLine secondTick =>
    obtain ⟨_, herased, heq⟩ := Option.map_eq_some_iff.mp hstep
    obtain ⟨-, rfl⟩ := Prod.mk.inj heq
    obtain ⟨m, -, rfl⟩ := Option.map_eq_some_iff.mp herased
    exact seated_refreshPlaybackData _
  | deleteControlPoint line tick =>
    obtain ⟨-, rfl⟩ := Prod.mk.inj (Option.some.inj hstep)
    exact seated_refreshPlaybackData _
  | readFromXml x =>
    obtain ⟨-, rfl⟩ := Prod.mk.inj (Option.some.inj hstep)
    rw [readFromXml]
    split
    · exact seated_refreshPlaybackData _
    · exact h
  | setMembers enabled controllerCoarse controllerFine =>
    obtain ⟨-, rfl⟩ := Prod.mk.inj (Option.some.inj hstep)
    exact h

/-- In every run the iterators are where edits and calls leave them, whatever the memory held. -/
theorem seated_run {t : Int} {nextC previousC : Option Nat} {ops : List EnvelopeOp}
    {e : ControllerEnvelope} (hrun : Run step (fun _ _ _ ↦ True) (new t nextC previousC) ops e) :
    e.Seated :=
  hrun.invariant Seated (fun _ _ _ _ h _ hstep ↦ h.step hstep) fun hne ↦ absurd rfl hne

/-! ## Safety -/

/-- A call of `process_envelope` does not read an iterator that denotes no point, and where it
interpolates, both are points with different ticks. -/
def Safe (e : ControllerEnvelope) (t : Int) : Prop :=
  e.find t ≠ .stale ∧ ∀ n previousC, e.find t = .line n previousC →
    n ∈ e.controlPoint.nodes ∧
      ∃ p ∈ e.controlPoint.nodes, previousC = some p.node ∧ p.key ≠ n.key

/-- `next_c` is the first point, and the tick is behind it. -/
def passedFirst (e : ControllerEnvelope) (t : Int) : Bool :=
  e.enabled && e.controlPoint.first.any fun n ↦ e.nextC = some n.node && n.key < t

theorem passedFirst_eq_true_iff {e : ControllerEnvelope} {t : Int} :
    e.passedFirst t = true ↔ e.enabled = true ∧
      ∃ n, e.controlPoint.first = some n ∧ e.nextC = some n.node ∧ n.key < t := by
  simp only [passedFirst, Bool.and_eq_true, Option.any_eq_true, decide_eq_true_eq]

theorem reseat_of_end {e : ControllerEnvelope} (h : e.nextC = none) (t : Int) :
    e.reseat t = e.seat t :=
  if_pos h

theorem reseat_of_next {e : ControllerEnvelope} {node : Nat} (h : e.nextC = some node) (t : Int) :
    e.reseat t = e := by
  rw [reseat, if_neg (by rw [h]; nofun)]

/-- The point that a call looks at is the one from before, or the first that is not before the tick. -/
theorem next_of_reseat {e : ControllerEnvelope} {t : Int} {n : MapNode Int Int}
    (hn : n ∈ e.controlPoint.nodes) (h : (e.reseat t).nextC = some n.node) :
    e.nextC = some n.node ∨ e.nextC = none ∧ e.controlPoint.lowerBound t = some n := by
  cases hold : e.nextC with
  | some node =>
    rw [reseat_of_next hold, hold] at h
    exact .inl h
  | none =>
    rw [reseat_of_end hold] at h
    rcases e.seat_cases t with ⟨-, hnone⟩ | ⟨q, hq, hlower, hseat, -⟩
    · rw [hnone] at h
      cases h
    · rw [hseat, Option.some.injEq] at h
      obtain rfl := OrderedMap.eq_of_node_eq hq hn h
      exact .inr ⟨rfl, hlower⟩

theorem Seated.safe_iff {e : ControllerEnvelope} (h : e.Seated) (t : Int) :
    e.Safe t ↔ ¬ e.passedFirst t = true := by
  rw [passedFirst_eq_true_iff]
  have hnothing : e.find t = .nothing → e.Safe t := by
    intro hfind
    rw [Safe, hfind]
    exact ⟨nofun, nofun⟩
  by_cases hidle : (!e.enabled || e.controlPoint.nodes = []) = true
  · refine iff_of_true (hnothing (by rw [find, if_pos hidle])) ?_
    rintro ⟨henabled, n, hfirst, -⟩
    rw [henabled, Bool.not_true, Bool.false_or, decide_eq_true_eq] at hidle
    rw [OrderedMap.first_eq_none_iff.mpr hidle] at hfirst
    cases hfirst
  · obtain ⟨henabled, hpoints⟩ : e.enabled = true ∧ e.controlPoint.nodes ≠ [] := by
      simpa using hidle
    rcases h.find_cases henabled hpoints t with ⟨hnext, hfind⟩ | ⟨n, hn, p, hp, hnext, hprevious,
      hside, hfind⟩
    · refine iff_of_true (hnothing hfind) ?_
      rintro ⟨-, n, -, hat, -⟩
      rw [reseat_of_next hat, hat] at hnext
      cases hnext
    · -- where `next_c` is the first point, it is the one the call looks at
      have hlooks : ∀ first, e.controlPoint.first = some first → e.nextC = some first.node →
          first = n := by
        intro first hfirst hat
        rw [reseat_of_next hat, hat, Option.some.injEq] at hnext
        exact OrderedMap.eq_of_node_eq (OrderedMap.first_eq_some_iff.mp hfirst).1 hn hnext
      rw [Safe, hfind]
      split_ifs with hbefore hat
      · refine iff_of_true ⟨nofun, nofun⟩ ?_
        rintro ⟨-, first, hfirst, hnextC, hlt⟩
        rw [hlooks first hfirst hnextC] at hlt
        omega
      · refine iff_of_true ⟨nofun, nofun⟩ ?_
        rintro ⟨-, first, hfirst, hnextC, hlt⟩
        rw [hlooks first hfirst hnextC] at hlt
        omega
      · rcases hside with hlt | ⟨rfl, hfirst⟩
        · refine iff_of_true ⟨nofun, fun _ _ heq ↦ ?_⟩ ?_
          · obtain ⟨rfl, rfl⟩ := Found.line.inj heq
            exact ⟨hn, p, hp, rfl, Int.ne_of_lt hlt⟩
          · rintro ⟨-, first, hfirst, hnextC, -⟩
            have hleast := (OrderedMap.first_eq_some_iff.mp hfirst).2 p hp
            rw [hlooks first hfirst hnextC] at hleast
            omega
        · refine iff_of_false ?_ (not_not.mpr ⟨henabled, p, hfirst, ?_, ?_⟩)
          · rintro ⟨-, hline⟩
            obtain ⟨-, q, hq, hnode, hne⟩ := hline p (some p.node) rfl
            exact hne (congrArg MapNode.key
              (OrderedMap.eq_of_node_eq hq hp (Option.some.inj hnode).symm))
          · -- had the iterators been seated in this call, the first point would not be passed
            refine (next_of_reseat hp hnext).resolve_right ?_
            rintro ⟨-, hlower⟩
            have hle := (OrderedMap.lowerBound_eq_some_iff.mp hlower).2.1
            exact hbefore ⟨by omega, hfirst⟩
          · have hnot : ¬ t < p.key := fun hlt ↦ hbefore ⟨hlt, hfirst⟩
            omega

/-- However edits and calls follow each other: a call uses no iterator that denotes no point, and it
does not divide by zero, exactly unless `next_c` is the first point and the tick is behind it. -/
theorem envelope_safe {t₀ : Int} {nextC previousC : Option Nat} {ops : List EnvelopeOp}
    {e : ControllerEnvelope} (hrun : Run step (fun _ _ _ ↦ True) (new t₀ nextC previousC) ops e)
    (t : Int) : e.Safe t ↔ ¬ e.passedFirst t = true :=
  (seated_run hrun).safe_iff t

/-- Two points, the first of which has been played. -/
theorem envelope_safe_played : ∃ e, Run step (fun _ _ _ ↦ True) (new 0 none none)
      [.setControlPoint 0 0 100, .setControlPoint 1 0 1700, .processEnvelope 0] e ∧
    e.passedFirst 8 = false ∧ e.Safe 8 := by
  have hsome : (runAll step (fun _ _ _ ↦ true) (new 0 none none) [.setControlPoint 0 0 100,
      .setControlPoint 1 0 1700, .processEnvelope 0]).map (fun e ↦ e.passedFirst 8) =
        some false := by
    decide +kernel
  obtain ⟨e, he, hpassed⟩ := Option.map_eq_some_iff.mp hsome
  have hrun := (Run.of_runAll he).mono fun _ _ _ _ ↦ trivial
  exact ⟨e, hrun, hpassed, (envelope_safe hrun 8).mpr (by rw [hpassed]; nofun)⟩

/-- Play starts behind the only point: both iterators are there, at the tick 5. -/
theorem started_behind_point : ¬ ∀ (t₀ : Int) (nextC previousC : Option Nat)
    (ops : List EnvelopeOp) (e : ControllerEnvelope) (t : Int), 0 ≤ t →
    Run step (fun _ _ _ ↦ True) (new t₀ nextC previousC) ops e → e.Safe t := by
  intro hall
  have hfind : ((new 0 none none).setControlPoint 0 5 100).find 6 = .line ⟨0, 5, 100⟩ (some 0) := by
    decide +kernel
  have hpoints : ((new 0 none none).setControlPoint 0 5 100).controlPoint.nodes =
      [⟨0, 5, 100⟩] := by
    decide +kernel
  obtain ⟨-, p, hp, -, hne⟩ := (hall 0 none none [.setControlPoint 0 5 100] _ 6 (by decide)
    (.cons rfl trivial (.nil _))).2 _ _ hfind
  rw [hpoints, List.mem_singleton] at hp
  exact hne (congrArg MapNode.key hp)

/-! ## The line through the points -/

/-- The value of the line through the points at a tick: that of the point there, or the one on the
way from the nearest point before to the nearest after it; none outside of the points. -/
def Value (points : List (MapNode Int Int)) (t : Int) : Option Int → Prop
  | some y =>
    (∃ n ∈ points, n.key = t ∧ n.value = y) ∨
      ∃ p ∈ points, ∃ n ∈ points, p.key < t ∧ t < n.key ∧
        (∀ q ∈ points, q.key ≤ p.key ∨ n.key ≤ q.key) ∧
        y = p.value + ((n.value - p.value) * (t - p.key)).tdiv (n.key - p.key)
  | none => (∀ q ∈ points, t < q.key) ∨ ∀ q ∈ points, q.key < t

/-- What a call has to come to. -/
def due (e : ControllerEnvelope) (t : Int) : Found :=
  match e.controlPoint.lowerBound t with
  | none => .nothing
  | some n =>
    if n.key = t then .point n
    else
      match e.controlPoint.before t with
      | none => .nothing
      | some p => .line n (some p.node)

/-- The iterators are at the tick: there are no points, `next_c` is at the end or is the point at
the tick, or it is behind the tick and the first point, or `previous_c` is the point right before it
and before the tick. -/
def tracks (e : ControllerEnvelope) (t : Int) : Bool :=
  e.controlPoint.nodes = [] ||
    match e.nextC with
    | none => true
    | some node =>
      (e.controlPoint.get node).any fun n ↦
        n.key = t || (t < n.key && (e.controlPoint.first = some n ||
          (e.controlPoint.before n.key).any fun p ↦ e.previousC = some p.node && p.key < t))

/-- The values of the points on both sides of the tick, the differences between them and the product
of the differences are in the range of an `int`. -/
def fits (e : ControllerEnvelope) (t : Int) : Bool :=
  match e.controlPoint.before t, e.controlPoint.lowerBound t with
  | some p, some n =>
    n.key = t || [p.value, n.value, n.value - p.value, t - p.key, n.key - p.key,
      (n.value - p.value) * (t - p.key)].all fun x ↦ -2 ^ 31 ≤ x && x < 2 ^ 31
  | _, _ => true

/-- The value on a line is between those of its ends. -/
theorem tdiv_line {rise elapsed width : Int} (h : 0 < elapsed) (hw : elapsed < width) :
    (0 ≤ rise → 0 ≤ (rise * elapsed).tdiv width ∧ (rise * elapsed).tdiv width ≤ rise) ∧
      (rise ≤ 0 → rise ≤ (rise * elapsed).tdiv width ∧ (rise * elapsed).tdiv width ≤ 0) := by
  have hup : ∀ rise : Int, 0 ≤ rise →
      0 ≤ (rise * elapsed).tdiv width ∧ (rise * elapsed).tdiv width ≤ rise := by
    intro rise hrise
    have hproduct : 0 ≤ rise * elapsed := Int.mul_nonneg hrise (Int.le_of_lt h)
    refine ⟨Int.tdiv_nonneg hproduct (by omega), ?_⟩
    rw [Int.tdiv_eq_ediv_of_nonneg hproduct]
    refine Int.ediv_le_of_le_mul (by omega) ?_
    exact Int.mul_le_mul_of_nonneg_left (Int.le_of_lt hw) hrise
  refine ⟨hup rise, fun hrise ↦ ?_⟩
  have hneg := hup (-rise) (by omega)
  rw [Int.neg_mul, Int.neg_tdiv] at hneg
  omega

/-- Where everything fits, the source computes the value on the line. -/
theorem interpolate_eq {p n : MapNode Int Int} {t : Int} (hp : p.key < t) (hn : t < n.key)
    (hfits : ∀ x ∈ [p.value, n.value, n.value - p.value, t - p.key, n.key - p.key,
      (n.value - p.value) * (t - p.key)], -2 ^ 31 ≤ x ∧ x < 2 ^ 31) :
    interpolate p n t =
      some (p.value + ((n.value - p.value) * (t - p.key)).tdiv (n.key - p.key)) := by
  simp only [List.forall_mem_cons, List.not_mem_nil, false_implies, implies_true, and_true] at hfits
  obtain ⟨hpv, hnv, hrise, helapsed, hwidth, hproduct⟩ := hfits
  have hline := @tdiv_line (n.value - p.value) (t - p.key) (n.key - p.key) (by omega) (by omega)
  have hsum : -2 ^ 31 ≤ p.value + ((n.value - p.value) * (t - p.key)).tdiv (n.key - p.key) ∧
      p.value + ((n.value - p.value) * (t - p.key)).tdiv (n.key - p.key) < 2 ^ 31 := by
    rcases Int.le_total 0 (n.value - p.value) with hup | hdown
    · have := hline.1 hup
      omega
    · have := hline.2 hdown
      omega
  rw [interpolate, int_of_fits hrise, Option.bind_eq_bind, Option.bind_some, int_of_fits helapsed]
  simp only [Option.bind_some, int_of_fits hproduct, int_of_fits hwidth]
  rw [if_neg (by omega), int_tdiv hproduct (by omega), Option.bind_some, int_of_fits hsum]

/-- What a call has to come to is the value of the line. -/
theorem due_value {e : ControllerEnvelope} {t : Int} (hfits : e.fits t = true) :
    match e.due t with
    | .nothing => Value e.controlPoint.nodes t none
    | .stale => False
    | .point n => Value e.controlPoint.nodes t (some n.value)
    | .line n previousC => ∃ p y, previousC.bind e.controlPoint.get = some p ∧
      interpolate p n t = some y ∧ Value e.controlPoint.nodes t (some y) := by
  rw [fits] at hfits
  rw [due]
  cases hlower : e.controlPoint.lowerBound t with
  | none => exact .inr (OrderedMap.lowerBound_eq_none_iff.mp hlower)
  | some n =>
    obtain ⟨hn, hle, hleast⟩ := OrderedMap.lowerBound_eq_some_iff.mp hlower
    by_cases hat : n.key = t
    · simp only [if_pos hat]
      exact .inl ⟨n, hn, hat, rfl⟩
    · simp only [if_neg hat]
      cases hbefore : e.controlPoint.before t with
      | none =>
        refine .inl fun q hq ↦ ?_
        have hge := OrderedMap.before_eq_none_iff.mp hbefore q hq
        have := hleast q hq hge
        omega
      | some p =>
        obtain ⟨hp, hlt, hgreatest⟩ := OrderedMap.before_eq_some_iff.mp hbefore
        simp only [hlower, hbefore, hat, decide_false, Bool.false_or, List.all_eq_true,
          Bool.and_eq_true, decide_eq_true_eq] at hfits
        refine ⟨p, _, OrderedMap.get_node hp, interpolate_eq hlt (by omega) hfits, .inr ?_⟩
        refine ⟨p, hp, n, hn, hlt, by omega, fun q hq ↦ ?_, rfl⟩
        rcases Int.lt_or_le q.key t with hq' | hq'
        · exact .inl (hgreatest q hq hq')
        · exact .inr (hleast q hq hq')

/-- Iterators that are seated in a call lead it to what it has to come to. -/
theorem due_of_seat {e : ControllerEnvelope} {t : Int} {n p : MapNode Int Int}
    (hn : n ∈ e.controlPoint.nodes) (hp : p ∈ e.controlPoint.nodes)
    (hlower : e.controlPoint.lowerBound t = some n) (hprevious : (e.seat t).previousC = some p.node) :
    e.due t =
      if t < n.key ∧ e.controlPoint.first = some n then .nothing
      else if n.key = t then .point n
      else .line n (some p.node) := by
  have hle := (OrderedMap.lowerBound_eq_some_iff.mp hlower).2.1
  rw [due, hlower]
  dsimp only
  by_cases hat : n.key = t
  · rw [if_pos hat, if_neg (by omega), if_pos hat]
  · rw [if_neg hat]
    by_cases hfirst : e.controlPoint.first = some n
    · rw [if_pos ⟨by omega, hfirst⟩, OrderedMap.before_of_first hfirst hle]
    · rw [if_neg fun h ↦ hfirst h.2, if_neg hat]
      rcases e.seat_cases t with ⟨hnone, -⟩ | ⟨q, hq, hlower', -, ⟨hfirst', -⟩ | ⟨p', hp', -, hbefore,
        hprevious'⟩⟩
      · rw [hlower] at hnone
        cases hnone
      · rw [hlower, Option.some.injEq] at hlower'
        rw [hlower'] at hfirst
        exact absurd hfirst' hfirst
      · rw [hlower, Option.some.injEq] at hlower'
        subst hlower'
        rw [hprevious', Option.some.injEq] at hprevious
        obtain rfl := OrderedMap.eq_of_node_eq hp' hp hprevious
        obtain ⟨-, hlt, -⟩ := OrderedMap.before_eq_some_iff.mp hbefore
        have hpt : p'.key < t := by
          by_contra hge
          have := (OrderedMap.lowerBound_eq_some_iff.mp hlower).2.2 p' hp' (by omega)
          omega
        rw [((OrderedMap.neighbours_iff hn).mp ⟨hbefore, hpt, by omega⟩).2.2]

theorem due_eq_line_iff {e : ControllerEnvelope} {t : Int} {n : MapNode Int Int}
    {previousC : Option Nat} : e.due t = .line n previousC ↔
      e.controlPoint.lowerBound t = some n ∧ n.key ≠ t ∧
        ∃ p, e.controlPoint.before t = some p ∧ previousC = some p.node := by
  rw [due]
  cases e.controlPoint.lowerBound t with
  | none => exact ⟨nofun, fun h ↦ absurd h.1 nofun⟩
  | some q =>
    by_cases hat : q.key = t
    · simp only [if_pos hat, Option.some.injEq]
      exact ⟨nofun, fun ⟨heq, hne, _⟩ ↦ absurd (heq ▸ hat) hne⟩
    · simp only [if_neg hat]
      cases e.controlPoint.before t with
      | none => exact ⟨nofun, fun ⟨_, _, _, h, _⟩ ↦ absurd h nofun⟩
      | some p =>
        simp only [Found.line.injEq, Option.some.injEq]
        constructor
        · rintro ⟨rfl, rfl⟩
          exact ⟨rfl, hat, p, rfl, rfl⟩
        · rintro ⟨rfl, -, _, rfl, rfl⟩
          exact ⟨rfl, rfl⟩

/-- A call comes to what it has to exactly if the iterators are at the tick. -/
theorem Seated.find_eq_due_iff {e : ControllerEnvelope} (h : e.Seated) (henabled : e.enabled = true)
    (t : Int) : e.find t = e.due t ↔ e.tracks t = true := by
  by_cases hpoints : e.controlPoint.nodes = []
  · have hlower : e.controlPoint.lowerBound t = none := by
      rw [OrderedMap.lowerBound_eq_none_iff, hpoints]
      nofun
    refine iff_of_true ?_ (by rw [tracks, hpoints]; rfl)
    rw [find, if_pos (by simp [hpoints]), due, hlower]
  · rcases h.find_cases henabled hpoints t with ⟨hnext, hfind⟩ | ⟨n, hn, p, hp, hnext, hprevious,
      hside, hfind⟩
    · have hold : e.nextC = none := by
        cases hold : e.nextC with
        | none => rfl
        | some node =>
          rw [reseat_of_next hold, hold] at hnext
          cases hnext
      rw [reseat_of_end hold] at hnext
      refine iff_of_true ?_ (by simp [tracks, hold])
      rcases e.seat_cases t with ⟨hlower, -⟩ | ⟨n, -, -, hseat, -⟩
      · rw [hfind, due, hlower]
      · rw [hseat] at hnext
        cases hnext
    · rcases next_of_reseat hn hnext with hold | ⟨hold, hlower⟩
      · rw [reseat_of_next hold] at hprevious
        have htracks : e.tracks t = true ↔ n.key = t ∨ t < n.key ∧ (e.controlPoint.first = some n ∨
            ∃ q, e.controlPoint.before n.key = some q ∧ e.previousC = some q.node ∧ q.key < t) := by
          simp [tracks, hpoints, hold, OrderedMap.get_node hn, Option.any_eq_true]
        rw [htracks, hfind]
        by_cases hfirst : t < n.key ∧ e.controlPoint.first = some n
        · refine iff_of_true ?_ (.inr ⟨hfirst.1, .inl hfirst.2⟩)
          rw [if_pos hfirst, due, OrderedMap.lowerBound_of_first hfirst.2 (by omega)]
          dsimp only
          rw [if_neg (by omega), OrderedMap.before_of_first hfirst.2 (by omega)]
        · rw [if_neg hfirst]
          by_cases hat : n.key = t
          · refine iff_of_true ?_ (.inl hat)
            rw [if_pos hat, due, ← hat, OrderedMap.lowerBound_key hn]
            exact (if_pos rfl).symm
          · rw [if_neg hat, eq_comm, due_eq_line_iff]
            constructor
            · rintro ⟨hlower, hne, q, hbefore, hnode⟩
              obtain ⟨hbefore', hlt, hgt⟩ := (OrderedMap.neighbours_iff hn).mpr ⟨hlower, hne, hbefore⟩
              exact .inr ⟨hgt, .inr ⟨q, hbefore', hprevious.trans hnode, hlt⟩⟩
            · rintro (heq | ⟨hgt, hleast | ⟨q, hbefore, hnode, hlt⟩⟩)
              · exact absurd heq hat
              · exact absurd ⟨hgt, hleast⟩ hfirst
              · obtain ⟨hlower, hne, hbefore'⟩ := (OrderedMap.neighbours_iff hn).mp ⟨hbefore, hlt, hgt⟩
                exact ⟨hlower, hne, q, hbefore', hprevious.symm.trans hnode⟩
      · rw [reseat_of_end hold] at hprevious
        refine iff_of_true ?_ (by simp [tracks, hold])
        rw [hfind, due_of_seat hn hp hlower hprevious]

/-- A call that comes to what it has to makes the calls for the value of the line. -/
theorem processEnvelope_of_due {e : ControllerEnvelope} {t : Int} (hfind : e.find t = e.due t)
    (hfits : e.fits t = true) : ∃ value, Value e.controlPoint.nodes t value ∧
      (e.processEnvelope t).1 = some (value.elim [] e.calls) := by
  have hdue := due_value hfits
  rw [processEnvelope, hfind]
  cases heq : e.due t with
  | nothing =>
    rw [heq] at hdue
    exact ⟨none, hdue, rfl⟩
  | stale =>
    rw [heq] at hdue
    exact hdue.elim
  | point n =>
    rw [heq] at hdue
    exact ⟨some n.value, hdue, rfl⟩
  | line n previousC =>
    rw [heq] at hdue
    obtain ⟨p, y, hp, hy, hvalue⟩ := hdue
    refine ⟨some y, hvalue, ?_⟩
    simp only [hp, Option.bind_some, hy, Option.map_some, Option.elim_some]

/-- However edits and calls follow each other: a call of an enabled envelope looks at the points that
make the value at the tick exactly if its iterators are at the tick. Then it makes the calls for the
value of the line through the points, if the numbers fit, and none outside of the points. -/
theorem envelope_plays {t₀ : Int} {nextC previousC : Option Nat} {ops : List EnvelopeOp}
    {e : ControllerEnvelope} (hrun : Run step (fun _ _ _ ↦ True) (new t₀ nextC previousC) ops e)
    (t : Int) (henabled : e.enabled = true) :
    (e.find t = e.due t ↔ e.tracks t = true) ∧
      (e.tracks t = true → e.fits t = true → ∃ value, Value e.controlPoint.nodes t value ∧
        (e.processEnvelope t).1 = some (value.elim [] e.calls)) := by
  have hiff := (seated_run hrun).find_eq_due_iff henabled t
  exact ⟨hiff, fun htracks ↦ processEnvelope_of_due (hiff.mpr htracks)⟩

/-- From one point to the next. -/
theorem envelope_plays_line : ∃ e, Run step (fun _ _ _ ↦ True) (new 0 none none)
      [.setMembers true 7 (-1), .setControlPoint 0 0 0, .setControlPoint 1 0 1600,
        .processEnvelope 0] e ∧
    (e.processEnvelope 4).1 = some [.queueController 7 3] ∧
    ∃ value, Value e.controlPoint.nodes 4 value ∧
      (e.processEnvelope 4).1 = some (value.elim [] e.calls) := by
  have hsome : (runAll step (fun _ _ _ ↦ true) (new 0 none none) [.setMembers true 7 (-1),
      .setControlPoint 0 0 0, .setControlPoint 1 0 1600, .processEnvelope 0]).map
      (fun e ↦ (e.enabled, e.tracks 4, e.fits 4, (e.processEnvelope 4).1)) =
        some (true, true, true, some [.queueController 7 3]) := by
    decide +kernel
  obtain ⟨e, he, hdata⟩ := Option.map_eq_some_iff.mp hsome
  simp only [Prod.mk.injEq] at hdata
  obtain ⟨henabled, htracks, hfits, hcalls⟩ := hdata
  have hrun := (Run.of_runAll he).mono fun _ _ _ _ ↦ trivial
  exact ⟨e, hrun, hcalls, (envelope_plays hrun 4 henabled).2 htracks hfits⟩

/-- The value stays the same from the second point to the third; the call after the second goes on
from the first. -/
theorem previous_not_advanced : ¬ ∀ (t₀ : Int) (nextC previousC : Option Nat)
    (ops : List EnvelopeOp) (e : ControllerEnvelope) (t : Int),
    Run step (fun _ _ _ ↦ True) (new t₀ nextC previousC) ops e → e.enabled = true →
    ∃ value, Value e.controlPoint.nodes t value ∧
      (e.processEnvelope t).1 = some (value.elim [] e.calls) := by
  intro hall
  have hsome : (runAll step (fun _ _ _ ↦ true) (new 0 none none) [.setMembers true 7 (-1),
      .setControlPoint 0 0 0, .setControlPoint 0 1 1600, .setControlPoint 0 3 1600,
      .processEnvelope 0, .processEnvelope 1]).map (fun e ↦ (e.enabled, e.controlPoint.nodes,
        e.calls 1600, (e.processEnvelope 2).1)) =
      some (true, [⟨0, 0, 0⟩, ⟨1, 1, 1600⟩, ⟨2, 3, 1600⟩], [.queueController 7 12],
        some [.queueController 7 8]) := by
    decide +kernel
  obtain ⟨e, he, hdata⟩ := Option.map_eq_some_iff.mp hsome
  simp only [Prod.mk.injEq] at hdata
  obtain ⟨henabled, hpoints, hexpected, hcalls⟩ := hdata
  obtain ⟨value, hvalue, heq⟩ := hall 0 none none _ e 2
    ((Run.of_runAll he).mono fun _ _ _ _ ↦ trivial) henabled
  rw [hpoints] at hvalue
  rw [hcalls, Option.some.injEq] at heq
  cases value with
  | none => cases heq
  | some y =>
    have hy : y = 1600 := by
      rcases hvalue with ⟨n, hn, hkey, -⟩ | ⟨p, hp, n, hn, hlt, hgt, hnear, rfl⟩
      · exact absurd ⟨n, hn, hkey⟩ (by decide : ¬ ∃ n ∈ [(⟨0, 0, 0⟩ : MapNode Int Int), ⟨1, 1, 1600⟩,
          ⟨2, 3, 1600⟩], n.key = 2)
      · have hsecond := hnear ⟨1, 1, 1600⟩ (by decide)
        clear hnear
        simp only [List.mem_cons, List.not_mem_nil, or_false] at hp hn
        rcases hp with rfl | rfl | rfl <;> rcases hn with rfl | rfl | rfl <;> revert hlt hgt hsecond <;>
          decide
    rw [Option.elim_some, hy, hexpected] at heq
    cases heq

end ControllerEnvelope

end Vuknob
