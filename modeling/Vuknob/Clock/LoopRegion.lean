import Vuknob.Clock.Ticks
import Vuknob.Library.Runs

/-!
# The loop region

`set_loop_start` moves the start and leaves the stop where it is, so that it can make the
region shorter than `set_loop_length` allows, `src_jni/machine.cc:2098–2114`; `jump_to` sends a
position behind the region to its start but takes the stop itself for a position inside,
`src_jni/machine.cc:2031–2036`. All other operations keep to the region.
-/

namespace Vuknob

open Library

namespace Transport

variable {t t' : Transport} {call : TransportCall} {r : TransportResult}

/-- The length of the loop is one that `set_loop_length` accepts. -/
def LongEnough (t : Transport) : Prop := ∃ n, t.getLoopLength = some n ∧ 4 ≤ n

/-- The next line is in the loop region. -/
def Inside (t : Transport) : Prop :=
  t.loopStart ≤ t.nextSequencePosition ∧ t.nextSequencePosition < t.loopStop

/-- The calls that are to leave the clock in the loop region while looping is on. -/
def EntersRegion (t : Transport) : TransportCall → Prop
  | .jumpTo _ | .rewind => True
  | .fillSink _ => t.Inside
  | _ => False

/-- After the call the loop is long enough, and the clock in the region where it is to be. -/
def KeepsRegion (t : Transport) (call : TransportCall) (r : TransportResult) : Prop :=
  ∀ t', t.step call = some (r, t') →
    t'.LongEnough ∧ (t'.doLoop = true → t.EntersRegion call → t'.Inside)

/-- A new start is at least four lines in front of the stop, and no jump goes to the stop while
looping is on. -/
def MindsStop (t : Transport) (call : TransportCall) (_ : TransportResult) : Prop :=
  match call with
  | .setLoopStart line => 0 ≤ line.toInt → line.toInt + 4 ≤ t.loopStop
  | .jumpTo position => t.doLoop = true → position.toInt ≠ t.loopStop
  | _ => True

/-- The region as the setters leave it. -/
structure Proper (t : Transport) : Prop where
  start : 0 ≤ t.loopStart
  long : t.loopStart + 4 ≤ t.loopStop
  stop : t.loopStop < 2 ^ 31

theorem Proper.longEnough (h : t.Proper) : t.LongEnough := by
  obtain ⟨hstart, hlong, hstop⟩ := h
  exact ⟨_, int_of_fits (by omega), by omega⟩

theorem longEnough_iff (hstart : 0 ≤ t.loopStart ∧ t.loopStart < 2 ^ 31)
    (hstop : 0 ≤ t.loopStop ∧ t.loopStop < 2 ^ 31) :
    t.LongEnough ↔ t.loopStart + 4 ≤ t.loopStop := by
  rw [LongEnough, getLoopLength, int_of_fits (by omega)]
  simp only [Option.some.injEq, exists_eq_left']
  omega

/-- A call that moves neither start nor stop keeps a proper region. -/
private theorem Proper.congr (h : t.Proper) (hstart : t'.loopStart = t.loopStart)
    (hstop : t'.loopStop = t.loopStop) : t'.Proper := by
  obtain ⟨h1, h2, h3⟩ := h
  exact ⟨by rw [hstart]; exact h1, by rw [hstart, hstop]; exact h2, by rw [hstop]; exact h3⟩

/-- A buffer is filled within the region if it is started there. -/
private theorem inside_of_fillSink {fuel : Nat} (h : t.step (.fillSink fuel) = some (r, t'))
    (hloop : t.doLoop = true) (hlt : t.loopStart < t.loopStop) (hin : t.Inside) : t'.Inside := by
  obtain ⟨s, hs, ht'⟩ := fillSink_cases h
  obtain ⟨⟨spt, sptf, rfl⟩, -⟩ := calculateSamplesPerTick_eq hs
  obtain ⟨⟨_, _, _, hsame⟩, -, x, hx, -, hline⟩ :=
    calculateNextTickAtAndSequencePosition_eq ht'
  have hx' : t.loopStart ≤ x.nextSequencePosition ∧ x.nextSequencePosition < t.loopStop := by
    refine tickLoop_invariant
      (P := fun x ↦ t.loopStart ≤ x.nextSequencePosition ∧ x.nextSequencePosition < t.loopStop)
      ?_ hx hin
    intro y y' hy hbody
    rcases tickBody_position hbody with hline | hline
    · rwa [hline]
    · exact nextLine_mem hline hloop hlt hy
  rw [Inside, hline, hsame]
  exact hx'

private theorem keepsRegion_iff (h : t.step call = some (r, t')) :
    t.KeepsRegion call r ↔
      t'.LongEnough ∧ (t'.doLoop = true → t.EntersRegion call → t'.Inside) := by
  constructor
  · intro hk
    exact hk t' h
  · intro hk s hs
    obtain ⟨-, rfl⟩ := Prod.mk.inj (Option.some.inj (h.symm.trans hs))
    exact hk

/-- The calls that move neither start nor stop and cannot leave the region. -/
private theorem Proper.step_of_same (hp : t.Proper) (hstart : t'.loopStart = t.loopStart)
    (hstop : t'.loopStop = t.loopStop) (hminds : t.MindsStop call r)
    (hin : t'.doLoop = true → t.EntersRegion call → t'.Inside) :
    (t.MindsStop call r ↔
      t'.LongEnough ∧ (t'.doLoop = true → t.EntersRegion call → t'.Inside)) ∧
      (t.MindsStop call r → t'.Proper) := by
  have hp' := hp.congr hstart hstop
  exact ⟨⟨fun _ ↦ ⟨hp'.longEnough, hin⟩, fun _ ↦ hminds⟩, fun _ ↦ hp'⟩

private theorem inside_jumpTo (hp : t.Proper) (position : Int) (hloop : t.doLoop = true) :
    (t.jumpTo position).Inside ↔ position ≠ t.loopStop := by
  obtain ⟨hstart, hlong, hstop⟩ := hp
  simp only [Inside, jumpTo, hloop, if_true]
  split
  · omega
  · split <;> omega

/-- From a proper region a call keeps to the region exactly when it minds the stop. -/
theorem Proper.step (hp : t.Proper) (h : t.step call = some (r, t')) :
    (t.MindsStop call r ↔ t.KeepsRegion call r) ∧ (t.MindsStop call r → t'.Proper) := by
  rw [keepsRegion_iff h]
  cases call with
  | setLoopStart line =>
    simp only [Transport.step] at h
    split at h
    · next hneg =>
      obtain ⟨-, rfl⟩ := Prod.mk.inj (Option.some.inj h)
      exact hp.step_of_same rfl rfl (fun hpos ↦ by omega) (fun _ henters ↦ henters.elim)
    · next hpos =>
      obtain ⟨-, rfl⟩ := Prod.mk.inj (Option.some.inj h)
      obtain ⟨hstart, hlong, hstop⟩ := hp
      have hlt := line.toInt_lt
      have hiff : LongEnough { t with loopStart := line.toInt } ↔
          line.toInt + 4 ≤ t.loopStop := longEnough_iff ⟨by simp only; omega, hlt⟩ (by
            simp only
            omega)
      rw [hiff]
      refine ⟨⟨fun hm ↦ ⟨hm (by omega), fun _ henters ↦ henters.elim⟩, fun hk _ ↦ hk.1⟩, fun hm ↦ ?_⟩
      exact ⟨by simp only; omega, hm (by omega), hstop⟩
  | setLoopLength n =>
    simp only [Transport.step] at h
    split at h
    · obtain ⟨-, rfl⟩ := Prod.mk.inj (Option.some.inj h)
      exact hp.step_of_same rfl rfl trivial (fun _ henters ↦ henters.elim)
    · next hn =>
      simp only [Option.map_eq_some_iff, int_eq_some_iff, Prod.mk.injEq] at h
      obtain ⟨stop, ⟨hfits, rfl⟩, -, rfl⟩ := h
      have hp' : Proper { t with loopStop := t.loopStart + n.toInt } :=
        ⟨hp.start, by simp only; omega, hfits.2⟩
      exact ⟨⟨fun _ ↦ ⟨hp'.longEnough, fun _ henters ↦ henters.elim⟩, fun _ ↦ trivial⟩, fun _ ↦ hp'⟩
  | jumpTo position =>
    obtain ⟨-, rfl⟩ := Prod.mk.inj (Option.some.inj h)
    have hp' : (t.jumpTo position.toInt).Proper := hp.congr rfl rfl
    refine ⟨⟨fun hm ↦ ⟨hp'.longEnough, fun hloop _ ↦ ?_⟩, fun hk hloop ↦ ?_⟩, fun _ ↦ hp'⟩
    · exact (inside_jumpTo hp _ hloop).mpr (hm hloop)
    · exact (inside_jumpTo hp _ hloop).mp (hk.2 hloop trivial)
  | rewind =>
    obtain ⟨-, rfl⟩ := Prod.mk.inj (Option.some.inj h)
    refine hp.step_of_same rfl rfl trivial fun hloop _ ↦ ?_
    have hdo : t.doLoop = true := hloop
    have hlong := hp.long
    simp only [Inside, Transport.rewind, resetGlobalPlaybackParameters, hdo, if_true]
    omega
  | fillSink fuel =>
    obtain ⟨_, _, _, _, _, hsame⟩ := sameSettings_of_fillSink h
    refine hp.step_of_same (by rw [hsame]) (by rw [hsame]) trivial fun hloop hin ↦ ?_
    have hlong := hp.long
    exact inside_of_fillSink h (by rw [hsame] at hloop; exact hloop) (by omega) hin
  | setDefaults d samples frequency =>
    simp only [Transport.step, Option.ite_none_left_eq_some, Option.some.injEq, Prod.mk.injEq] at h
    obtain ⟨-, -, rfl⟩ := h
    exact hp.step_of_same rfl rfl trivial (fun _ henters ↦ henters.elim)
  | createSignal d =>
    simp only [Transport.step, Option.map_eq_some_iff, Prod.mk.injEq] at h
    obtain ⟨_, -, -, rfl⟩ := h
    exact hp.step_of_same rfl rfl trivial (fun _ henters ↦ henters.elim)
  | setBpm bpm | setLpb lpb =>
    simp only [Transport.step] at h
    split at h
    all_goals
      obtain ⟨-, rfl⟩ := Prod.mk.inj (Option.some.inj h)
      exact hp.step_of_same rfl rfl trivial (fun _ henters ↦ henters.elim)
  | setLoopState _ | setShuffleFactor _ | play | stop =>
    obtain ⟨-, rfl⟩ := Prod.mk.inj (Option.some.inj h)
    exact hp.step_of_same rfl rfl trivial (fun _ henters ↦ henters.elim)

theorem proper_initial : initial.Proper := ⟨by decide, by decide, by decide⟩

/-- From the start of the program on, a run keeps to the loop region exactly when it minds the
stop at every call; then the loop is long enough in every state that is reached. -/
theorem loopRegion_iff (calls : List TransportCall) (t : Transport) :
    (Run Transport.step MindsStop initial calls t ↔
      Run Transport.step KeepsRegion initial calls t) ∧
    (Run Transport.step MindsStop initial calls t → t.LongEnough) := by
  constructor
  · refine Run.iff_of_invariant Proper ?_ ?_ proper_initial
    · intro t call r t' hp h
      exact (hp.step h).1
    · intro t call r t' hp hm h
      exact (hp.step h).2 hm
  · intro hrun
    refine (hrun.invariant Proper ?_ proper_initial).longEnough
    intro t call r t' hp hm h
    exact (hp.step h).2 hm

/-- At the start of the program, moving the start to line 62 leaves a loop of two lines, and a
jump to line 64 leaves the region. -/
theorem loopRegion_left :
    (∃ t, initial.step (.setLoopStart 62) = some (.returned, t) ∧ t.getLoopLength = some 2 ∧
        ¬ initial.KeepsRegion (.setLoopStart 62) .returned) ∧
      ∃ t, initial.step (.jumpTo 64) = some (.returned, t) ∧ t.doLoop = true ∧
        t.nextSequencePosition = t.loopStop ∧ ¬ initial.KeepsRegion (.jumpTo 64) .returned := by
  refine ⟨⟨{ initial with loopStart := 62 }, rfl, rfl, fun hk ↦ ?_⟩,
    ⟨initial.jumpTo 64, rfl, rfl, rfl, fun hk ↦ ?_⟩⟩
  · obtain ⟨⟨n, hn, hle⟩, -⟩ := hk { initial with loopStart := 62 } rfl
    obtain rfl : 2 = n := Option.some.inj hn
    omega
  · have hin := (hk (initial.jumpTo 64) rfl).2 rfl trivial
    exact absurd hin.2 (by decide)

end Transport

end Vuknob
