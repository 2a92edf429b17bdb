import Vuknob.Clock.Ticks
import Vuknob.Library.Runs

/-!
# What the members of the clock can be

No call leaves the ranges below, from the start of the program on: the tempo is one that
`set_bpm` and `set_lpb` accept, `src_jni/machine.cc:2116–2132`, the loop does not begin before
line 0, and the next tick is never in the past.
-/

namespace Vuknob

open Library

namespace Transport

variable {t t' : Transport} {call : TransportCall} {r : TransportResult}

/-- The lines of the loop as the functions that set them leave them. -/
structure LoopSettings (t : Transport) : Prop where
  start : 0 ≤ t.loopStart ∧ t.loopStart < 2 ^ 31
  stop : 0 ≤ t.loopStop ∧ t.loopStop < 2 ^ 31

/-- The ranges of the settings and of the clock. -/
structure Ranges (t : Transport) : Prop where
  loop : t.LoopSettings
  bpm : 20 ≤ t.bpm ∧ t.bpm ≤ 200
  lpb : 2 ≤ t.lpb ∧ t.lpb ≤ 24
  tick : 0 ≤ t.currentTick ∧ t.currentTick < 16
  nextTickAt : ∀ d ∈ Dimension.all, 0 ≤ t.nextTickAt d ∧ t.nextTickAt d < 2 ^ 31

private theorem zero_tick : (0 : Int) ≤ 0 ∧ (0 : Int) < 16 := by decide

private theorem zero_nextTickAt : (0 : Int) ≤ 0 ∧ (0 : Int) < 2 ^ 31 := by decide

theorem ranges_initial : initial.Ranges where
  loop := ⟨by decide, by decide⟩
  bpm := by decide
  lpb := by decide
  tick := zero_tick
  nextTickAt _ _ := zero_nextTickAt

/-- After a buffer the clock is in its ranges. -/
private theorem Ranges.fillSink {fuel : Nat} (ht : t.Ranges)
    (h : t.step (.fillSink fuel) = some (r, t')) : t'.Ranges := by
  obtain ⟨s, hs, ht'⟩ := fillSink_cases h
  obtain ⟨⟨spt, sptf, rfl⟩, -⟩ := calculateSamplesPerTick_eq hs
  obtain ⟨⟨_, _, _, hsame⟩, hloops, x, hx, htick, -⟩ :=
    calculateNextTickAtAndSequencePosition_eq ht'
  refine ⟨?_, ?_, ?_, ?_, ?_⟩
  · rw [hsame]
    exact ⟨ht.loop.start, ht.loop.stop⟩
  · rw [hsame]
    exact ht.bpm
  · rw [hsame]
    exact ht.lpb
  · rw [htick]
    exact tickLoop_tick hx ht.tick
  · intro d hd
    obtain ⟨y, hy, hnta, hlt⟩ := hloops d hd
    have hend := samples_le_of_tickLoop hy
    exact ⟨by omega, hlt⟩

/-- No call leaves the ranges. -/
theorem Ranges.step (ht : t.Ranges) (h : t.step call = some (r, t')) : t'.Ranges := by
  obtain ⟨⟨hstart, hstop⟩, hbpm, hlpb, htick, hnta⟩ := id ht
  cases call with
  | setLoopStart line =>
    simp only [Transport.step] at h
    split at h
    · obtain ⟨-, rfl⟩ := Prod.mk.inj (Option.some.inj h)
      exact ht
    · next hpos =>
      obtain ⟨-, rfl⟩ := Prod.mk.inj (Option.some.inj h)
      exact ⟨⟨⟨Int.not_lt.mp hpos, line.toInt_lt⟩, hstop⟩, hbpm, hlpb, htick, hnta⟩
  | setLoopLength n =>
    simp only [Transport.step] at h
    split at h
    · obtain ⟨-, rfl⟩ := Prod.mk.inj (Option.some.inj h)
      exact ht
    · next hn =>
      simp only [Option.map_eq_some_iff, int_eq_some_iff, Prod.mk.injEq] at h
      obtain ⟨stop, ⟨hfits, rfl⟩, -, rfl⟩ := h
      exact ⟨⟨hstart, by simp only; omega, hfits.2⟩, hbpm, hlpb, htick, hnta⟩
  | setBpm bpm =>
    simp only [Transport.step] at h
    split at h
    · obtain ⟨-, rfl⟩ := Prod.mk.inj (Option.some.inj h)
      exact ht
    · next hn =>
      obtain ⟨-, rfl⟩ := Prod.mk.inj (Option.some.inj h)
      exact ⟨⟨hstart, hstop⟩, by simp only; omega, hlpb, htick, hnta⟩
  | setLpb lpb =>
    simp only [Transport.step] at h
    split at h
    · obtain ⟨-, rfl⟩ := Prod.mk.inj (Option.some.inj h)
      exact ht
    · next hn =>
      obtain ⟨-, rfl⟩ := Prod.mk.inj (Option.some.inj h)
      exact ⟨⟨hstart, hstop⟩, hbpm, by simp only; omega, htick, hnta⟩
  | jumpTo position =>
    obtain ⟨-, rfl⟩ := Prod.mk.inj (Option.some.inj h)
    exact ⟨⟨hstart, hstop⟩, hbpm, hlpb, zero_tick, hnta⟩
  | rewind | play =>
    obtain ⟨-, rfl⟩ := Prod.mk.inj (Option.some.inj h)
    exact ⟨⟨hstart, hstop⟩, hbpm, hlpb, zero_tick, fun _ _ ↦ zero_nextTickAt⟩
  | setDefaults d samples frequency =>
    simp only [Transport.step, Option.ite_none_left_eq_some, Option.some.injEq, Prod.mk.injEq] at h
    obtain ⟨-, -, rfl⟩ := h
    exact ⟨⟨hstart, hstop⟩, hbpm, hlpb, htick, hnta⟩
  | createSignal d =>
    simp only [Transport.step, Option.map_eq_some_iff, Prod.mk.injEq] at h
    obtain ⟨_, -, -, rfl⟩ := h
    exact ⟨⟨hstart, hstop⟩, hbpm, hlpb, htick, hnta⟩
  | setLoopState _ | setShuffleFactor _ | stop =>
    obtain ⟨-, rfl⟩ := Prod.mk.inj (Option.some.inj h)
    exact ⟨⟨hstart, hstop⟩, hbpm, hlpb, htick, hnta⟩
  | fillSink fuel => exact ht.fillSink h

end Transport

end Vuknob
